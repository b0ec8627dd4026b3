/-
The concurrency limiter (`common/utils/concurrency-limiter.ts`) among its
callers: any number of `run` calls, whose tasks give their slot up and take
it back, and `close` at any moment.

# The gap

`release` resolves the promise of the first waiter; the waiter goes on one
microtask later, and other code may run in between. So a slot handed over
is for a while held by nobody that runs: the phases `granted` and
`regranted` are a call in that gap, and `resume` is its end. A waiter that
`close` rejects has such a gap too.

# Tasks

A task runs until it settles, and may call `yieldSlot` whenever `held` is
true (else the call runs its function and touches nothing). A task that
awaits what it calls settles with a slot, or without one after a failed
re-acquire. Nothing makes it await: `leave` is a task that settles while its
`yieldSlot` is still going on, which then takes a slot for a task that is
over. And nothing sets `held` to false after the last release of `run`: a
`yieldSlot` called by work that outlives its task (phase `returned`) gives a
slot up once more.

# The history

`parkedLog` lists the waiters in the order they parked and `servedLog` those
that were handed a slot, in that order. Nothing reads them.
-/
import Mathlib.Algebra.Order.Floor.Ring
import Mathlib.Data.Rat.Floor
import OpenWA.Lib.Reach

namespace OpenWA.Concurrency

open Function (update)

-- ======== the limiter

/-- Why `acquire` throws. -/
inductive Refusal
  | closed
  | queueFull
deriving Repr, DecidableEq

/-- The fields of `ConcurrencyLimiter`; a waiter is the `run` call whose
promise it resolves, and `maxQueued` is `none` for `Infinity`. -/
structure ConcurrencyLimiter where
  max : Nat
  maxQueued : Option Nat
  active : Int
  waiters : List Nat
  reacquiring : Int
  closed : Bool

namespace ConcurrencyLimiter

/-- The constructor, which clamps both limits. -/
def new (max : ℚ) (maxQueued : Option ℚ) : ConcurrencyLimiter where
  max := (Max.max 1 ⌊max⌋).toNat
  maxQueued := maxQueued.map fun q => (Max.max 0 ⌊q⌋).toNat
  active := 0
  waiters := []
  reacquiring := 0
  closed := false

/-- `this.waiters.length - this.reacquiring >= this.maxQueued`. -/
def full (l : ConcurrencyLimiter) : Bool :=
  l.maxQueued.any fun m => decide ((m : Int) ≤ l.waiters.length - l.reacquiring)

/-- `acquire`: throw, take a free slot (`false`) or park (`true`). -/
def acquire (l : ConcurrencyLimiter) (bounded : Bool) (r : Nat) :
    Except Refusal (ConcurrencyLimiter × Bool) :=
  if l.closed then .error .closed
  else if l.active < l.max then .ok ({ l with active := l.active + 1 }, false)
  else if bounded && l.full then .error .queueFull
  else .ok ({ l with waiters := l.waiters ++ [r] }, true)

/-- `release`: the waiter the slot is handed to, if there is one. -/
def release (l : ConcurrencyLimiter) : ConcurrencyLimiter × Option Nat :=
  match l.waiters with
  | next :: rest => ({ l with waiters := rest }, some next)
  | [] => ({ l with active := l.active - 1 }, none)

/-- `close`: the waiters it rejects. -/
def close (l : ConcurrencyLimiter) : ConcurrencyLimiter × List Nat :=
  ({ l with closed := true, waiters := [] }, l.waiters)

end ConcurrencyLimiter

-- ======== the calls

/-- Where a `run` call stands. -/
inductive Phase
  /-- Parked for its first slot; handed one; rejected by `close`. -/
  | parked
  | granted
  | rejected
  /-- The task goes on, with a slot or after a failed re-acquire. -/
  | holding
  | slotless
  /-- Inside `yieldSlot`: its function runs; parked for a slot again; handed
  one; rejected by `close`. -/
  | yielded
  | reparked
  | regranted
  | rerejected
  /-- The call has returned or thrown after its last release: `held` is true. -/
  | returned
  /-- It is over with `held` false, or never had a slot. -/
  | settled
  | refused (why : Refusal)
deriving Repr, DecidableEq

namespace Phase

/-- A slot is counted for the call. -/
def holds : Phase → Bool
  | .granted | .holding | .regranted => true
  | _ => false

/-- The call's waiter is in the queue. -/
def waits : Phase → Bool
  | .parked | .reparked => true
  | _ => false

/-- The call is between `reacquiring++` and `reacquiring--`. -/
def reacquires : Phase → Bool
  | .reparked | .regranted | .rerejected => true
  | _ => false

/-- What resolving the waiter's promise does. -/
def wake : Phase → Phase
  | .parked => .granted
  | .reparked => .regranted
  | p => p

/-- What rejecting it does. -/
def reject : Phase → Phase
  | .parked => .rejected
  | .reparked => .rerejected
  | p => p

end Phase

/-- A `run` call: its phase, and whether its task is over while its
`yieldSlot` is not. -/
structure Run where
  phase : Phase
  left : Bool
deriving DecidableEq

/-- The limiter, the `run` calls made so far (those below `next`) and the
history. -/
structure World where
  lim : ConcurrencyLimiter
  runs : Nat → Run
  next : Nat
  parkedLog : List Nat
  servedLog : List Nat

/-- A new limiter. -/
def World.new (max : ℚ) (maxQueued : Option ℚ) : World where
  lim := .new max maxQueued
  runs := fun _ => { phase := .settled, left := false }
  next := 0
  parkedLog := []
  servedLog := []

/-- What can happen between two microtasks. -/
inductive Act
  /-- A fresh `run` call. -/
  | run
  | yieldSlot (r : Nat)
  /-- The function given to `yieldSlot` has settled. -/
  | reacquire (r : Nat)
  /-- The microtask of a resolved or rejected waiter. -/
  | resume (r : Nat)
  /-- The task settles with nothing of its own going on. -/
  | settle (r : Nat)
  /-- The task settles while its `yieldSlot` goes on. -/
  | leave (r : Nat)
  | close
deriving DecidableEq

-- ======== the steps

namespace World

/-- The phase of a call. -/
def phase (w : World) (r : Nat) : Phase := (w.runs r).phase

/-- A call moves to another phase. -/
def setPhase (w : World) (r : Nat) (p : Phase) : World :=
  { w with runs := update w.runs r { w.runs r with phase := p } }

/-- The task is over while its `yieldSlot` is not. -/
def leave (w : World) (r : Nat) : World :=
  { w with runs := update w.runs r { w.runs r with left := true } }

/-- Park a call: its waiter is behind all others. -/
def park (w : World) (lim : ConcurrencyLimiter) (r : Nat) (p : Phase) : World :=
  { ({ w with lim := lim }.setPhase r p) with parkedLog := w.parkedLog ++ [r] }

/-- Give a slot up. -/
def release (w : World) : World :=
  match w.lim.release with
  | (lim, some next) =>
    { ({ w with lim := lim }.setPhase next (w.phase next).wake) with
      servedLog := w.servedLog ++ [next] }
  | (lim, none) => { w with lim := lim }

/-- A fresh `run`. -/
def run (w : World) : World :=
  let w' := { w with next := w.next + 1 }
  match w.lim.acquire true w.next with
  | .error why => w'.setPhase w.next (.refused why)
  | .ok (lim, false) => { w' with lim := lim }.setPhase w.next .holding
  | .ok (lim, true) => w'.park lim w.next .parked

/-- The `finally` of `yieldSlot`, up to its `await`. -/
def reacquire (w : World) (r : Nat) : World :=
  match w.lim.acquire false r with
  | .error _ => w.setPhase r .slotless
  | .ok (lim, false) => { w with lim := lim }.setPhase r .holding
  | .ok (lim, true) => w.park { lim with reacquiring := lim.reacquiring + 1 } r .reparked

/-- The end of a re-acquire that was parked. -/
def reacquired (w : World) (r : Nat) (p : Phase) : World :=
  let lim := { w.lim with reacquiring := w.lim.reacquiring - 1 }
  { w with lim := lim }.setPhase r p

/-- Reject every waiter. -/
def close (w : World) : World :=
  { w with
    lim := w.lim.close.1
    runs := fun r =>
      if w.lim.close.2.contains r then { w.runs r with phase := (w.phase r).reject }
      else w.runs r }

end World

/-- The limiter's machine. -/
def limiter : Machine World Act where
  step
    | .run, w => some w.run
    | .yieldSlot r, w =>
      match w.phase r with
      | .holding => some (w.setPhase r .yielded).release
      | .returned => some ((w.leave r).setPhase r .yielded).release
      | _ => none
    | .reacquire r, w =>
      match w.phase r with
      | .yielded => some (w.reacquire r)
      | _ => none
    | .resume r, w =>
      match w.phase r with
      | .granted => some (w.setPhase r .holding)
      | .rejected => some (w.setPhase r .settled)
      | .regranted => some (w.reacquired r .holding)
      | .rerejected => some (w.reacquired r .slotless)
      | _ => none
    | .settle r, w =>
      if (w.runs r).left then none
      else
        match w.phase r with
        | .holding => some (w.setPhase r .returned).release
        | .slotless => some (w.setPhase r .settled)
        | _ => none
    | .leave r, w =>
      if (w.runs r).left then none
      else
        match w.phase r with
        | .yielded | .reparked | .regranted | .rerejected => some (w.leave r)
        | _ => none
    | .close, w => some w.close

end OpenWA.Concurrency

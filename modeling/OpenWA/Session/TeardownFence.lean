/-
The credential-teardown fence of `session-lifecycle-fences.ts`:
`trackPendingCredentialTeardown` and `awaitPendingTeardown`, with any number
of teardowns and waits in flight.

# The promises

The map holds under each session name the last entry of a `Chain`: an entry
is `Promise.allSettled` of the entry before it and of its own teardown, or
its own teardown alone when there was none. `hear` is the earlier entry's
settlement reaching it, `settle` its own, which needs the teardown settled
as well, and `clear` its `finally`. A teardown is caught, so it counts the
same whether it resolves or rejects. Each of these is a step of its own:
anything may run between two of them.
-/
import OpenWA.Lib.Chain
import OpenWA.Lib.Reach
import OpenWA.Lib.Text

namespace OpenWA.Session

/-- How a teardown settles. -/
inductive Settlement
  | resolved
  | rejected
deriving DecidableEq

/-- How far a wait has got. -/
inductive WaitPhase
  | waiting
  | resolved
  /-- After ten seconds: `SESSION_NAME_TEARDOWN_PENDING`. -/
  | timedOut
deriving DecidableEq

/-- A call of `awaitPendingTeardown`: the entry it found and how many
teardowns had been tracked by then. -/
structure Wait where
  name : Text
  pending : Option Nat
  before : Nat
  phase : WaitPhase

/-- The pending teardowns and those who wait for them. -/
structure Fences where
  pendingTeardowns : Chain Text Unit
  /-- The teardown of each entry, once it has settled. -/
  raw : Nat → Option Settlement
  /-- The entries whose `finally` has not run. -/
  uncleared : List Nat
  waits : List Wait

namespace Fences

/-- No teardown is pending. -/
def new : Fences where
  pendingTeardowns := Chain.empty
  raw _ := none
  uncleared := []
  waits := []

variable (w : Fences)

/-- `trackPendingCredentialTeardown`. -/
def track (name : Text) : Fences :=
  { w with
    pendingTeardowns := w.pendingTeardowns.push name ()
    uncleared := w.uncleared ++ [w.pendingTeardowns.jobs.length] }

/-- `awaitPendingTeardown`, up to its await. -/
def await (name : Text) : Fences :=
  let pending := w.pendingTeardowns.tail name
  { w with
    waits := w.waits ++ [{
      name
      pending
      before := w.pendingTeardowns.jobs.length
      phase := if pending.isNone then .resolved else .waiting }] }

/-- Wait `i` is now here. -/
def setWait (i : Nat) (phase : WaitPhase) : Fences :=
  { w with waits := w.waits.modify i fun wait => { wait with phase } }

/-- An entry's promise has settled. -/
def settled (j : Nat) : Bool := (w.pendingTeardowns.jobs[j]?).any fun job => job.phase = .settled

end Fences

/-- What can happen to the fences. -/
inductive FenceAct
  | track (name : Text)
  /-- The teardown of an entry settles. -/
  | teardown (j : Nat) (how : Settlement)
  /-- The entry hears of the one before it. -/
  | hear (j : Nat)
  /-- The entry settles. -/
  | settle (j : Nat)
  /-- Its `finally` runs. -/
  | clear (j : Nat)
  | await (name : Text)
  /-- A wait hears that the entry it found has settled. -/
  | resume (i : Nat)
  /-- Its timer fires. -/
  | timeout (i : Nat)

/-- The steps the promises take by themselves. -/
def FenceAct.microtask : FenceAct → Bool
  | hear _ | settle _ | clear _ => true
  | _ => false

/-- Every interleaving of teardowns and waits. -/
def fences : Machine Fences FenceAct where
  step
    | .track name, w => some (w.track name)
    | .teardown j how, w =>
      if j < w.pendingTeardowns.jobs.length ∧ w.raw j = none then
        some { w with raw := fun i => if i = j then some how else w.raw i }
      else none
    | .hear j, w =>
      match w.pendingTeardowns.jobs[j]? with
      | some job =>
        if job.phase = .waiting ∧ w.pendingTeardowns.free job = true then
          some { w with pendingTeardowns := w.pendingTeardowns.setPhase j .running }
        else none
      | none => none
    | .settle j, w =>
      match w.pendingTeardowns.jobs[j]? with
      | some job =>
        if job.phase = .running ∧ (w.raw j).isSome then
          some { w with pendingTeardowns := w.pendingTeardowns.setPhase j .settled }
        else none
      | none => none
    | .clear j, w =>
      match w.pendingTeardowns.jobs[j]? with
      | some job =>
        if job.phase = .settled ∧ w.uncleared.contains j = true then
          some { w with
            pendingTeardowns := w.pendingTeardowns.reclaim job.key j
            uncleared := w.uncleared.erase j }
        else none
      | none => none
    | .await name, w => some (w.await name)
    | .resume i, w =>
      match w.waits[i]? with
      | some wait =>
        if wait.phase = .waiting ∧ wait.pending.all w.settled then some (w.setWait i .resolved)
        else none
      | none => none
    | .timeout i, w =>
      match w.waits[i]? with
      | some wait => if wait.phase = .waiting then some (w.setWait i .timedOut) else none
      | none => none

end OpenWA.Session

/-
Write scopes of a session (`common/utils/session-write-scope.ts`): a
scope captures the session's lifetime without holding its deletion, and
`closeSessionWrites` closes that lifetime and drains the writes in flight.

# Objects

The source works on shared objects, and identity matters: a scope keeps
the `WriteState` and the `generation` it captured, and compares the first
with what the map holds now. The heap is split by field: `captures s` is
the field `captures` of the state `s`, `retired g` the field `retired` of
the generation `g`. What an object never changes is a record. A key `κ`
is a pair of a data source and a session id.

Scopes, listeners, writes, closings and drains are named by the caller; a
name is used once.

# Steps

A step is what runs without an await. The loop of `closeSessionWrites`
over its listeners is synchronous, but a listener may call back into this
module, so it is one step a listener and everything else may run between
two of them. A listener may throw: the loop goes on, and the model does
not tell. A write is `running` from the call on, `settled` when its
operation has ended and `over` when the `finally` has run.

# The history

`now` counts the steps. Times, the runs of a listener and the `owner` of a
generation are history; of these the code reads only whether `closedAt`
and `releasedAt` are set, which are its flags `closed` and `released`.
-/
import Mathlib.Logic.Function.Basic
import OpenWA.Lib.Reach

namespace OpenWA.WriteScope

/-- What a `SessionWriteScope` closes over. -/
structure Scope (κ : Type) where
  sessionId : κ
  state : Nat
  generation : Nat
  capturedAt : Nat

/-- A listener of `onRetire`. -/
structure Listener where
  scope : Nat
  addedAt : Nat
  /-- It was added on a scope that was still current; any other runs on
  the spot. -/
  live : Bool

/-- One call of a listener, by the loop of `closing`. -/
structure Run where
  closing : Nat
  time : Nat

/-- How far a write has got. -/
inductive WriteStatus
  | running
  | settled
  | over
deriving DecidableEq

/-- A call of `closeSessionWrites`. -/
structure Closing (κ : Type) where
  sessionId : κ
  state : Nat
  /-- The generation whose listeners its loop visits. -/
  generation : Nat
  calledAt : Nat

/-- A call of `drain`, and the writes it waits for. -/
structure Drain where
  closing : Nat
  waits : List Nat
  takenAt : Nat

/-- The map of sessions, their states, scopes, closings and writes. -/
structure World (κ : Type) where
  now : Nat
  sessions : κ → Option Nat
  -- `WriteState`
  nextState : Nat
  captures : Nat → Nat
  closing : Nat → Nat
  generation : Nat → Nat
  writes : Nat → List Nat
  -- `generation`
  nextGeneration : Nat
  retired : Nat → Bool
  /-- The `notify` functions, in the order they were added. -/
  listening : Nat → List Nat
  /-- The session a generation was made for. -/
  owner : Nat → Option κ
  -- scopes
  scopes : Nat → Option (Scope κ)
  closedAt : Nat → Option Nat
  /-- The `dispose` functions of a scope. -/
  subscriptions : Nat → List Nat
  -- listeners
  listeners : Nat → Option Listener
  /-- When its own `dispose` removed it. -/
  disposedAt : Nat → Option Nat
  runs : Nat → List Run
  -- writes
  /-- The scope a write was called on. -/
  writer : Nat → Option Nat
  status : Nat → WriteStatus
  -- closings
  closings : Nat → Option (Closing κ)
  returnedAt : Nat → Option Nat
  releasedAt : Nat → Option Nat
  -- drains
  drains : Nat → Option Drain
  resolvedAt : Nat → Option Nat

/-- Nothing is captured. -/
def World.init (κ : Type) : World κ where
  now := 0
  sessions := fun _ => none
  nextState := 0
  captures := fun _ => 0
  closing := fun _ => 0
  generation := fun _ => 0
  writes := fun _ => []
  nextGeneration := 0
  retired := fun _ => false
  listening := fun _ => []
  owner := fun _ => none
  scopes := fun _ => none
  closedAt := fun _ => none
  subscriptions := fun _ => []
  listeners := fun _ => none
  disposedAt := fun _ => none
  runs := fun _ => []
  writer := fun _ => none
  status := fun _ => .running
  closings := fun _ => none
  returnedAt := fun _ => none
  releasedAt := fun _ => none
  drains := fun _ => none
  resolvedAt := fun _ => none

/-- What can happen, one step each. -/
inductive Act (κ : Type)
  | capture (i : Nat) (k : κ)
  | onRetire (l i : Nat)
  | dispose (l : Nat)
  | write (x i : Nat)
  | settle (x : Nat)
  | finish (x : Nat)
  | close (i : Nat)
  | closeWrites (c : Nat) (k : κ)
  | notify (c : Nat)
  | returns (c : Nat)
  | drain (d c : Nat)
  | resolve (d : Nat)
  | release (c : Nat)

open Function (update)

namespace World

variable {κ : Type} [DecidableEq κ]

-- ======== states

/-- A new `WriteState` for a session that has none. -/
def newState (w : World κ) (k : κ) : World κ :=
  { w with
    sessions := update w.sessions k (some w.nextState)
    nextState := w.nextState + 1
    captures := update w.captures w.nextState 0
    closing := update w.closing w.nextState 0
    generation := update w.generation w.nextState w.nextGeneration
    writes := update w.writes w.nextState []
    nextGeneration := w.nextGeneration + 1
    retired := update w.retired w.nextGeneration false
    listening := update w.listening w.nextGeneration []
    owner := update w.owner w.nextGeneration (some k) }

/-- `stateFor`: afterwards the session has a state. -/
def stateFor (w : World κ) (k : κ) : World κ × Nat :=
  match w.sessions k with
  | some s => (w, s)
  | none => (w.newState k, w.nextState)

/-- Nothing holds the state. -/
def idle (w : World κ) (s : Nat) : Bool :=
  w.captures s = 0 && w.closing s = 0 && (w.writes s).isEmpty

/-- A state that nothing holds leaves the map. -/
def releaseIdle (w : World κ) (k : κ) (s : Nat) : World κ :=
  if w.idle s && w.sessions k = some s then
    { w with sessions := update w.sessions k none }
  else w

-- ======== scopes

/-- `captureSessionWrites`, once the session has the state `s`. -/
def captureOn (w : World κ) (i : Nat) (k : κ) (s : Nat) : World κ :=
  { w with
    captures := update w.captures s (w.captures s + 1)
    scopes := update w.scopes i (some
      { sessionId := k, state := s, generation := w.generation s,
        capturedAt := w.now }) }

/-- `captureSessionWrites(sessionId)`. -/
def captureSessionWrites (w : World κ) (i : Nat) (k : κ) : Option (World κ) :=
  if (w.scopes i).isSome then none
  else some ((w.stateFor k).1.captureOn i k (w.stateFor k).2)

/-- The condition under which `assertCurrent` throws. -/
def stale (w : World κ) (i : Nat) (scope : Scope κ) : Bool :=
  (w.closedAt i).isSome || w.retired scope.generation
    || w.closing scope.state ≠ 0
    || w.sessions scope.sessionId ≠ some scope.state

/-- `assertCurrent` of a scope returns. -/
def assertCurrent (w : World κ) (i : Nat) : Bool := (w.scopes i).any fun scope => !w.stale i scope

/-- `dispose`: remove the `notify` from the generation and itself from
the scope. -/
def unsubscribe (w : World κ) (l i g : Nat) : World κ :=
  { w with
    listening := update w.listening g ((w.listening g).filter (· ≠ l))
    subscriptions := update w.subscriptions i ((w.subscriptions i).filter (· ≠ l)) }

/-- A listener is listed under its generation. -/
def subscribe (w : World κ) (l i g : Nat) : World κ :=
  { w with
    listening := update w.listening g (w.listening g ++ [l])
    subscriptions := update w.subscriptions i (w.subscriptions i ++ [l])
    listeners := update w.listeners l (some
      { scope := i, addedAt := w.now, live := true }) }

/-- A listener on a live scope waits; any other runs at once. -/
def onRetire (w : World κ) (l i : Nat) : Option (World κ) :=
  if (w.listeners l).isSome then none
  else
    match w.scopes i with
    | none => none
    | some scope =>
      if w.stale i scope then
        some { w with
          listeners := update w.listeners l (some
            { scope := i, addedAt := w.now, live := false }) }
      else
        some (w.subscribe l i scope.generation)

/-- The function `onRetire` returned is called. -/
def dispose (w : World κ) (l : Nat) : Option (World κ) :=
  match w.listeners l with
  | none => none
  | some listener =>
    match w.scopes listener.scope with
    | none => none
    | some scope =>
      if l ∈ w.subscriptions listener.scope then
        some { w.unsubscribe l listener.scope scope.generation with
          disposedAt := update w.disposedAt l (some w.now) }
      else some w

/-- A write begins on the state. -/
def startWrite (w : World κ) (x i s : Nat) : World κ :=
  { w with
    writes := update w.writes s (w.writes s ++ [x])
    writer := update w.writer x (some i)
    status := update w.status x .running }

/-- `write`: `assertCurrent`, then the operation is pending. -/
def write (w : World κ) (x i : Nat) : Option (World κ) :=
  if (w.writer x).isSome then none
  else
    match w.scopes i with
    | none => none
    | some scope =>
      if w.stale i scope then none
      else some (w.startWrite x i scope.state)

/-- The write runs. -/
def running (w : World κ) (x : Nat) : Bool := (w.writer x).isSome && w.status x = .running

/-- The operation resolves or rejects. -/
def settle (w : World κ) (x : Nat) : Option (World κ) :=
  if w.running x then
    some { w with status := update w.status x .settled }
  else none

/-- A write is over. -/
def finishOn (w : World κ) (x s : Nat) : World κ :=
  { w with
    writes := update w.writes s ((w.writes s).filter (· ≠ x))
    status := update w.status x .over }

/-- The `finally` of `write`. -/
def finish (w : World κ) (x : Nat) : Option (World κ) :=
  match (w.writer x).bind w.scopes with
  | none => none
  | some scope =>
    if w.status x = .settled then
      some ((w.finishOn x scope.state).releaseIdle scope.sessionId scope.state)
    else none

/-- Every subscription is disposed of. -/
def uncapture (w : World κ) (i g s : Nat) : World κ :=
  { w with
    closedAt := update w.closedAt i (some w.now)
    listening := update w.listening g ((w.listening g).filter (· ∉ w.subscriptions i))
    subscriptions := update w.subscriptions i []
    captures := update w.captures s (w.captures s - 1) }

/-- `close` of a scope. -/
def close (w : World κ) (i : Nat) : Option (World κ) :=
  match w.scopes i with
  | none => none
  | some scope =>
    if (w.closedAt i).isSome then some w
    else
      some ((w.uncapture i scope.generation scope.state).releaseIdle scope.sessionId scope.state)

-- ======== closings

/-- `closeSessionWrites` up to the loop over the listeners, once the
session has the state `s`. -/
def closeOn (w : World κ) (c : Nat) (k : κ) (s : Nat) : World κ :=
  { w with
    closing := update w.closing s (w.closing s + 1)
    retired := update w.retired (w.generation s) true
    closings := update w.closings c (some
      { sessionId := k, state := s, generation := w.generation s,
        calledAt := w.now }) }

/-- `closeSessionWrites(sessionId)`. -/
def closeSessionWrites (w : World κ) (c : Nat) (k : κ) : Option (World κ) :=
  if (w.closings c).isSome then none
  else some ((w.stateFor k).1.closeOn c k (w.stateFor k).2)

/-- One turn of the loop: the first listener left is disposed of and run. -/
def notify (w : World κ) (c : Nat) : Option (World κ) :=
  match w.closings c with
  | none => none
  | some closing =>
    match w.listening closing.generation with
    | [] => none
    | l :: _ =>
      match w.listeners l with
      | none => none
      | some listener =>
        match w.scopes listener.scope with
        | none => none
        | some scope =>
          if (w.returnedAt c).isSome then none
          else
            some { w.unsubscribe l listener.scope scope.generation with
              runs := update w.runs l (w.runs l ++ [⟨c, w.now⟩]) }

/-- The loop is over: `closeSessionWrites` returns. -/
def returns (w : World κ) (c : Nat) : Option (World κ) :=
  match w.closings c with
  | none => none
  | some closing =>
    if (w.returnedAt c).isNone && (w.listening closing.generation).isEmpty then
      some { w with returnedAt := update w.returnedAt c (some w.now) }
    else none

/-- `drain` is called: it waits for the writes there are. -/
def drain (w : World κ) (d c : Nat) : Option (World κ) :=
  if (w.drains d).isSome then none
  else
    match w.closings c with
    | none => none
    | some closing =>
      if (w.returnedAt c).isSome then
        some { w with
          drains := update w.drains d (some
            { closing := c, waits := w.writes closing.state,
              takenAt := w.now }) }
      else none

/-- `Promise.allSettled` resolves once no awaited write is running. -/
def resolve (w : World κ) (d : Nat) : Option (World κ) :=
  match w.drains d with
  | none => none
  | some drain =>
    if (w.resolvedAt d).isSome || drain.waits.any w.running then none
    else some { w with
      resolvedAt := update w.resolvedAt d (some w.now) }

/-- A closing lets go of its state. -/
def leave (w : World κ) (c s : Nat) : World κ :=
  { w with
    releasedAt := update w.releasedAt c (some w.now)
    closing := update w.closing s (w.closing s - 1) }

/-- The last closing to leave opens a new generation. -/
def regenerate (w : World κ) (k : κ) (s : Nat) : World κ :=
  if w.closing s = 0 then
    { w with
      generation := update w.generation s w.nextGeneration
      nextGeneration := w.nextGeneration + 1
      retired := update w.retired w.nextGeneration false
      listening := update w.listening w.nextGeneration []
      owner := update w.owner w.nextGeneration (some k) }
  else w

/-- `release()` of a closing. -/
def release (w : World κ) (c : Nat) : Option (World κ) :=
  match w.closings c with
  | none => none
  | some closing =>
    if (w.returnedAt c).isNone then none
    else if (w.releasedAt c).isSome then some w
    else
      some (((w.leave c closing.state).regenerate closing.sessionId
        closing.state).releaseIdle closing.sessionId closing.state)

-- ======== the machine

/-- Time goes on. -/
def tick (w : World κ) : World κ := { w with now := w.now + 1 }

/-- One act on the scopes. -/
def act : Act κ → World κ → Option (World κ)
  | .capture i k, w => w.captureSessionWrites i k
  | .onRetire l i, w => w.onRetire l i
  | .dispose l, w => w.dispose l
  | .write x i, w => w.write x i
  | .settle x, w => w.settle x
  | .finish x, w => w.finish x
  | .close i, w => w.close i
  | .closeWrites c k, w => w.closeSessionWrites c k
  | .notify c, w => w.notify c
  | .returns c, w => w.returns c
  | .drain d c, w => w.drain d c
  | .resolve d, w => w.resolve d
  | .release c, w => w.release c

end World

/-- Every interleaving of scopes and closings. -/
def system (κ : Type) [DecidableEq κ] : Machine (World κ) (Act κ) where
  step := fun a w => World.act a w.tick

end OpenWA.WriteScope

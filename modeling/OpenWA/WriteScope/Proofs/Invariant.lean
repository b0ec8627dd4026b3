/-
The invariant of the write scopes, in four parts.

- `Table`: the map, the counters and what refers to a state. A state
  leaves the map only when nothing open refers to it, so whoever is open
  finds the state it captured in the map (`scopeMapped`, `closingMapped`,
  `writeMapped`).
- `Lives`: generations. The generation of a state is retired exactly while
  a closing is on it, and an open scope's generation is retired exactly
  when a closing of the session was not released before the capture
  (`fenced`).
- `Drained`: a drain taken before the release waits for every write of the
  scopes the closing fences.
- `Heard`: a listener that waits is where the loop of the next closing
  finds it.
-/
import OpenWA.Lib.Counts
import OpenWA.WriteScope.World

namespace OpenWA.WriteScope

open Function (update update_self update_of_ne)

variable {κ : Type} {w v : World κ}

-- ======== vocabulary

/-- The closing was not released before the scope was captured: the scope
was captured before it or during it. -/
def Fences (w : World κ) (c : Nat) (scope : Scope κ) : Prop :=
  ∀ t, w.releasedAt c = some t → scope.capturedAt < t

/-- The scope is open on the state. -/
def OpenOn (w : World κ) (s i : Nat) : Prop :=
  ∃ scope, w.scopes i = some scope ∧ scope.state = s ∧ w.closedAt i = none

/-- The closing holds the state. -/
def ClosingOn (w : World κ) (s c : Nat) : Prop :=
  ∃ closing, w.closings c = some closing ∧ closing.state = s ∧ w.releasedAt c = none

/-- A write whose `finally` has not run. -/
def WriteOn (w : World κ) (s x : Nat) : Prop :=
  ∃ i scope, w.writer x = some i ∧ w.scopes i = some scope ∧ scope.state = s ∧ w.status x ≠ .over

/-- States, scopes and closings belong to each other. -/
structure Table (w : World κ) : Prop where
  injective : ∀ k k' s, w.sessions k = some s → w.sessions k' = some s → k = k'
  state_lt : ∀ k s, w.sessions k = some s → s < w.nextState
  scope_lt : ∀ i scope, w.scopes i = some scope → scope.state < w.nextState
  closing_lt : ∀ c closing, w.closings c = some closing → closing.state < w.nextState
  scopeMapped : ∀ i scope, w.scopes i = some scope → w.closedAt i = none →
    w.sessions scope.sessionId = some scope.state
  closingMapped : ∀ c closing, w.closings c = some closing →
    w.releasedAt c = none →
    w.sessions closing.sessionId = some closing.state
  writeMapped : ∀ x i scope, w.writer x = some i →
    w.scopes i = some scope → w.status x ≠ .over →
    w.sessions scope.sessionId = some scope.state
  captures : ∀ k s, w.sessions k = some s → Counts (OpenOn w s) (w.captures s)
  closing : ∀ k s, w.sessions k = some s → Counts (ClosingOn w s) (w.closing s)
  writes : ∀ k s x, w.sessions k = some s → (x ∈ w.writes s ↔ WriteOn w s x)
  /-- A write is on a scope. -/
  writer : ∀ x i, w.writer x = some i → (w.scopes i).isSome = true

/-- A generation belongs to one session. -/
structure Lives (w : World κ) : Prop where
  owned_lt : ∀ g k, w.owner g = some k → g < w.nextGeneration
  stateOwner : ∀ k s, w.sessions k = some s → w.owner (w.generation s) = some k
  scopeOwner : ∀ i scope, w.scopes i = some scope → w.owner scope.generation = some scope.sessionId
  closingOwner : ∀ c closing, w.closings c = some closing →
    w.owner closing.generation = some closing.sessionId
  retired : ∀ k s, w.sessions k = some s → (w.retired (w.generation s) = true ↔ w.closing s ≠ 0)
  closingRetired : ∀ c closing, w.closings c = some closing → w.retired closing.generation = true
  closingCurrent : ∀ c closing, w.closings c = some closing →
    w.releasedAt c = none →
    closing.generation = w.generation closing.state
  current : ∀ i scope, w.scopes i = some scope → w.closedAt i = none →
    w.retired scope.generation = false →
    scope.generation = w.generation scope.state
  fenced : ∀ i scope, w.scopes i = some scope → w.closedAt i = none →
    (w.retired scope.generation = true ↔
      ∃ c closing, w.closings c = some closing
        ∧ closing.sessionId = scope.sessionId ∧ Fences w c scope)

/-- A drain taken before the release waits for every running write of the
scopes the closing fences. -/
structure Drained (w : World κ) : Prop where
  closing : ∀ d drain, w.drains d = some drain → (w.closings drain.closing).isSome = true
  waits : ∀ d drain closing x i scope, w.drains d = some drain →
    w.closings drain.closing = some closing →
    (∀ t, w.releasedAt drain.closing = some t → drain.takenAt < t) →
    w.writer x = some i → w.scopes i = some scope →
    scope.sessionId = closing.sessionId → Fences w drain.closing scope →
    w.status x = .running → x ∈ drain.waits ∧ w.resolvedAt d = none

/-- A listener of a live scope that is still to run. -/
def Waits (w : World κ) (l : Nat) (listener : Listener) : Prop :=
  w.listeners l = some listener ∧ listener.live = true ∧ w.runs l = []
    ∧ w.disposedAt l = none ∧ w.closedAt listener.scope = none

/-- The closing is of the listener's session and was called after the
listener was added. -/
def Concerns (w : World κ) (c : Nat) (listener : Listener) : Prop :=
  ∃ scope closing, w.scopes listener.scope = some scope
    ∧ w.closings c = some closing ∧ closing.sessionId = scope.sessionId
    ∧ listener.addedAt < closing.calledAt

/-- The one run of a listener: within a closing that concerns it, before
its scope was closed. -/
def RanOnce (w : World κ) (l : Nat) (listener : Listener) (run : Run) : Prop :=
  w.runs l = [run] ∧ Concerns w run.closing listener
    ∧ (∀ closing, w.closings run.closing = some closing → closing.calledAt < run.time)
    ∧ (∀ t, w.returnedAt run.closing = some t → run.time < t)
    ∧ ∀ t, w.closedAt listener.scope = some t → run.time < t

/-- It was taken off before the time `t`. -/
def OffBefore (w : World κ) (l : Nat) (listener : Listener) (t : Nat) : Prop :=
  (∃ t', w.disposedAt l = some t' ∧ t' < t) ∨ ∃ t', w.closedAt listener.scope = some t' ∧ t' < t

/-- The listeners that wait are those that are listed. -/
structure Heard (w : World κ) : Prop where
  scope : ∀ l listener, w.listeners l = some listener → (w.scopes listener.scope).isSome = true
  /-- The loop finds exactly the listeners that wait. -/
  listed : ∀ l g, l ∈ w.listening g ↔ ∃ listener scope,
    Waits w l listener ∧ w.scopes listener.scope = some scope ∧ scope.generation = g
  subscribed : ∀ l i, l ∈ w.subscriptions i ↔ ∃ listener, Waits w l listener ∧ listener.scope = i
  /-- A listener waits on the generation of its state. -/
  current : ∀ l listener scope, Waits w l listener →
    w.scopes listener.scope = some scope →
    w.generation scope.state = scope.generation
  /-- It was added before its generation was retired. -/
  early : ∀ l listener scope c closing, w.listeners l = some listener →
    listener.live = true → w.scopes listener.scope = some scope →
    w.closings c = some closing → closing.generation = scope.generation →
    listener.addedAt < closing.calledAt
  once : ∀ l listener, w.listeners l = some listener →
    listener.live = true → w.runs l = [] ∨ ∃ run, RanOnce w l listener run
  missed : ∀ l listener c t, w.listeners l = some listener →
    listener.live = true → w.runs l = [] → Concerns w c listener →
    w.returnedAt c = some t → OffBefore w l listener t
  /-- The closings that concern a listener that waits are on its
  generation. -/
  concerned : ∀ l listener scope c closing, Waits w l listener →
    w.scopes listener.scope = some scope → w.closings c = some closing →
    closing.sessionId = scope.sessionId →
    listener.addedAt < closing.calledAt →
    closing.generation = scope.generation

/-- Names that were not used yet have no history. -/
structure Unused (w : World κ) : Prop where
  scope : ∀ i, w.scopes i = none → w.closedAt i = none
  closing : ∀ c, w.closings c = none → w.releasedAt c = none ∧ w.returnedAt c = none
  listener : ∀ l, w.listeners l = none → w.disposedAt l = none ∧ w.runs l = []
  drain : ∀ d, w.drains d = none → w.resolvedAt d = none

/-- Every recorded time is past. -/
structure Past (w : World κ) (t : Nat) : Prop extends Unused w where
  clock : t ≤ w.now + 1
  captured : ∀ i scope, w.scopes i = some scope → scope.capturedAt < t
  released : ∀ c t', w.releasedAt c = some t' → t' < t
  called : ∀ c closing, w.closings c = some closing → closing.calledAt < t
  added : ∀ l listener, w.listeners l = some listener → listener.addedAt < t
  disposed : ∀ l t', w.disposedAt l = some t' → t' < t
  closed : ∀ i t', w.closedAt i = some t' → t' < t
  ran : ∀ l run, run ∈ w.runs l → run.time < t

end OpenWA.WriteScope

/-
Any number of keyed send requests, on any number of nodes that share one
database and one clock, interleaved statement by statement.

# The requests

`claim` makes at most two rounds. A round reads the clock, inserts, and
on a unique violation reads the row; a row past its window is deleted —
by id, and only if it is still past it — and the next round begins. The
request that inserted runs its handler and then settles; `settle` is
best-effort, so its write may be lost, and a request may die between any
two of its statements. The hourly prune deletes with a clock reading of
its own.

A request whose header is missing, or whose session segment is too long
to be a session's id, runs its handler with no claim; it is in the model
as the source has it.

Deleting a session deletes its keys; that, and restoring a backup, are
not among the steps.

# The history

`Claim` and the fields `started`, `outcome` and `releasedAt` of a request
record what happened and when, in steps of the run. Nothing reads them.
-/
import Mathlib.Logic.Function.Basic
import OpenWA.Lib.Reach
import OpenWA.Idempotency.Store

namespace OpenWA.Idempotency

variable {β : Type}

/-- What the client was answered. -/
inductive Answer (β : Type)
  | claim (c : SendIdempotencyClaim β)
  | invalidKey
  | ended (o : Outcome β)
deriving DecidableEq

/-- Where a request stands between two statements. -/
inductive Phase (β : Type)
  | idle
  | inserting (round now : Nat)
  | reading (round now : Nat)
  | clearing (round now id : Nat)
  | claimed (id : Nat)
  | running (id : Option Nat)
  | settling (id : Nat) (o : Outcome β)
  | answered (a : Answer β)
  | crashed
deriving DecidableEq

/-- A successful INSERT: the row, the clock reading its window counts
from, and when it was made, on the clock and in steps of the run. -/
structure Claim where
  row : Nat
  now : Nat
  clock : Nat
  step : Nat

/-- A request and what has become of it. -/
structure Request (β : Type) where
  sessionId : Text
  header : Header
  route : Text
  requestHash : Text
  phase : Phase β
  claim : Option Claim := none
  started : Bool := false
  outcome : Option (Outcome β) := none
  releasedAt : Option Nat := none

/-- The clock, the table and the requests. -/
structure World (β : Type) where
  clock : Nat
  stepNo : Nat
  keys : Table β
  nextId : Nat
  requests : Nat → Request β

/-- The atomic steps. -/
inductive Act (β : Type)
  | tick (ms : Nat)
  /-- A request arrives. -/
  | arrive (i : Nat) (sessionId : Text) (header : Header) (route requestHash : Text)
  /-- The statements of `claim`. -/
  | insert (i : Nat)
  | read (i : Nat)
  | clear (i : Nat)
  /-- The handler starts, and ends. -/
  | start (i : Nat)
  | finish (i : Nat) (o : Outcome β)
  /-- The settle write is applied, or lost. -/
  | settle (i : Nat) (applied : Bool)
  | crash (i : Nat)
  /-- `pruneExpired`, with a clock reading taken before. -/
  | prune (now : Nat)

namespace World

/-- Request `i` becomes `r`. -/
def setRequest (w : World β) (i : Nat) (r : Request β) : World β :=
  { w with requests := Function.update w.requests i r }

/-- Request `i` moves to a phase. -/
def setPhase (w : World β) (i : Nat) (phase : Phase β) : World β :=
  w.setRequest i { w.requests i with phase }

/-- What a request starts with. -/
def firstPhase (clock : Nat) (header : Header) (sessionId : Text) : Phase β :=
  match intercept header sessionId with
  | .pass => .running none
  | .refuse => .answered .invalidKey
  | .claim _ => .inserting 0 clock

/-- The next round of `claim`, if there is one. -/
def nextRound (clock round : Nat) : Phase β :=
  if round + 1 < 2 then .inserting (round + 1) clock
  else .answered (.claim .inProgress)

/-- The key a request carries. -/
def keyOf (header : Header) : Text :=
  match header with
  | .one key => key
  | _ => []

end World

/-- What the unique index sees of a request. -/
def Request.pair (r : Request β) : Text × Text := (r.sessionId, World.keyOf r.header)

/-- The row a request inserts. -/
def Request.row (r : Request β) (id now : Nat) : SendIdempotencyKey β where
  id := id
  sessionId := r.sessionId
  idempotencyKey := World.keyOf r.header
  route := r.route
  requestHash := r.requestHash
  state := .pending
  responseBody := none
  expiresAt := now + sendIdempotencyTtlMs

namespace World

/-- A request arrives. -/
def arrive (w : World β) (i : Nat) (sessionId : Text) (header : Header)
    (route requestHash : Text) : Option (World β) :=
  match (w.requests i).phase with
  | .idle =>
    let phase := firstPhase w.clock header sessionId
    some (w.setRequest i
      { sessionId, header, route, requestHash, phase
        started := intercept header sessionId = .pass })
  | _ => none

/-- The claim's insert: the row is new, or the pair is taken. -/
def insert (w : World β) (i : Nat) : Option (World β) :=
  match (w.requests i).phase with
  | .inserting round now =>
    match w.keys.insert ((w.requests i).row w.nextId now) with
    | some keys =>
      some { w.setRequest i { w.requests i with
               phase := .claimed w.nextId
               claim := some { row := w.nextId, now, clock := w.clock
                               step := w.stepNo } } with
             keys
             nextId := w.nextId + 1 }
    | none => some (w.setPhase i (.reading round now))
  | _ => none

/-- The row that has the pair is read. -/
def read (w : World β) (i : Nat) : Option (World β) :=
  match (w.requests i).phase with
  | .reading round now =>
    match w.keys.findOne (w.requests i).pair with
    | none => some (w.setPhase i (nextRound w.clock round))
    | some row =>
      if row.expiresAt ≤ now then
        some (w.setPhase i (.clearing round now row.id))
      else
        some (w.setPhase i (.answered (.claim (classify row (w.requests i).requestHash now))))
  | _ => none

/-- An expired row is deleted. -/
def clear (w : World β) (i : Nat) : Option (World β) :=
  match (w.requests i).phase with
  | .clearing round now id =>
    some { w.setPhase i (nextRound w.clock round) with
           keys := w.keys.delete fun r =>
             r.id = id && r.expiresAt < now }
  | _ => none

/-- The handler starts. -/
def start (w : World β) (i : Nat) : Option (World β) :=
  match (w.requests i).phase with
  | .claimed id =>
    some (w.setRequest i { w.requests i with
      phase := .running (some id), started := true })
  | _ => none

/-- The handler ends. -/
def finish (w : World β) (i : Nat) (o : Outcome β) : Option (World β) :=
  match (w.requests i).phase with
  | .running id =>
    let phase := id.elim (.answered (.ended o)) (.settling · o)
    some (w.setRequest i { w.requests i with
      phase, outcome := some o })
  | _ => none

/-- The outcome is one that releases the key. -/
def releases : Outcome β → Bool
  | .returned _ => false
  | .failed error => sendFailureProvesNothingSent error

/-- The outcome is written to the row, or the write fails. -/
def settle (w : World β) (i : Nat) (applied : Bool) : Option (World β) :=
  match (w.requests i).phase with
  | .settling id o =>
    if applied then
      some { w.setRequest i { w.requests i with
               phase := .answered (.ended o)
               releasedAt := if releases o then some w.stepNo
                 else none } with
             keys := w.keys.settle id o }
    else some (w.setPhase i (.answered (.ended o)))
  | _ => none

/-- The process of the request dies. -/
def crash (w : World β) (i : Nat) : Option (World β) :=
  match (w.requests i).phase with
  | .answered _ => none
  | _ => some (w.setPhase i .crashed)

/-- One step, before it is counted. -/
def step (w : World β) : Act β → Option (World β)
  | .tick ms => some { w with clock := w.clock + ms }
  | .arrive i sessionId header route requestHash =>
    w.arrive i sessionId header route requestHash
  | .insert i => w.insert i
  | .read i => w.read i
  | .clear i => w.clear i
  | .start i => w.start i
  | .finish i o => w.finish i o
  | .settle i applied => w.settle i applied
  | .crash i => w.crash i
  | .prune now =>
    if now ≤ w.clock then
      some { w with keys := w.keys.pruneExpired now }
    else none

/-- No request yet, no key taken. -/
def init (clock : Nat) : World β where
  clock := clock
  stepNo := 0
  keys := ⟨[], List.nodup_nil⟩
  nextId := 0
  requests := fun _ =>
    { sessionId := [], header := .absent, route := [], requestHash := []
      phase := .idle }

end World

/-- The store among its requests. -/
def service (β : Type) : Machine (World β) (Act β) where
  step a w := (w.step a).map fun w' => { w' with stepNo := w.stepNo + 1 }

end OpenWA.Idempotency

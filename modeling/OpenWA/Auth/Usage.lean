/-
The coalesced use counts of API keys
(`modules/auth/api-key-usage-tracker.service.ts`).

A call runs up to its write in one turn. The write is executed or refused
later, and the call goes on from the answer in a turn of its own. The time
bound of the shutdown flush ends the wait for it and not the flush, so it is
left out. No key is deleted: `forget` is not called and every row stays.
-/
import Mathlib.Logic.Function.Basic
import OpenWA.Lib.Reach
import OpenWA.Lib.Record
import OpenWA.Lib.Text

namespace OpenWA.Auth.Usage

open Function (update)

/-- What the tracker reads and writes of an entity. -/
structure ApiKey where
  id : Text
  lastUsedAt : Option Int
  usageCount : Nat

/-- The usage columns of a row. -/
structure Row where
  lastUsedAt : Option Int
  usageCount : Nat

/-- `STAT_FLUSH_INTERVAL_MS`. -/
def statFlushIntervalMs : Int := 60000

/-- A call with what it holds while it waits. -/
inductive Call
  /-- The update of a `record` is under way. -/
  | recording (apiKey : ApiKey) (pending : Nat)
  | recordRefused (apiKey : ApiKey) (pending : Nat)
  | recorded (apiKey : ApiKey)
  /-- The increment of a flush is under way; the rest of its batch follows. -/
  | flushing (keyId : Text) (delta : Nat) (batch : List (Text × Nat))
  | flushRefused (keyId : Text) (delta : Nat) (batch : List (Text × Nat))
  | incremented (batch : List (Text × Nat))
  | flushed

/-- The table, the pending counts and the flushes under way. -/
structure World where
  rows : Text → Row
  pending : Record Text Nat
  calls : List Call

/-- Nothing is pending. -/
def World.start (rows : Text → Row) : World := ⟨rows, .empty, []⟩

namespace World

variable (w : World)

/-- `this.pending.get(keyId) ?? 0`. -/
def pendingOf (keyId : Text) : Nat := (w.pending.get keyId).getD 0

/-- Call `i` is now here. -/
def setCall (i : Nat) (call : Call) : World := { w with calls := w.calls.set i call }

/-- The row of a key with more uses. -/
def addUsage (keyId : Text) (delta : Nat) : Row :=
  { w.rows keyId with usageCount := (w.rows keyId).usageCount + delta }

/-- A flush that was refused puts its uses back. -/
def giveBack (keyId : Text) (delta : Nat) : World :=
  { w with pending := w.pending.set keyId (w.pendingOf keyId + delta) }

/-- `record(apiKey)` up to its write. -/
def record (apiKey : ApiKey) (now : Int) : World :=
  let pending := w.pendingOf apiKey.id + 1
  let used := { apiKey with lastUsedAt := some now, usageCount := apiKey.usageCount + pending }
  let due := apiKey.lastUsedAt.all fun previous => statFlushIntervalMs ≤ now - previous
  if due then
    { w with
      pending := w.pending.delete apiKey.id
      calls := w.calls ++ [.recording used pending] }
  else
    { w with
      pending := w.pending.set apiKey.id pending
      calls := w.calls ++ [.recorded used] }

/-- The loop of `flushPending` up to its next write. -/
def next : List (Text × Nat) → Call
  | [] => .flushed
  | (keyId, delta) :: batch => if delta = 0 then next batch else .flushing keyId delta batch

/-- `flushOnShutdown()`. -/
def flushOnShutdown : World :=
  if w.pending.size = 0 then w
  else { w with pending := .empty, calls := w.calls ++ [next w.pending.entries] }

/-- The write of a call takes effect. -/
def execute (i : Nat) : Option World :=
  match w.calls[i]? with
  | some (.recording apiKey pending) =>
    let row := { w.addUsage apiKey.id pending with lastUsedAt := apiKey.lastUsedAt }
    some ({ w with rows := update w.rows apiKey.id row }.setCall i (.recorded apiKey))
  | some (.flushing keyId delta batch) =>
    some ({ w with rows := update w.rows keyId (w.addUsage keyId delta) }.setCall i
      (.incremented batch))
  | _ => none

/-- The write of a call fails. -/
def refuse (i : Nat) : Option World :=
  match w.calls[i]? with
  | some (.recording apiKey pending) => some (w.setCall i (.recordRefused apiKey pending))
  | some (.flushing keyId delta batch) => some (w.setCall i (.flushRefused keyId delta batch))
  | _ => none

/-- A call goes on from the answer to its write. -/
def resume (i : Nat) : Option World :=
  match w.calls[i]? with
  | some (.recordRefused apiKey pending) =>
    some ((w.giveBack apiKey.id pending).setCall i (.recorded apiKey))
  | some (.incremented batch) => some (w.setCall i (next batch))
  | some (.flushRefused keyId delta batch) =>
    some ((w.giveBack keyId delta).setCall i (next batch))
  | _ => none

end World

/-- What can happen to the tracker. -/
inductive Act
  | record (apiKey : ApiKey) (now : Int)
  | flushOnShutdown
  | execute (i : Nat)
  | refuse (i : Nat)
  | resume (i : Nat)

/-- One step of the tracker. -/
def World.step : Act → World → Option World
  | .record apiKey now, w => some (w.record apiKey now)
  | .flushOnShutdown, w => some w.flushOnShutdown
  | .execute i, w => w.execute i
  | .refuse i, w => w.refuse i
  | .resume i, w => w.resume i

/-- Every interleaving of uses and flushes. -/
def tracker : Machine World Act := ⟨World.step⟩

end OpenWA.Auth.Usage

/-
The reconciler's walk over the stranded deliveries
(`webhook-reconciler.service.ts`, `sweep`, and `findStale` of
`webhook-outbox.service.ts`): pages of unsettled rows in the order of their
creation, behind a cursor that passes what it cannot read.

# What a read meets

`Access` is what one call of `findStale` meets: the table, whether the read
of the page or of its ids fails, and what the read of each single row gives.
A stored payload that does not parse fails the read of every page it is in,
and its own. One that parses to `null` is read like any other: the row is
selected, since its column is not NULL, and dropped after the read. Two calls, in one sweep or in two, may meet different tables.

# What a sweep does with a row

What becomes of a row (`Visit`) is a parameter: the lookups, the budget and
the replay are those of `World`. The loop ends early when the process stops
or a lookup throws. A sweep called while another is under way, or after the
stop, does nothing and is not modelled.
-/
import Mathlib.Data.List.Sort
import OpenWA.Webhook.Outbox

namespace OpenWA.Webhook

/-- A row of `webhook_outbox_events`. -/
structure OutboxEvent (Id : Type*) extends OutboxRow where
  id : Id
  webhookId : Text
  sessionId : Text
  event : Text
  idempotencyKey : Text
  createdAt : Nat

/-- What a replay needs of a row. -/
structure ReplayableDelivery (Id : Type*) where
  id : Id
  webhookId : Text
  sessionId : Text
  event : Text
  idempotencyKey : Text
  payload : Text
  attempts : Nat
  deliveryId : Nat
  state : OutboxState

/-- What reading one row by its id gives. -/
inductive Fetched (Id : Type*)
  | row (r : OutboxEvent Id)
  | gone
  | unreadable

/-- The read failed. -/
def Fetched.fails {Id : Type*} : Fetched Id → Bool
  | .unreadable => true
  | _ => false

/-- The row, if there is one to read. -/
def Fetched.row? {Id : Type*} : Fetched Id → Option (OutboxEvent Id)
  | .row r => some r
  | _ => none

/-- The table and how its reads go. -/
structure Access (Id : Type*) where
  table : List (OutboxEvent Id)
  /-- `id` is the primary key. -/
  unique : (table.map OutboxEvent.id).Nodup
  olderThan : Nat
  pageFails : Bool
  idsFail : Bool
  fetch : Id → Fetched Id

-- ======== the pages

section Pages

variable {Id : Type*} [LinearOrder Id]

/-- `(createdAt, id) < (createdAt, id)`. -/
def OutboxEvent.before (r r' : OutboxEvent Id) : Bool :=
  r.createdAt < r'.createdAt || (r.createdAt = r'.createdAt && r.id < r'.id)

/-- `ORDER BY createdAt ASC, id ASC`. -/
def inOrder (rows : List (OutboxEvent Id)) : List (OutboxEvent Id) :=
  rows.insertionSort fun r r' => r'.before r = false

/-- What JSON takes as space. -/
def isJsonSpace (c : Char) : Bool := [0x9, 0xa, 0xd, 0x20].contains c.toNat

/-- `JSON.parse(text) === null`. -/
def parsesNull (text : Text) : Bool :=
  ((text.dropWhile isJsonSpace).reverse.dropWhile isJsonSpace).reverse = "null".toList

/-- The column has a text, which parses to `null`. -/
def OutboxEvent.holdsNull (r : OutboxEvent Id) : Bool := r.payload.any parsesNull

/-- The delivery, unless its payload was read as `null`. -/
def OutboxEvent.replayable (r : OutboxEvent Id) : Option (ReplayableDelivery Id) :=
  (r.payload.filter fun text => !parsesNull text).map fun payload =>
    { id := r.id, webhookId := r.webhookId, sessionId := r.sessionId, event := r.event
      idempotencyKey := r.idempotencyKey, payload := payload, attempts := r.attempts
      deliveryId := r.deliveryId, state := r.state }

namespace Access

variable (a : Access Id)

/-- The condition on the row itself. -/
def pending (r : OutboxEvent Id) : Bool := r.stale && r.createdAt < a.olderThan

/-- The rows behind the cursor; behind a row that is gone there is none. -/
def behind (afterId : Option Id) (r : OutboxEvent Id) : Bool :=
  match afterId with
  | none => true
  | some id =>
    match a.table.find? fun c => c.id = id with
    | none => false
    | some c => c.before r

/-- A page of stale rows behind the cursor. -/
def page (limit : Nat) (afterId : Option Id) : List (OutboxEvent Id) :=
  (inOrder (a.table.filter fun r => a.pending r && a.behind afterId r)).take limit

/-- `findStale`: the deliveries, and the id passed to `onScanned`; nothing if
the ids cannot be read either. -/
def findStale (limit : Nat) (afterId : Option Id) :
    Option (List (ReplayableDelivery Id) × Option Id) :=
  let page := a.page limit afterId
  if !(a.pageFails || page.any fun r => (a.fetch r.id).fails) then
    some (page.filterMap OutboxEvent.replayable, none)
  else if a.idsFail then none
  else
    let rows := page.filterMap fun r => (a.fetch r.id).row?
    some (rows.filterMap OutboxEvent.replayable, page.getLast?.map OutboxEvent.id)

end Access

-- ======== the sweeps

/-- What becomes of a row that is visited. -/
inductive Visit
  | skipped
  | failed
  | replayed
  /-- The process stops, or a lookup throws. -/
  | stopped

/-- The counts of a sweep. -/
structure WebhookReconcileStats where
  scanned : Nat
  replayed : Nat
  failed : Nat
  skipped : Nat

/-- What one sweep meets: its read behind the cursor, the one from the start
if there is nothing, and what becomes of the rows. -/
structure Pass (Id : Type*) where
  first : Access Id
  second : Access Id
  visit : ReplayableDelivery Id → Visit

/-- What a sweep comes to. -/
structure Swept (Id : Type*) where
  cursor : Option Id
  stats : WebhookReconcileStats
  visited : List (ReplayableDelivery Id)
  /-- No read failed and every row was visited. -/
  finished : Bool

/-- A sweep that ends here. -/
def Swept.cut (cursor : Option Id) : Swept Id where
  cursor := cursor
  stats := { scanned := 0, replayed := 0, failed := 0, skipped := 0 }
  visited := []
  finished := false

/-- The loop over the rows of a sweep. -/
def visitRows (visit : ReplayableDelivery Id → Visit) :
    List (ReplayableDelivery Id) → Swept Id → Swept Id
  | [], s => s
  | row :: rows, s =>
    let s' := { s with visited := s.visited ++ [row] }
    match visit row with
    | .stopped => { s with finished := false }
    | .skipped => visitRows visit rows
        { s' with stats := { s.stats with skipped := s.stats.skipped + 1 } }
    | .failed => visitRows visit rows
        { s' with stats := { s.stats with failed := s.stats.failed + 1 } }
    | .replayed => visitRows visit rows
        { s' with stats := { s.stats with replayed := s.stats.replayed + 1 } }

/-- The cursor passes the last id the page covered, readable or not. -/
def scan (visit : ReplayableDelivery Id → Visit)
    (found : List (ReplayableDelivery Id) × Option Id) : Swept Id :=
  visitRows visit found.1
    { cursor := found.2.or (found.1.getLast?.map ReplayableDelivery.id)
      stats := { scanned := found.1.length, replayed := 0, failed := 0, skipped := 0 }
      visited := []
      finished := true }

/-- `sweep`, from the cursor the last one left. -/
def sweep (batchSize : Nat) (cursor : Option Id) (pass : Pass Id) : Swept Id :=
  match pass.first.findStale batchSize cursor with
  | none => Swept.cut cursor
  | some found =>
    if found.1.isEmpty && found.2.isNone && cursor.isSome then
      match pass.second.findStale batchSize none with
      | none => Swept.cut none
      | some found => scan pass.visit found
    else scan pass.visit found

/-- One sweep after the other. -/
def sweeps (batchSize : Nat) : Option Id → List (Pass Id) → List (Swept Id)
  | _, [] => []
  | cursor, pass :: passes =>
    let swept := sweep batchSize cursor pass
    swept :: sweeps batchSize swept.cursor passes

end Pages

end OpenWA.Webhook

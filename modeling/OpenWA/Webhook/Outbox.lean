/-
The stored side of one webhook delivery: its outbox row, its failure
rows, its queue jobs, and the statements that write them.

# One delivery

A delivery is the pair of a webhook and an idempotency key. The outbox
has one row for it (unique index), the failure table any number of rows
of unsent attempts and at most one terminal row (partial unique index),
the queue one job for each delivery id under which it was added.

# Columns left out

Columns that the modelled code writes but never reads are left out: the
url, status code and delivery id of a failure row, the timestamps of
both tables. The retention window of a failure payload is a test on
`createdAt`; whether a row is inside it is a choice of the environment.
-/
import OpenWA.Lib.Text

namespace OpenWA.Webhook

-- ======== the outbox

/-- The state of an outbox row. -/
inductive OutboxState
  | pending
  | queued
  | dispatched
  | failed
deriving DecidableEq

/-- `In(['pending', 'queued'])`. -/
def OutboxState.unsettled : OutboxState → Bool
  | .pending | .queued => true
  | .dispatched | .failed => false

/-- What the outbox keeps of the delivery. -/
structure OutboxRow where
  state : OutboxState
  /-- The column: `none` is SQL's NULL, and a stored text may be any. -/
  payload : Option Text
  attempts : Nat
  deliveryId : Nat
deriving DecidableEq

namespace OutboxRow

/-- The row `open` inserts. -/
def opened (deliveryId : Nat) (payload : Text) : OutboxRow where
  state := .pending
  payload := some payload
  attempts := 0
  deliveryId := deliveryId

/-- `close`: from any state. -/
def close (state : OutboxState) (r : OutboxRow) : OutboxRow :=
  { r with state, payload := none }

/-- What `findStale` selects, age apart. -/
def stale (r : OutboxRow) : Bool := r.state.unsettled && r.payload.isSome

/-- The row is queued under a delivery id. -/
def markQueued (deliveryId : Nat) (r : OutboxRow) : OutboxRow :=
  if r.stale then { r with state := .queued, deliveryId } else r

/-- `countAttempt`, from the count the sweep read. -/
def countAttempt (attempts : Nat) (r : OutboxRow) : OutboxRow :=
  if r.state.unsettled then { r with attempts := attempts + 1 } else r

end OutboxRow

-- ======== the failure rows

/-- A row of the failure table. -/
structure Failure where
  attempts : Nat
  lastError : Text
  payload : Option Text
deriving DecidableEq

/-- `attempts: MoreThan(0)`. -/
def Failure.terminal (f : Failure) : Bool := 0 < f.attempts

/-- `WebhookDeliveryFailureInput`; it always has an idempotency key. -/
abbrev FailureInput := Failure

/-- The next statement of `recordWebhookDeliveryFailure`. -/
inductive Stage
  | counting
  /-- An unsent delivery is recorded again: its reason is refreshed. -/
  | touching
  | inserting
  /-- `refreshTerminal`. -/
  | refreshing
  | retaining
  /-- The attempts-0 rows go, now that a terminal row is there. -/
  | clearing (result : Bool)
deriving DecidableEq

/-- Where a statement leaves the recorder: at its next one, or with its
answer — a new row, an existing row, or `none` when nothing was stored. -/
inductive Recorded
  | next (stage : Stage)
  | answer (result : Option Bool)

/-- The row an insert adds: unsent deliveries keep no payload. -/
def FailureInput.row (input : FailureInput) : Failure :=
  { input with payload := if input.terminal then input.payload else none }

/-- The rows the recorder counts before it inserts. -/
def FailureInput.repeats (input : FailureInput) (fs : List Failure) : Bool :=
  if input.terminal then fs.any Failure.terminal else !fs.isEmpty

/-- The error of a row that is not terminal is replaced. -/
def Failure.touch (lastError : Text) (f : Failure) : Failure :=
  if f.terminal then f else { f with lastError }

/-- Another failure of a terminal row. -/
def Failure.refresh (input : FailureInput) (f : Failure) : Failure :=
  if f.terminal then
    { f with attempts := f.attempts + input.attempts
             lastError := input.lastError }
  else f

/-- A terminal row gets its payload if it has none. -/
def Failure.retain (payload : Option Text) (f : Failure) : Failure :=
  if f.terminal && f.payload.isNone then { f with payload } else f

/-- One statement of `recordWebhookDeliveryFailure`; `ok`: the database
took it, `inWindow`: the rows are young enough to keep a payload. -/
def record (input : FailureInput) (stage : Stage) (ok inWindow : Bool)
    (fs : List Failure) : List Failure × Recorded :=
  match stage with
  | .counting =>
    if !ok then (fs, .answer none)
    else if input.repeats fs then
      (fs, .next (if input.terminal then .refreshing else .touching))
    else (fs, .next .inserting)
  | .touching =>
    -- best effort: the answer does not depend on it
    (if ok then fs.map (Failure.touch input.lastError) else fs, .answer (some false))
  | .inserting =>
    if !ok then (fs, .answer none)
    else if input.terminal && fs.any Failure.terminal then
      (fs, .next .refreshing)
    else
      (fs ++ [input.row],
        if input.terminal then .next (.clearing true)
        else .answer (some true))
  | .refreshing =>
    if ok && fs.any Failure.terminal then
      (fs.map (Failure.refresh input),
        .next (if input.payload.isSome then .retaining
          else .clearing false))
    else (fs, .answer none)
  | .retaining =>
    if !ok then (fs, .answer none)
    else
      (if inWindow then fs.map (Failure.retain input.payload) else fs, .next (.clearing false))
  | .clearing result =>
    (if ok then fs.filter Failure.terminal else fs, .answer (some result))

-- ======== the queue

/-- The state of a queue job. -/
inductive JobState
  | waiting
  | active
  | completed
  | failed
deriving DecidableEq

/-- A job of the queue. -/
structure Job where
  data : Text
  attemptsMade : Nat
  maxRetries : Nat
  state : JobState
deriving DecidableEq

/-- `isFinalAttempt`. -/
def Job.isFinalAttempt (job : Job) : Bool := job.maxRetries ≤ job.attemptsMade + 1

end OpenWA.Webhook

/-
One webhook delivery among its owners: dispatches, the queue and its
workers, the reconciler's replays, operator redrives — each of which may
die at any await, and each of whose writes may fail.

# The parties

A party is one pass of one of them, wherever it runs: the handling of a
dispatch, of one row of a sweep, of one row of a redrive, of one
activation of a job. `Phase` is its next await. A crash kills the
parties of a process (`die`, one at a time); the tables and the queue
survive it.

# What the environment decides

Whether a statement succeeds (`ok`), what a lookup of the webhook finds,
what the hooks and the receiver answer, and which row a dispatch limiter
sheds are parameters of the steps. A sweep may pass over a row that a
dispatch of its node still owns; since it may always leave a row for the
next pass, that check is not modelled. Nor is the gate that sends a job
of a failing webhook back to wait: it changes nothing stored.

# The history

`opened` (the row was inserted), `delivered` (the receiver answered a
POST with success), `cancelled` (by a plugin, or by the operator who
deleted the session) and `undeliverable` (a lookup found the webhook
gone, inactive or not subscribed) are bookkeeping. No step reads them.
-/
import Mathlib.Logic.Function.Basic
import OpenWA.Lib.Reach
import OpenWA.Webhook.Outbox

namespace OpenWA.Webhook

/-- The settings that matter. -/
structure Config where
  queueEnabled : Bool
  keepsFailurePayload : Bool
  /-- The replay budget of a row. -/
  maxAttempts : Nat

/-- The event data a terminal failure row keeps. -/
def Config.failurePayload (cfg : Config) (data : Text) : Option Text :=
  if cfg.keepsFailurePayload then some data else none

/-- Who delivers. -/
inductive Owner
  | dispatch
  | replay
  | redrive
deriving DecidableEq

/-- One call of `deliverOne`, under the delivery id of this attempt. -/
structure Task where
  owner : Owner
  deliveryId : Nat
  data : Text
  oneDirectAttempt : Bool := false
deriving DecidableEq

/-- `singleAttempt` of the direct path. -/
def Task.single (t : Task) : Bool := t.owner = .redrive || t.oneDirectAttempt

/-- What a delivery comes to. -/
inductive WebhookDeliveryOutcome
  | delivered
  | enqueued
  | cancelled
  | failed
  | unrecorded
deriving DecidableEq

/-- Who waits for a failure record. -/
inductive After
  | outcome (t : Task)
  /-- A dispatch the limiter refused. -/
  | shed
  /-- A row whose replay budget is spent. -/
  | exhausted
  | job (j : Nat)
  | stalled
deriving DecidableEq

/-- What follows a close. -/
inductive Then
  | done
  | complete (j : Nat)
  | clear (j : Nat)
  | failJob (j : Nat)
deriving DecidableEq

/-- The next check of the sweep on a row it read. -/
inductive Check
  | lookup
  | jobPending
  | jobCompleted
  | budget
  | retain
  | reason
  | count
deriving DecidableEq

/-- How far a party has got. -/
inductive Phase
  | idle
  | opening (t : Task)
  /-- In front of the dispatch limiter. -/
  | limited (t : Task)
  | preflight (t : Task)
  | adding (t : Task) (retries : Nat)
  | marking (t : Task)
  | reading (t : Task) (attempt retries : Nat)
  | posting (t : Task) (attempt retries : Nat)
  | clearing (t : Task)
  | recording (after : After) (input : FailureInput) (stage : Stage)
  | closing (state : OutboxState) (next : Then)
  | sweeping (copy : OutboxRow) (data : Text) (check : Check)
  | bumping
  | jobReading (j : Nat) (job : Job)
  | jobPosting (j : Nat) (job : Job)
  | jobClearing (j : Nat)
  | stallReading (job : Job)

/-- One outbox row, its failures and jobs, and those who work on it. -/
structure World where
  row : Option OutboxRow
  failures : List Failure
  jobs : Nat → Option Job
  nextId : Nat
  parties : Nat → Phase
  opened : Bool
  delivered : Bool
  cancelled : Bool
  undeliverable : Bool

/-- What a lookup of the webhook row finds. -/
inductive Lookup
  | deliverable (retryCount : Nat)
  | undeliverable
  | unreadable (error : Text)

/-- What the `webhook:before` hooks and the size gate leave. -/
inductive Preflight
  | ready (retryCount : Nat)
  | cancelled
  | refused (error : Text)

/-- How the receiver answers. -/
inductive Answer
  | success
  | failure (error : Text)

/-- The atomic steps; `k` is the party. -/
inductive Act
  | dispatch (k : Nat) (data : Text)
  | openRow (k : Nat) (ok : Bool)
  | shed (k : Nat) (error : Text)
  | allow (k : Nat)
  /-- A delivery to a failing webhook looks its row up again. -/
  | gate (k : Nat) (found : Lookup)
  | runHooks (k : Nat) (result : Preflight)
  /-- The add stored the job; the producer was told so. -/
  | addJob (k : Nat) (stored told : Bool)
  | mark (k : Nat) (ok : Bool)
  | lookup (k : Nat) (found : Lookup)
  | post (k : Nat) (answer : Answer)
  | clear (k : Nat) (ok : Bool)
  | record (k : Nat) (ok inWindow : Bool)
  | close (k : Nat) (ok : Bool)
  | sweep (k : Nat)
  | sweepLookup (k : Nat) (found : Lookup)
  | sweepJobPending (k : Nat) (ok : Bool)
  | sweepJobCompleted (k : Nat) (ok : Bool)
  | sweepBudget (k : Nat) (ok : Bool)
  | sweepRetain (k : Nat) (ok inWindow : Bool)
  | sweepReason (k : Nat) (ok : Bool)
  | sweepCount (k : Nat) (ok oneDirectAttempt : Bool)
  | redrive (k : Nat) (data : Text)
  | bump (k : Nat) (ok : Bool)
  | take (k j : Nat)
  | jobLookup (k : Nat) (found : Lookup)
  | jobPost (k : Nat) (answer : Answer)
  | jobClear (k : Nat) (ok : Bool)
  | stallBack (j : Nat)
  | stallFail (k j : Nat)
  | stallLookup (k : Nat) (found : Lookup)
  | die (k : Nat)
  | prune
  | removeJob (j : Nat)
  | deleteSession

namespace World

/-- Party `k` moves on. -/
def setPhase (w : World) (k : Nat) (p : Phase) : World :=
  { w with parties := Function.update w.parties k p }

/-- A new delivery id is used up. -/
def mint (w : World) : World := { w with nextId := w.nextId + 1 }

/-- A job's state, if the queue still has it. -/
def setJob (w : World) (j : Nat) (state : JobState) : World :=
  { w with
    jobs := Function.update w.jobs j ((w.jobs j).map fun job => { job with state }) }

/-- What the caller of `deliverOne` does with its outcome. -/
def finish (t : Task) (outcome : WebhookDeliveryOutcome) : Phase :=
  match t.owner, outcome with
  | .dispatch, .unrecorded | .dispatch, .enqueued => .idle
  | .dispatch, _ => .closing .dispatched .done
  | .replay, .delivered | .replay, .cancelled => .closing .dispatched .done
  | .replay, _ => .idle
  | .redrive, .delivered => .closing .dispatched .done
  | .redrive, .enqueued => .idle
  | .redrive, _ => .bumping

-- ======== deliverOne

/-- An event is dispatched. -/
def dispatch (w : World) (k : Nat) (data : Text) : Option World :=
  match w.parties k with
  | .idle =>
    let t : Task := { owner := .dispatch, deliveryId := w.nextId, data }
    some (w.mint.setPhase k (.opening t))
  | _ => none

/-- `open`: a conflict keeps the row that is there. -/
def openRow (w : World) (k : Nat) (ok : Bool) : Option World :=
  match w.parties k with
  | .opening t =>
    let w' := w.setPhase k (.limited t)
    if ok && w.row.isNone then
      some { w' with row := some (.opened t.deliveryId t.data)
                     opened := true }
    else some w'
  | _ => none

/-- An attempts-0 failure record. -/
def undelivered (error : Text) : FailureInput where
  attempts := 0
  lastError := error
  payload := none

/-- The limiter is full, or was closed by shutdown, also while a retry
waited to take its slot back. -/
def shed (w : World) (k : Nat) (error : Text) : Option World :=
  let p := Phase.recording .shed (undelivered error) .counting
  match w.parties k with
  | .limited _ => some (w.setPhase k p)
  | .reading t attempt _ =>
    if t.owner = .dispatch ∧ 1 < attempt then some (w.setPhase k p)
    else none
  | _ => none

/-- The limiter lets the dispatch through. -/
def allow (w : World) (k : Nat) : Option World :=
  match w.parties k with
  | .limited t => some (w.setPhase k (.preflight t))
  | _ => none

/-- A failed lookup delivers with the row of the dispatch. -/
def gate (w : World) (k : Nat) (found : Lookup) : Option World :=
  match w.parties k with
  | .limited t =>
    match found with
    | .undeliverable =>
      some { w.setPhase k (.closing .dispatched .done) with
        undeliverable := true }
    | .deliverable _ | .unreadable _ => some (w.setPhase k (.preflight t))
  | _ => none

/-- `preflightDelivery`, and the choice of the path. -/
def runHooks (cfg : Config) (w : World) (k : Nat) (result : Preflight) : Option World :=
  match w.parties k with
  | .preflight t =>
    match result with
    | .cancelled =>
      some { w.setPhase k (finish t .cancelled) with cancelled := true }
    | .refused error =>
      some (w.setPhase k (.recording (.outcome t) (undelivered error) .counting))
    | .ready retries =>
      if t.owner ≠ .redrive ∧ cfg.queueEnabled then
        some (w.setPhase k (.adding t retries))
      else some (w.setPhase k (.reading t 1 retries))
  | _ => none

/-- `enqueueWithFallback`: an add that is not confirmed falls back to the
direct path, whether or not the queue has the job. -/
def addJob (w : World) (k : Nat) (stored told : Bool) : Option World :=
  match w.parties k with
  | .adding t retries =>
    let job : Job :=
      { data := t.data, attemptsMade := 0, maxRetries := retries
        state := .waiting }
    let w' := if stored then
        { w with jobs := Function.update w.jobs t.deliveryId (some job) }
      else w
    let p := if stored && told then Phase.marking t
      else .reading t 1 retries
    some (w'.setPhase k p)
  | _ => none

/-- The row of an enqueued job is marked. -/
def mark (w : World) (k : Nat) (ok : Bool) : Option World :=
  match w.parties k with
  | .marking t =>
    let w' := w.setPhase k (finish t .enqueued)
    if ok then
      some { w' with row := w.row.map (OutboxRow.markQueued t.deliveryId) }
    else some w'
  | _ => none

/-- The direct path has failed for the last time. -/
def terminalFailure (cfg : Config) (t : Task) (attempt : Nat) (error : Text) : Phase :=
  .recording (.outcome t)
    { attempts := attempt, lastError := error
      payload := cfg.failurePayload t.data } .counting

/-- A failed attempt of `deliverWebhook`: back off, or give up. -/
def retry (cfg : Config) (t : Task) (attempt retries : Nat) (error : Text) : Phase :=
  if attempt < (if t.single then 1 else retries) then
    .reading t (attempt + 1) retries
  else terminalFailure cfg t attempt error

/-- `deliverWebhook` reads the webhook before every attempt. -/
def lookup (cfg : Config) (w : World) (k : Nat) (found : Lookup) : Option World :=
  match w.parties k with
  | .reading t attempt retries =>
    match found with
    | .deliverable retryCount =>
      some (w.setPhase k (.posting t attempt retryCount))
    | .undeliverable =>
      some { w.setPhase k (finish t .cancelled) with
        undeliverable := true }
    | .unreadable error =>
      some (w.setPhase k (retry cfg t attempt retries error))
  | _ => none

/-- The direct attempt is answered. -/
def post (cfg : Config) (w : World) (k : Nat) (answer : Answer) : Option World :=
  match w.parties k with
  | .posting t attempt retries =>
    match answer with
    | .success =>
      some { w.setPhase k (.clearing t) with delivered := true }
    | .failure error =>
      some (w.setPhase k (retry cfg t attempt retries error))
  | _ => none

/-- `clearDeliveryFailureRows` after a success. -/
def clear (w : World) (k : Nat) (ok : Bool) : Option World :=
  match w.parties k with
  | .clearing t =>
    some { w.setPhase k (finish t .delivered) with
      failures := if ok then [] else w.failures }
  | _ => none

-- ======== records, closes

/-- Who waits for the record goes on: a delivery is retired only when a
row holds it. -/
def afterRecord (after : After) (result : Option Bool) : Phase :=
  match after, result with
  | .outcome t, some _ => finish t .failed
  | .outcome t, none => finish t .unrecorded
  | .shed, _ => .idle
  | .exhausted, some _ => .closing .failed .done
  | .exhausted, none => .idle
  | .job j, some _ => .closing .dispatched (.failJob j)
  | .job _, none => .idle
  | .stalled, some _ => .closing .dispatched .done
  | .stalled, none => .idle

/-- A job whose final failure could not be recorded fails all the same. -/
def failUnrecorded (w : World) (after : After) (result : Option Bool) :
    World :=
  match after, result with
  | .job j, none => w.setJob j .failed
  | _, _ => w

/-- A failure is recorded, one statement at a time. -/
def record (w : World) (k : Nat) (ok inWindow : Bool) : Option World :=
  match w.parties k with
  | .recording after input stage =>
    let recorded := Webhook.record input stage ok inWindow w.failures
    let w' := { w with failures := recorded.1 }
    match recorded.2 with
    | .next stage => some (w'.setPhase k (.recording after input stage))
    | .answer result =>
      some ((w'.failUnrecorded after result).setPhase k (afterRecord after result))
  | _ => none

/-- What follows the close of a row. -/
def afterClose (w : World) (k : Nat) (next : Then) : World :=
  match next with
  | .done => w.setPhase k .idle
  | .complete j => (w.setJob j .completed).setPhase k .idle
  | .clear j => w.setPhase k (.jobClearing j)
  | .failJob j => (w.setJob j .failed).setPhase k .idle

/-- The row is closed. -/
def close (w : World) (k : Nat) (ok : Bool) : Option World :=
  match w.parties k with
  | .closing state next =>
    let w' := w.afterClose k next
    if ok then
      some { w' with row := w.row.map (OutboxRow.close state) }
    else some w'
  | _ => none

-- ======== the reconciler

/-- The row as `findStale` reads it. -/
def findStale (w : World) : Option OutboxRow := w.row.filter OutboxRow.stale

/-- The sweep reads a stale row. -/
def sweep (w : World) (k : Nat) : Option World :=
  match w.parties k, w.findStale with
  | .idle, some copy =>
    some (w.setPhase k (.sweeping copy (copy.payload.getD []) .lookup))
  | _, _ => none

/-- The sweep looks the webhook up. -/
def sweepLookup (w : World) (k : Nat) (found : Lookup) : Option World :=
  match w.parties k with
  | .sweeping copy data .lookup =>
    match found with
    | .deliverable _ =>
      some (w.setPhase k (.sweeping copy data .jobPending))
    | .undeliverable =>
      some { w.setPhase k (.closing .failed .done) with
        undeliverable := true }
    | .unreadable _ => some (w.setPhase k .idle)
  | _ => none

/-- `isQueueJobPending`: unreadable counts as pending. -/
def isQueueJobPending (w : World) (deliveryId : Nat) (ok : Bool) : Bool :=
  !ok || (w.jobs deliveryId).any fun job =>
    job.state = .waiting || job.state = .active

/-- The sweep asks whether the row's job is still to run. -/
def sweepJobPending (w : World) (k : Nat) (ok : Bool) : Option World :=
  match w.parties k with
  | .sweeping copy data .jobPending =>
    if w.isQueueJobPending copy.deliveryId ok then
      some (w.setPhase k .idle)
    else some (w.setPhase k (.sweeping copy data .jobCompleted))
  | _ => none

/-- `hasQueueJobCompleted(deliveryId)`. -/
def hasQueueJobCompleted (w : World) (deliveryId : Nat) (ok : Bool) :
    Bool :=
  ok && (w.jobs deliveryId).any fun job => job.state = .completed

/-- The sweep asks whether the row's job has completed. -/
def sweepJobCompleted (w : World) (k : Nat) (ok : Bool) : Option World :=
  match w.parties k with
  | .sweeping copy data .jobCompleted =>
    if w.hasQueueJobCompleted copy.deliveryId ok then
      some (w.setPhase k (.closing .dispatched .done))
    else some (w.setPhase k (.sweeping copy data .budget))
  | _ => none

/-- The budget test, and the first statement of
`recordReplayExhaustion`; an exception there ends the sweep. -/
def sweepBudget (cfg : Config) (w : World) (k : Nat) (ok : Bool) : Option World :=
  match w.parties k with
  | .sweeping copy data .budget =>
    if cfg.maxAttempts ≤ copy.attempts then
      if !ok then some (w.setPhase k .idle)
      else if w.failures.any Failure.terminal then
        some (w.setPhase k (if cfg.keepsFailurePayload then
          .sweeping copy data .retain else .closing .failed .done))
      else some (w.setPhase k (.sweeping copy data .reason))
    else some (w.setPhase k (.sweeping copy data .count))
  | _ => none

/-- The terminal row takes the payload before the outbox lets it go. -/
def sweepRetain (w : World) (k : Nat) (ok inWindow : Bool) : Option World :=
  match w.parties k with
  | .sweeping copy _ .retain =>
    if ok then
      let failures := if inWindow then
          w.failures.map (Failure.retain copy.payload) else w.failures
      some { w.setPhase k (.closing .failed .done) with failures }
    else some (w.setPhase k .idle)
  | _ => none

/-- The error of a row whose replay budget is spent. -/
def exhaustionText (unsent : Option Failure) : Text :=
  match unsent with
  | some f =>
    if f.lastError = [] then "Webhook replay budget exhausted".toList
    else "Webhook replay budget exhausted; last error: ".toList ++ f.lastError
  | none => "Webhook replay budget exhausted".toList

/-- The reason of an unsent delivery stays on its terminal row. -/
def sweepReason (cfg : Config) (w : World) (k : Nat) (ok : Bool) : Option World :=
  match w.parties k with
  | .sweeping copy data .reason =>
    let unsent := w.failures.find? fun f => !f.terminal
    let input : FailureInput :=
      { attempts := max 1 copy.attempts
        lastError := exhaustionText unsent
        payload := cfg.failurePayload data }
    if ok then
      some (w.setPhase k (.recording .exhausted input .counting))
    else some (w.setPhase k .idle)
  | _ => none

/-- `countAttempt`; a failed write does not stop the replay. -/
def sweepCount (w : World) (k : Nat) (ok oneDirectAttempt : Bool) : Option World :=
  match w.parties k with
  | .sweeping copy data .count =>
    let t : Task :=
      { owner := .replay, deliveryId := w.nextId, data, oneDirectAttempt }
    if !ok then some (w.mint.setPhase k (.preflight t))
    else if w.row.any fun r => r.state.unsettled then
      some { w.mint.setPhase k (.preflight t) with
        row := w.row.map (OutboxRow.countAttempt copy.attempts) }
    else some (w.setPhase k .idle)
  | _ => none

-- ======== the redrive

/-- `redriveRow` has read the payload of a terminal row. -/
def redrive (w : World) (k : Nat) (data : Text) : Option World :=
  match w.parties k with
  | .idle =>
    if w.failures.any fun f => f.terminal && f.payload = some data then
      let t : Task := { owner := .redrive, deliveryId := w.nextId, data }
      some (w.mint.setPhase k (.preflight t))
    else none
  | _ => none

/-- `bumpAttempts`. -/
def bump (w : World) (k : Nat) (ok : Bool) : Option World :=
  match w.parties k with
  | .bumping =>
    let f := fun f : Failure =>
      if f.terminal then { f with attempts := f.attempts + 1 } else f
    some { w.setPhase k .idle with
      failures := if ok then w.failures.map f else w.failures }
  | _ => none

-- ======== the workers

/-- A worker takes a job. -/
def take (w : World) (k j : Nat) : Option World :=
  match w.parties k, w.jobs j with
  | .idle, some job =>
    if job.state = .waiting then
      some ((w.setJob j .active).setPhase k (.jobReading j job))
    else none
  | _, _ => none

/-- An attempt of a job failed: back to the queue, or the last one. -/
def failAttempt (cfg : Config) (w : World) (k j : Nat) (job : Job) (error : Text) : World :=
  if job.isFinalAttempt then
    w.setPhase k (.recording (.job j)
      { attempts := job.attemptsMade + 1, lastError := error
        payload := cfg.failurePayload job.data } .counting)
  else
    let again := { job with attemptsMade := job.attemptsMade + 1
                            state := .waiting }
    { w.setPhase k .idle with
      jobs := Function.update w.jobs j ((w.jobs j).map fun _ => again) }

/-- The worker looks the webhook up. -/
def jobLookup (cfg : Config) (w : World) (k : Nat) (found : Lookup) : Option World :=
  match w.parties k with
  | .jobReading j job =>
    match found with
    | .deliverable _ => some (w.setPhase k (.jobPosting j job))
    | .undeliverable =>
      some { w.setPhase k (.closing .dispatched (.complete j)) with
        undeliverable := true }
    | .unreadable error => some (w.failAttempt cfg k j job error)
  | _ => none

/-- The worker's attempt is answered. -/
def jobPost (cfg : Config) (w : World) (k : Nat) (answer : Answer) : Option World :=
  match w.parties k with
  | .jobPosting j job =>
    match answer with
    | .success =>
      some { w.setPhase k (.closing .dispatched (.clear j)) with
        delivered := true }
    | .failure error => some (w.failAttempt cfg k j job error)
  | _ => none

/-- The worker clears the failures of a delivered job. -/
def jobClear (w : World) (k : Nat) (ok : Bool) : Option World :=
  match w.parties k with
  | .jobClearing j =>
    some { (w.setJob j .completed).setPhase k .idle with
      failures := if ok then [] else w.failures }
  | _ => none

/-- A job whose worker lost its lock goes back to the queue. -/
def stallBack (w : World) (j : Nat) : Option World :=
  if (w.jobs j).any fun job => job.state = .active then
    some (w.setJob j .waiting)
  else none

/-- The second stall: the job fails, `onWorkerFailed` runs. -/
def stallFail (w : World) (k j : Nat) : Option World :=
  match w.parties k, w.jobs j with
  | .idle, some job =>
    if job.state = .active then
      some ((w.setJob j .failed).setPhase k (.stallReading job))
    else none
  | _, _ => none

/-- The queue's error for a stalled job. -/
def stallMessage : Text := "job stalled more than allowable limit".toList

/-- A stalled job's webhook is looked up. -/
def stallLookup (cfg : Config) (w : World) (k : Nat) (found : Lookup) : Option World :=
  match w.parties k with
  | .stallReading job =>
    match found with
    | .undeliverable =>
      some { w.setPhase k .idle with undeliverable := true }
    | .deliverable _ | .unreadable _ =>
      let input : FailureInput :=
        { attempts := max 1 job.attemptsMade
          lastError := stallMessage
          payload := cfg.failurePayload job.data }
      some (w.setPhase k (.recording .stalled input .counting))
  | _ => none

/-- One step. -/
def step (cfg : Config) (w : World) : Act → Option World
  | .dispatch k data => w.dispatch k data
  | .openRow k ok => w.openRow k ok
  | .shed k error => w.shed k error
  | .allow k => w.allow k
  | .gate k found => w.gate k found
  | .runHooks k result => w.runHooks cfg k result
  | .addJob k stored told => w.addJob k stored told
  | .mark k ok => w.mark k ok
  | .lookup k found => w.lookup cfg k found
  | .post k answer => w.post cfg k answer
  | .clear k ok => w.clear k ok
  | .record k ok inWindow => w.record k ok inWindow
  | .close k ok => w.close k ok
  | .sweep k => w.sweep k
  | .sweepLookup k found => w.sweepLookup k found
  | .sweepJobPending k ok => w.sweepJobPending k ok
  | .sweepJobCompleted k ok => w.sweepJobCompleted k ok
  | .sweepBudget k ok => w.sweepBudget cfg k ok
  | .sweepRetain k ok inWindow => w.sweepRetain k ok inWindow
  | .sweepReason k ok => w.sweepReason cfg k ok
  | .sweepCount k ok oneDirectAttempt => w.sweepCount k ok oneDirectAttempt
  | .redrive k data => w.redrive k data
  | .bump k ok => w.bump k ok
  | .take k j => w.take k j
  | .jobLookup k found => w.jobLookup cfg k found
  | .jobPost k answer => w.jobPost cfg k answer
  | .jobClear k ok => w.jobClear k ok
  | .stallBack j => w.stallBack j
  | .stallFail k j => w.stallFail k j
  | .stallLookup k found => w.stallLookup cfg k found
  | .die k => some (w.setPhase k .idle)
  -- `pruneSettled` removes settled rows only
  | .prune =>
    if w.row.any fun r => r.state.unsettled then none
    else some { w with row := none }
  | .removeJob j =>
    some { w with jobs := Function.update w.jobs j none }
  | .deleteSession => some { w with row := none, cancelled := true }

/-- Nothing has been dispatched yet. -/
def init : World where
  row := none
  failures := []
  jobs := fun _ => none
  nextId := 0
  parties := fun _ => .idle
  opened := false
  delivered := false
  cancelled := false
  undeliverable := false

end World

/-- The delivery among its owners. -/
def system (cfg : Config) : Machine World Act where
  step a w := w.step cfg a

end OpenWA.Webhook

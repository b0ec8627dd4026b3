/-
Bulk batches (`bulk-message.service.ts`): the row, the guarded statements
that write it, and the decisions the run takes between them.

# The row

`message_batches` as its writers see it: the status, the counters, the
results and the resume index. The stored messages change only by losing
their media payloads, and the dates are read by nobody here; both are
left out. What the items are is fixed for the life of a batch (`Job`).

# Guards

Every writer guards its UPDATE on the stored status. `MessageBatch.write`
is such a statement: the row afterwards, and whether it was affected.
-/
import OpenWA.Lib.Text

namespace OpenWA.Bulk

-- ======== the row

/-- The status of a batch. -/
inductive BatchStatus
  | pending
  | processing
  | completed
  | cancelled
  | failed
deriving DecidableEq

/-- `In([PENDING, PROCESSING])`. -/
def BatchStatus.unfinished : BatchStatus → Bool
  | .pending | .processing => true
  | _ => false

/-- The status of one item. -/
inductive BatchMessageStatus
  | sent
  | failed
deriving DecidableEq

/-- The error of an item. -/
structure BatchError where
  code : Text
  message : Text
deriving DecidableEq

/-- The result of an item. -/
structure BatchMessageResult where
  chatId : Text
  status : BatchMessageStatus
  messageId : Option Text := none
  error : Option BatchError := none
deriving DecidableEq

/-- The counts of a batch. -/
structure BatchProgress where
  total : Nat
  sent : Nat
  failed : Nat
  pending : Nat
  cancelled : Nat
deriving DecidableEq

/-- The row of a batch. -/
structure MessageBatch where
  status : BatchStatus
  progress : BatchProgress
  results : List BatchMessageResult
  currentIndex : Nat
deriving DecidableEq

/-- What is to be sent: the recipients of the items, in order. -/
structure Job where
  messages : List Text
  stopOnError : Bool

/-- The row `createBatch` saves. -/
def Job.newBatch (job : Job) : MessageBatch where
  status := .pending
  progress :=
    { total := job.messages.length, sent := 0, failed := 0
      pending := job.messages.length, cancelled := 0 }
  results := []
  currentIndex := 0

/-- A guarded UPDATE: the row after it, and whether it was affected. -/
def MessageBatch.write (row : MessageBatch) (guard : BatchStatus → Bool)
    (set : MessageBatch → MessageBatch) : MessageBatch × Bool :=
  if guard row.status then (set row, true) else (row, false)

-- ======== the counters

/-- The counters reconciled for a CANCELLED row. -/
def BatchProgress.reconciled (p : BatchProgress) : BatchProgress :=
  { p with cancelled := p.pending, pending := 0 }

/-- `progress.sent++; progress.pending--`. -/
def BatchProgress.countSent (p : BatchProgress) : BatchProgress :=
  { p with sent := p.sent + 1, pending := p.pending - 1 }

/-- `progress.failed++; progress.pending--`. -/
def BatchProgress.countFailed (p : BatchProgress) : BatchProgress :=
  { p with failed := p.failed + 1, pending := p.pending - 1 }

/-- `resolveFinalBatchStatus`. -/
def resolveFinalBatchStatus (cancelled stoppedOnError : Bool)
    (progress : BatchProgress) : BatchStatus :=
  if cancelled then .cancelled
  else if stoppedOnError then .failed
  else if progress.failed > 0 ∧ progress.sent = 0 then .failed
  else .completed

/-- What an item failed with. -/
inductive SendError
  | ssrfBlocked
  | pacingLimited (message : Text)
  | other (message : Text)
deriving DecidableEq

/-- `sanitizeBatchError`. -/
def sanitizeBatchError : SendError → BatchError
  | .ssrfBlocked =>
    { code := "SEND_BLOCKED".toList
      message := "Destination address is not allowed".toList }
  | .pacingLimited message =>
    { code := "SEND_PACING_LIMITED".toList, message }
  | .other message => { code := "SEND_FAILED".toList, message }

/-- The recipient of item `i`. -/
def Job.chatId (job : Job) (i : Nat) : Text := job.messages.getD i []

/-- The result of an item the engine accepted. -/
def Job.sentResult (job : Job) (i : Nat) (id : Text) : BatchMessageResult where
  chatId := job.chatId i
  status := .sent
  messageId := some id

/-- The result of an item that failed. -/
def Job.failedResult (job : Job) (i : Nat) (e : SendError) : BatchMessageResult where
  chatId := job.chatId i
  status := .failed
  error := some (sanitizeBatchError e)

-- ======== the statements

/-- `markBatchProcessing`. -/
def markBatchProcessing (row : MessageBatch) : MessageBatch × Bool :=
  row.write (· = .pending) fun r => { r with status := .processing }

/-- `failBatchWithoutEngine`. -/
def failBatchWithoutEngine (row : MessageBatch) : MessageBatch × Bool :=
  row.write (· ≠ .cancelled) fun r => { r with status := .failed }

/-- `failOrphanedBatch`, as the reaps, the shutdown and the pickup call
it: without the run's state. -/
def failOrphanedBatch (row : MessageBatch) : MessageBatch × Bool :=
  row.write (·.unfinished) fun r => { r with status := .failed }

/-- The UPDATE of `cancelBatch`, from the copy it read. -/
def cancelWrite (row copy : MessageBatch) : MessageBatch × Bool :=
  row.write (·.unfinished) fun r =>
    { r with status := .cancelled, progress := copy.progress.reconciled }

/-- The progress write after an item. -/
def saveProgress (row batch : MessageBatch) : MessageBatch × Bool :=
  row.write (· = .processing) fun r =>
    { r with progress := batch.progress, results := batch.results
             currentIndex := batch.currentIndex }

/-- `keepResultsOnEndedRow`. -/
def keepResultsOnEndedRow (row batch : MessageBatch)
    (status : BatchStatus) (progress : BatchProgress) :
    MessageBatch × Bool :=
  row.write (· = status) fun r =>
    { r with progress, results := batch.results
             currentIndex := batch.currentIndex }

/-- The final UPDATE of `finalizeBatch`: a CANCELLED status may replace a
cancel's own, any other only PROCESSING. -/
def finalWrite (row batch : MessageBatch) (status : BatchStatus)
    (progress : BatchProgress) : MessageBatch × Bool :=
  row.write
    (fun s => s = .processing || (status = .cancelled && s = .cancelled))
    fun r => { r with status, progress, results := batch.results
                      currentIndex := batch.currentIndex }

end OpenWA.Bulk

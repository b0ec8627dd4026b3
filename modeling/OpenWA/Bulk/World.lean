/-
One batch among its writers: its run, cancels from any process, the reaps
of a takeover or a boot, and the shutdown of the process that runs it.

# The run

`Phase` is where the run stands between two awaits. It holds the copy of
the row it read at pickup (`batch`), which it updates as it goes, and the
flags of `BatchExecutionState`. Its in-memory status is written but not
read before the final decision, and is not kept here.

`marker` is the entry of `processingBatches` in the run's process: `some
true` while the batch is wanted, `some false` once a cancel or the
shutdown has signalled, `none` when the run is over. Only calls in that
process see it.

# The history

`log` records what the engine was asked and how each item ended, and
`startedFrom` the stored status the start write found. Nothing reads
them.
-/
import Mathlib.Logic.Function.Basic
import OpenWA.Lib.Reach
import OpenWA.Bulk.Batch

namespace OpenWA.Bulk

/-- `BatchExecutionState`; its `results` are the copy's. -/
structure BatchExecutionState where
  stoppedOnError : Bool := false
  cancelledByDb : Bool := false
  endedElsewhere : Bool := false
deriving DecidableEq

/-- Where the run stands between two awaits. -/
inductive Phase
  | pickup
  | failingPickup
  | starting (batch : MessageBatch)
  | failingWithoutEngine
  | item (batch : MessageBatch) (st : BatchExecutionState) (i : Nat)
  | preparing (batch : MessageBatch) (st : BatchExecutionState) (i : Nat)
  | asking (batch : MessageBatch) (st : BatchExecutionState) (i : Nat)
  /-- The engine accepted; the message row is being written. -/
  | persisting (batch : MessageBatch) (st : BatchExecutionState) (i : Nat)
      (result : BatchMessageResult)
  /-- The item failed; `message:failed` is being fired. -/
  | reporting (batch : MessageBatch) (st : BatchExecutionState) (i : Nat)
      (result : BatchMessageResult)
  | saving (batch : MessageBatch) (st : BatchExecutionState) (i : Nat)
  | noting (batch : MessageBatch) (st : BatchExecutionState)
  | rereading (batch : MessageBatch) (st : BatchExecutionState)
  | finalizing (batch : MessageBatch) (status : BatchStatus) (progress : BatchProgress)
  | judging (batch : MessageBatch)
  | keeping (batch : MessageBatch) (status : BatchStatus) (progress : BatchProgress)
  | ended
deriving DecidableEq

/-- Where a `cancelBatch` call stands. -/
inductive CancelPhase
  | idle
  | read (copy : MessageBatch)
  | writing (copy : MessageBatch)
  | done

/-- What the engine is asked and answers, in the log. -/
inductive Event
  | asked (i : Nat)
  | accepted (i : Nat) (id : Text)
  | failed (i : Nat) (e : SendError)

/-- The row of a batch, the run over it and those who end it. -/
structure World where
  row : MessageBatch
  marker : Option Bool
  shuttingDown : Bool
  /-- The shutdown has failed the row and is about to clear the marker. -/
  clearing : Bool
  run : Phase
  cancels : Nat → CancelPhase
  log : List Event
  startedFrom : Option BatchStatus

/-- The atomic steps. -/
inductive Act
  | pickup
  | failPickup
  /-- The start write; the engine is looked up in the same turn. -/
  | start (engineThere : Bool)
  | failWithoutEngine
  | item
  /-- Pacing, the gate or a check refuses the item. -/
  | refuse (e : SendError)
  | ask
  | accept (id : Text)
  | reject (e : SendError)
  | persisted
  | reported
  | save
  | note
  | reread
  | finalize
  | judge
  | keep
  | cancelRead (k : Nat)
  /-- The cancel runs on, in the run's process or in another. -/
  | cancelSignal (k : Nat) (sameProcess : Bool)
  | cancelWrite (k : Nat)
  | reap
  | shutdown
  | shutdownFail
  | shutdownClear

namespace World

/-- The run is over: the marker goes. -/
def finish (w : World) (row : MessageBatch) : World :=
  { w with row, run := .ended, marker := none }

/-- The last part of `finalizeBatch`'s decision, once it is known that
nobody else ended the batch. -/
def decideFinal (marker : Option Bool) (batch : MessageBatch) (st : BatchExecutionState) : Phase :=
  let cancelled := st.cancelledByDb || marker ≠ some true
  .finalizing batch
    (resolveFinalBatchStatus cancelled st.stoppedOnError batch.progress)
    (if cancelled then batch.progress.reconciled else batch.progress)

/-- `finalizeBatch`, up to its first await. -/
def finalizeBatch (marker : Option Bool) (batch : MessageBatch)
    (st : BatchExecutionState) : Phase :=
  if st.endedElsewhere then .keeping batch .failed batch.progress
  else if st.cancelledByDb then decideFinal marker batch st
  else .rereading batch st

/-- The run takes the batch up. -/
def pickup (w : World) : Option World :=
  match w.run with
  | .pickup =>
    if w.marker = some false ∨ w.row.status = .cancelled then
      some (w.finish w.row)
    else if w.shuttingDown then some { w with run := .failingPickup }
    else some { w with marker := some true, run := .starting w.row }
  | _ => none

/-- A batch taken up during the shutdown is failed. -/
def failPickup (w : World) : Option World :=
  match w.run with
  | .failingPickup => some (w.finish (failOrphanedBatch w.row).1)
  | _ => none

/-- The batch is marked as processing. -/
def start (w : World) (engineThere : Bool) : Option World :=
  match w.run with
  | .starting batch =>
    let w := { w with startedFrom := some w.row.status }
    match markBatchProcessing w.row with
    | (row, true) =>
      some { w with
        row
        run := if engineThere then .item batch {} batch.currentIndex
          else .failingWithoutEngine }
    | (row, false) => some (w.finish row)
  | _ => none

/-- Without an engine the batch is failed. -/
def failWithoutEngine (w : World) : Option World :=
  match w.run with
  | .failingWithoutEngine => some (w.finish (failBatchWithoutEngine w.row).1)
  | _ => none

/-- The head of the loop, and the cancellation check of an item. -/
def item (job : Job) (w : World) : Option World :=
  match w.run with
  | .item batch st i =>
    if i < job.messages.length ∧ w.marker = some true then
      some { w with run := .preparing batch st i }
    else some { w with run := finalizeBatch w.marker batch st }
  | _ => none

/-- An item failed. -/
def failItem (job : Job) (w : World) (batch : MessageBatch)
    (st : BatchExecutionState) (i : Nat) (e : SendError) : World :=
  { w with
    run := .reporting { batch with progress := batch.progress.countFailed }
      st i (job.failedResult i e)
    log := w.log ++ [.failed i e] }

/-- The item is refused before it is sent. -/
def refuse (job : Job) (w : World) (e : SendError) : Option World :=
  match w.run with
  | .preparing batch st i => some (failItem job w batch st i e)
  | _ => none

/-- The engine is asked to send the item. -/
def ask (w : World) : Option World :=
  match w.run with
  | .preparing batch st i =>
    some { w with run := .asking batch st i, log := w.log ++ [.asked i] }
  | _ => none

/-- The engine takes the item. -/
def accept (job : Job) (w : World) (id : Text) : Option World :=
  match w.run with
  | .asking batch st i =>
    some { w with
      run := .persisting
        { batch with progress := batch.progress.countSent } st i
        (job.sentResult i id)
      log := w.log ++ [.accepted i id] }
  | _ => none

/-- The engine fails the item. -/
def reject (job : Job) (w : World) (e : SendError) : Option World :=
  match w.run with
  | .asking batch st i => some (failItem job w batch st i e)
  | _ => none

/-- The item's result joins the copy. -/
def record (batch : MessageBatch) (i : Nat) (result : BatchMessageResult) :
    MessageBatch :=
  { batch with results := batch.results ++ [result]
               currentIndex := i + 1 }

/-- The message row is written or given up. -/
def persisted (w : World) : Option World :=
  match w.run with
  | .persisting batch st i result =>
    some { w with run := .saving (record batch i result) st i }
  | _ => none

/-- With `stopOnError` the loop ends here: the result is kept, the index
is not moved and nothing is saved. -/
def reported (job : Job) (w : World) : Option World :=
  match w.run with
  | .reporting batch st i result =>
    if job.stopOnError then
      let batch := { batch with results := batch.results ++ [result] }
      let st := { st with stoppedOnError := true }
      some { w with run := finalizeBatch w.marker batch st }
    else some { w with run := .saving (record batch i result) st i }
  | _ => none

/-- The progress is saved, if the row still allows it. -/
def save (w : World) : Option World :=
  match w.run with
  | .saving batch st i =>
    match saveProgress w.row batch with
    | (row, true) => some { w with row, run := .item batch st (i + 1) }
    | (row, false) => some { w with row, run := .noting batch st }
  | _ => none

/-- `noteRowLeftProcessing`, and on to `finalizeBatch`. -/
def note (w : World) : Option World :=
  match w.run with
  | .noting batch st =>
    let st :=
      if w.row.status = .failed ∨ w.row.status = .completed then
        { st with endedElsewhere := true }
      else { st with cancelledByDb := true }
    some { w with run := finalizeBatch w.marker batch st }
  | _ => none

/-- The status is read once more before the end. -/
def reread (w : World) : Option World :=
  match w.run with
  | .rereading batch st =>
    if w.row.status = .cancelled then
      let st := { st with cancelledByDb := true }
      some { w with run := decideFinal w.marker batch st }
    else if w.row.status = .failed ∨ w.row.status = .completed then
      some { w with run := .keeping batch .failed batch.progress }
    else some { w with run := decideFinal w.marker batch st }
  | _ => none

/-- The final write. -/
def finalize (w : World) : Option World :=
  match w.run with
  | .finalizing batch status progress =>
    match finalWrite w.row batch status progress with
    | (row, true) => some (w.finish row)
    | (row, false) =>
      some { w with
        row
        run := if status = .cancelled then
            .keeping batch .failed batch.progress
          else .judging batch }
  | _ => none

/-- Who won the final race. -/
def judge (w : World) : Option World :=
  match w.run with
  | .judging batch =>
    if w.row.status = .failed then
      some { w with run := .keeping batch .failed batch.progress }
    else if w.row.status = .cancelled then
      let progress := batch.progress.reconciled
      some { w with run := .keeping batch .cancelled progress }
    else some (w.finish w.row)
  | _ => none

/-- An ended row keeps the results. -/
def keep (w : World) : Option World :=
  match w.run with
  | .keeping batch status progress =>
    some (w.finish (keepResultsOnEndedRow w.row batch status progress).1)
  | _ => none

-- ======== the other writers

/-- `cancelBatch` reads the row; a terminal one is refused. -/
def cancelRead (w : World) (k : Nat) : Option World :=
  match w.cancels k with
  | .idle =>
    let phase := if w.row.status.unfinished then
      CancelPhase.read w.row else .done
    some { w with cancels := Function.update w.cancels k phase }
  | _ => none

/-- The marker is cleared if this process has one. -/
def cancelSignal (w : World) (k : Nat) (sameProcess : Bool) : Option World :=
  match w.cancels k with
  | .read copy =>
    some { w with
      marker := if sameProcess then w.marker.map fun _ => false
        else w.marker
      cancels := Function.update w.cancels k (.writing copy) }
  | _ => none

/-- A cancel writes its copy. -/
def cancelWrite (w : World) (k : Nat) : Option World :=
  match w.cancels k with
  | .writing copy =>
    some { w with row := (Bulk.cancelWrite w.row copy).1
                  cancels := Function.update w.cancels k .done }
  | _ => none

/-- The shutdown fails the row. -/
def shutdownFail (w : World) : Option World :=
  if w.shuttingDown then
    let (row, affected) := failOrphanedBatch w.row
    some { w with row, clearing := w.clearing || affected }
  else none

/-- The shutdown clears the marker. -/
def shutdownClear (w : World) : Option World :=
  if w.clearing then some { w with marker := some false, clearing := false }
  else none

/-- One step. -/
def step (job : Job) (w : World) : Act → Option World
  | .pickup => w.pickup
  | .failPickup => w.failPickup
  | .start engineThere => w.start engineThere
  | .failWithoutEngine => w.failWithoutEngine
  | .item => w.item job
  | .refuse e => w.refuse job e
  | .ask => w.ask
  | .accept id => w.accept job id
  | .reject e => w.reject job e
  | .persisted => w.persisted
  | .reported => w.reported job
  | .save => w.save
  | .note => w.note
  | .reread => w.reread
  | .finalize => w.finalize
  | .judge => w.judge
  | .keep => w.keep
  | .cancelRead k => w.cancelRead k
  | .cancelSignal k sameProcess => w.cancelSignal k sameProcess
  | .cancelWrite k => w.cancelWrite k
  | .reap => some { w with row := (failOrphanedBatch w.row).1 }
  | .shutdown => some { w with shuttingDown := true }
  | .shutdownFail => w.shutdownFail
  | .shutdownClear => w.shutdownClear

/-- The row has just been saved and the run is about to pick it up. -/
def init (job : Job) : World where
  row := job.newBatch
  marker := some true
  shuttingDown := false
  clearing := false
  run := .pickup
  cancels := fun _ => .idle
  log := []
  startedFrom := none

end World

/-- The batch among its writers. -/
def service (job : Job) : Machine World Act where
  step a w := w.step job a

end OpenWA.Bulk

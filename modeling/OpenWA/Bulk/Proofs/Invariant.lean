/-
The invariant of a batch among its writers.

# What the counters are counted against

`log` is what happened: `tally` are the counters it amounts to, `results`
the list of results, `asked` the items the engine was asked to send, in
order. The run's copy is exact (`Exact`) at every await except between an
item's end and its recording. The stored row lags behind (`RowOk`): its
counters add up, they never run ahead of the log, and only a CANCELLED
row counts cancelled items — so a cancel that writes back an old copy
cannot break it.

# Why the final counters come out right

The row is exact once the run has ended (`Final`) because the run's last
statement is guarded on the very status it has just seen, and that status
is terminal: nobody changes it any more. `Phase` by phase, `RunOk` says
what the run may rely on; the other writers keep all of it, since they
write unfinished rows only.
-/
import Mathlib.Data.List.Basic
import OpenWA.Bulk.World

namespace OpenWA.Bulk

-- ======== the log

/-- The item an event asked the engine for. -/
def Event.asks : Event → Option Nat
  | .asked i => some i
  | _ => none

/-- The result an event is recorded as. -/
def Event.result (job : Job) : Event → Option BatchMessageResult
  | .asked _ => none
  | .accepted i id => some (job.sentResult i id)
  | .failed i e => some (job.failedResult i e)

/-- The event is an item the engine took. -/
def Event.isAccepted : Event → Bool
  | .accepted _ _ => true
  | _ => false

/-- The event is an item that failed. -/
def Event.isFailed : Event → Bool
  | .failed _ _ => true
  | _ => false

/-- The items the engine was asked to send, in order. -/
def asked (log : List Event) : List Nat := log.filterMap Event.asks

/-- The items that ended, in order. -/
def results (job : Job) (log : List Event) : List BatchMessageResult :=
  log.filterMap (Event.result job)

/-- How many items the engine accepted. -/
def accepted (log : List Event) : Nat := log.countP Event.isAccepted

/-- How many items failed. -/
def failures (log : List Event) : Nat := log.countP Event.isFailed

/-- The counters a log amounts to. -/
def tally (job : Job) (log : List Event) : BatchProgress where
  total := job.messages.length
  sent := accepted log
  failed := failures log
  pending := job.messages.length - (accepted log + failures log)
  cancelled := 0

section Log

variable {job : Job} {log : List Event}

theorem asked_append (e : Event) : asked (log ++ [e]) = asked log ++ e.asks.toList := by
  unfold asked
  rw [List.filterMap_append]
  cases e <;> rfl

theorem results_append (e : Event) :
    results job (log ++ [e]) = results job log ++ (e.result job).toList := by
  unfold results
  rw [List.filterMap_append]
  cases e <;> rfl

theorem accepted_append (e : Event) :
    accepted (log ++ [e]) = accepted log + if e.isAccepted then 1 else 0 := by
  unfold accepted
  rw [List.countP_append]
  cases e <;> rfl

theorem failures_append (e : Event) :
    failures (log ++ [e]) = failures log + if e.isFailed then 1 else 0 := by
  unfold failures
  rw [List.countP_append]
  cases e <;> rfl

end Log

-- ======== the invariant

/-- What holds of the stored row at any time. -/
structure RowOk (job : Job) (log : List Event) (row : MessageBatch) :
    Prop where
  total : row.progress.total = job.messages.length
  sum : row.progress.sent + row.progress.failed + row.progress.pending
    + row.progress.cancelled = job.messages.length
  sent_le : row.progress.sent ≤ accepted log
  failed_le : row.progress.failed ≤ failures log
  results : row.results <+: results job log
  index_le : row.currentIndex ≤ accepted log + failures log
  cancelled : row.status ≠ .cancelled → row.progress.cancelled = 0
  pending : row.status = .cancelled → row.progress.pending = 0

/-- What holds of the copy a cancel has read. -/
structure CopyOk (job : Job) (log : List Event) (copy : MessageBatch) :
    Prop where
  total : copy.progress.total = job.messages.length
  sum : copy.progress.sent + copy.progress.failed + copy.progress.pending = job.messages.length
  sent_le : copy.progress.sent ≤ accepted log
  failed_le : copy.progress.failed ≤ failures log

/-- The copy a cancel holds is sound. -/
def CancelOk (job : Job) (log : List Event) : CancelPhase → Prop
  | .read copy => CopyOk job log copy
  | .writing copy => CopyOk job log copy
  | _ => True

/-- The copy of the run is up to date. -/
structure Exact (job : Job) (log : List Event) (batch : MessageBatch) :
    Prop where
  progress : batch.progress = tally job log
  results : batch.results = results job log
  index_le : batch.currentIndex ≤ accepted log + failures log

/-- The copy of the run has counted the item that ended last, and has not
yet recorded its result. -/
structure Counted (job : Job) (log : List Event) (batch : MessageBatch)
    (result : BatchMessageResult) : Prop where
  progress : batch.progress = tally job log
  results : results job log = batch.results ++ [result]
  index_le : batch.currentIndex ≤ accepted log + failures log

/-- The row says what happened. -/
structure Final (job : Job) (log : List Event) (row : MessageBatch) :
    Prop where
  sent : row.progress.sent = accepted log
  failed : row.progress.failed = failures log
  results : row.results = results job log

/-- The run has started and has not written its last word. -/
structure Active (row : MessageBatch) : Prop where
  not_pending : row.status ≠ .pending
  not_completed : row.status ≠ .completed

/-- Another writer has ended the batch. -/
def Left (row : MessageBatch) : Prop := row.status = .failed ∨ row.status = .cancelled

/-- The run stands before item `i`. -/
structure AtItem (log : List Event) (i : Nat) : Prop where
  index : i = accepted log + failures log
  asked_lt : ∀ j ∈ asked log, j < i

/-- The run is about to ask the engine for item `i`, or has. -/
structure InItem (job : Job) (log : List Event) (i : Nat) : Prop where
  index_lt : i < job.messages.length
  asked_lt : ∀ j ∈ asked log, j < i + 1

/-- The start write went through, and the run goes on. -/
structure Running (row : MessageBatch) (startedFrom : Option BatchStatus)
    (st : BatchExecutionState) : Prop extends Active row where
  started : startedFrom = some .pending
  cancelledByDb : st.cancelledByDb = false
  endedElsewhere : st.endedElsewhere = false

/-- The terminal status and counters the run is about to write. -/
def FinalOk (job : Job) (log : List Event) (status : BatchStatus)
    (progress : BatchProgress) : Prop :=
  (status = .cancelled ∧ progress = (tally job log).reconciled)
    ∨ ((status = .completed ∨ status = .failed) ∧ progress = tally job log)

/-- What the run may rely on in each phase. -/
def RunOk (job : Job) (row : MessageBatch) (log : List Event)
    (startedFrom : Option BatchStatus) : Phase → Prop
  | .pickup => log = []
  | .failingPickup => log = []
  | .starting batch =>
    log = [] ∧ Exact job log batch ∧ batch.currentIndex = 0
  | .failingWithoutEngine => log = [] ∧ Active row
  | .item batch st i =>
    Exact job log batch ∧ AtItem log i ∧ Running row startedFrom st
  | .preparing batch st i =>
    Exact job log batch ∧ AtItem log i ∧ Running row startedFrom st ∧ i < job.messages.length
  | .asking batch st i =>
    Exact job log batch ∧ InItem job log i ∧ Running row startedFrom st
      ∧ i = accepted log + failures log
  | .persisting batch st i result | .reporting batch st i result =>
    Counted job log batch result ∧ InItem job log i
      ∧ Running row startedFrom st
      ∧ i + 1 = accepted log + failures log
  | .saving batch st i =>
    Exact job log batch ∧ AtItem log (i + 1) ∧ Running row startedFrom st
  | .noting batch st =>
    Exact job log batch ∧ Left row ∧ st.endedElsewhere = false
  | .rereading batch _ => Exact job log batch ∧ Active row
  | .finalizing batch status progress =>
    Exact job log batch ∧ Active row ∧ FinalOk job log status progress
  | .judging batch => Exact job log batch ∧ Left row
  | .keeping batch status progress =>
    Exact job log batch ∧ row.status = status ∧ Left row ∧ FinalOk job log status progress
  | .ended =>
    Final job log row ∧ (row.status.unfinished = true → log = [])

/-- What holds between the row, the run, the cancels and the log. -/
structure Inv (job : Job) (w : World) : Prop where
  row : RowOk job w.log w.row
  cancels : ∀ k, CancelOk job w.log (w.cancels k)
  asked_sorted : (asked w.log).Pairwise (· < ·)
  asked_lt : ∀ i ∈ asked w.log, i < job.messages.length
  items : accepted w.log + failures w.log ≤ job.messages.length
  started : w.log ≠ [] → w.startedFrom = some .pending
  run : RunOk job w.row w.log w.startedFrom w.run

-- ======== the stored row

variable {status : BatchStatus}

section Row

variable {job : Job} {log : List Event} {row : MessageBatch}

/-- The row lags behind a log that goes on. -/
theorem RowOk.grow (h : RowOk job log row) (e : Event) : RowOk job (log ++ [e]) row where
  total := h.total
  sum := h.sum
  sent_le := by rw [accepted_append]; have := h.sent_le; omega
  failed_le := by rw [failures_append]; have := h.failed_le; omega
  results := by
    rw [results_append]
    exact h.results.trans (List.prefix_append _ _)
  index_le := by
    rw [accepted_append, failures_append]
    have := h.index_le
    omega
  cancelled := h.cancelled
  pending := h.pending

theorem CancelOk.grow {phase : CancelPhase} (h : CancelOk job log phase)
    (e : Event) : CancelOk job (log ++ [e]) phase := by
  have hcopy : ∀ copy, CopyOk job log copy → CopyOk job (log ++ [e]) copy := by
    intro copy hc
    refine ⟨hc.total, hc.sum, ?_, ?_⟩
    · rw [accepted_append]; have := hc.sent_le; omega
    · rw [failures_append]; have := hc.failed_le; omega
  cases phase with
  | read copy | writing copy => exact hcopy copy h
  | idle | done => trivial

/-- What a cancel reads. -/
theorem RowOk.copyOk (h : RowOk job log row)
    (hopen : row.status.unfinished = true) : CopyOk job log row := by
  have hzero : row.progress.cancelled = 0 := by
    apply h.cancelled
    intro hc
    rw [hc] at hopen
    cases hopen
  refine ⟨h.total, ?_, h.sent_le, h.failed_le⟩
  have := h.sum
  omega

/-- The status moves to one that is not CANCELLED. -/
theorem RowOk.setStatus (h : RowOk job log row) (hold : row.status ≠ .cancelled)
    (hnew : status ≠ .cancelled) : RowOk job log { row with status } where
  total := h.total
  sum := h.sum
  sent_le := h.sent_le
  failed_le := h.failed_le
  results := h.results
  index_le := h.index_le
  cancelled _ := h.cancelled hold
  pending hc := absurd hc hnew

/-- What a cancel writes. -/
theorem RowOk.cancel (h : RowOk job log row) {copy : MessageBatch}
    (hc : CopyOk job log copy) :
    RowOk job log { row with status := .cancelled
                             progress := copy.progress.reconciled } where
  total := hc.total
  sum := by
    have := hc.sum
    simp only [BatchProgress.reconciled]
    omega
  sent_le := hc.sent_le
  failed_le := hc.failed_le
  results := h.results
  index_le := h.index_le
  cancelled hne := absurd rfl hne
  pending _ := rfl

/-- What the run writes of its copy. -/
theorem Exact.rowOk {batch : MessageBatch} (hb : Exact job log batch)
    (hitems : accepted log + failures log ≤ job.messages.length) {progress : BatchProgress}
    (hp : (status ≠ .cancelled ∧ progress = tally job log)
      ∨ (status = .cancelled ∧ progress = (tally job log).reconciled)) :
    RowOk job log ⟨status, progress, batch.results, batch.currentIndex⟩
      ∧ Final job log ⟨status, progress, batch.results, batch.currentIndex⟩ := by
  rcases hp with ⟨hs, rfl⟩ | ⟨hs, rfl⟩
  · refine ⟨⟨rfl, ?_, le_rfl, le_rfl, ?_, hb.index_le, fun _ => rfl,
      fun hc => absurd hc hs⟩, rfl, rfl, hb.results⟩
    · show accepted log + failures log
        + (job.messages.length - (accepted log + failures log)) + 0 = _
      omega
    · exact hb.results ▸ List.prefix_rfl
  · refine ⟨⟨rfl, ?_, le_rfl, le_rfl, ?_, hb.index_le,
      fun hc => absurd hs hc, fun _ => rfl⟩, rfl, rfl, hb.results⟩
    · show accepted log + failures log + 0
        + (job.messages.length - (accepted log + failures log)) = _
      omega
    · exact hb.results ▸ List.prefix_rfl

/-- With nothing sent, a row that is not CANCELLED is as it was saved. -/
theorem RowOk.exact_of_nil (h : RowOk job log row) (hlog : log = [])
    (hs : row.status ≠ .cancelled) : Exact job log row ∧ row.currentIndex = 0 := by
  subst hlog
  have hsent : row.progress.sent = 0 := Nat.le_zero.1 h.sent_le
  have hfailed : row.progress.failed = 0 := Nat.le_zero.1 h.failed_le
  have hcancelled := h.cancelled hs
  have hindex : row.currentIndex = 0 := Nat.le_zero.1 h.index_le
  have hsum := h.sum
  refine ⟨⟨?_, List.prefix_nil.1 h.results, h.index_le⟩, hindex⟩
  have hpending : row.progress.pending = job.messages.length := by omega
  have htotal := h.total
  cases hp : row.progress with
  | mk total sent failed pending cancelled =>
    rw [hp] at hsent hfailed hcancelled hpending htotal
    simp only at hsent hfailed hcancelled hpending htotal
    rw [htotal, hsent, hfailed, hcancelled, hpending]
    rfl

/-- With nothing sent, any row says so. -/
theorem RowOk.final_of_nil (h : RowOk job log row) (hlog : log = []) : Final job log row := by
  subst hlog
  exact ⟨Nat.le_zero.1 h.sent_le, Nat.le_zero.1 h.failed_le, List.prefix_nil.1 h.results⟩

end Row

end OpenWA.Bulk

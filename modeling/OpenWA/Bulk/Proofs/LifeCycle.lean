/-
The life cycle and the bookkeeping of a batch, over every run.

# The other writers

A cancel, a reap and the shutdown write unfinished rows only, and leave
FAILED or CANCELLED. Such a write costs the run nothing it relies on
(`RunOk.left`): where the run needs a status to stand still it is already
terminal, and where the run has ended on an unfinished row nothing was
sent.
-/
import OpenWA.Bulk.Proofs.Endings

namespace OpenWA.Bulk

variable {job : Job} {w w' : World}

-- ======== the other writers

variable {row : MessageBatch} {k : Nat}

/-- What the run relies on survives another writer's end of the batch. -/
theorem RunOk.left {row' : MessageBatch} {log : List Event} {startedFrom : Option BatchStatus}
    {run : Phase} (h : RunOk job row log startedFrom run) (hopen : row.status.unfinished = true)
    (hleft : Left row') (hrow : RowOk job log row') : RunOk job row' log startedFrom run := by
  have hrunning : ∀ st, Running row startedFrom st → Running row' startedFrom st := fun _ hr =>
    ⟨hleft.active, hr.started, hr.cancelledByDb, hr.endedElsewhere⟩
  have hnot : ¬ Left row := by
    intro hl
    rcases hl with hs | hs
    · rw [hs] at hopen; cases hopen
    · rw [hs] at hopen; cases hopen
  cases run with
  | pickup | failingPickup | starting => exact h
  | failingWithoutEngine => exact ⟨h.1, hleft.active⟩
  | item batch st i => exact ⟨h.1, h.2.1, hrunning st h.2.2⟩
  | preparing batch st i =>
    exact ⟨h.1, h.2.1, hrunning st h.2.2.1, h.2.2.2⟩
  | asking batch st i => exact ⟨h.1, h.2.1, hrunning st h.2.2.1, h.2.2.2⟩
  | persisting _ st | reporting _ st =>
    exact ⟨h.1, h.2.1, hrunning st h.2.2.1, h.2.2.2⟩
  | saving batch st i => exact ⟨h.1, h.2.1, hrunning st h.2.2⟩
  | noting batch st => exact absurd h.2.1 hnot
  | rereading batch st => exact ⟨h.1, hleft.active⟩
  | finalizing batch status progress =>
    exact ⟨h.1, hleft.active, h.2.2⟩
  | judging batch => exact absurd h.2 hnot
  | keeping batch status progress => exact absurd h.2.2.1 hnot
  | ended =>
    exact ⟨hrow.final_of_nil (h.2 hopen), fun _ => h.2 hopen⟩

/-- A write of an unfinished row to FAILED or CANCELLED. -/
theorem Inv.otherWrite (hi : Inv job w) (hrow : RowOk job w.log row)
    (hcase : row = w.row ∨ (w.row.status.unfinished = true ∧ Left row)) :
    RunOk job row w.log w.startedFrom w.run ∧ w.row.status.moves row.status = true := by
  rcases hcase with rfl | ⟨hopen, hleft⟩
  · exact ⟨hi.run, BatchStatus.moves_self _⟩
  · refine ⟨hi.run.left hopen hleft hrow, ?_⟩
    cases hs : w.row.status with
    | pending | processing => rcases hleft with h | h <;> rw [h] <;> rfl
    | completed | cancelled | failed => rw [hs] at hopen; cases hopen

/-- An orphaned batch is failed only if it is unfinished. -/
theorem failOrphaned_case (row : MessageBatch) :
    (failOrphanedBatch row).1 = row
      ∨ (row.status.unfinished = true ∧ Left (failOrphanedBatch row).1) := by
  unfold failOrphanedBatch
  rcases write_cases row (·.unfinished)
    (fun r => { r with status := .failed }) with ⟨hg, hw⟩ | ⟨-, hw⟩
  · rw [hw]
    exact .inr ⟨hg, .inl rfl⟩
  · rw [hw]
    exact .inl rfl

section

variable (hi : Inv job w)
include hi

/-- A reap, and the shutdown's FAILED write. -/
theorem Inv.reap (clearing : Bool) :
    Sound job w { w with row := (failOrphanedBatch w.row).1
                         clearing := clearing } := by
  have hrow := hi.row.failOrphaned.1
  obtain ⟨hrun, hmoves⟩ := hi.otherWrite hrow (failOrphaned_case w.row)
  exact ⟨⟨hrow, hi.cancels, hi.asked_sorted, hi.asked_lt, hi.items, hi.started, hrun⟩, hmoves⟩

/-- The marker and the shutdown flags decide nothing about the row. -/
theorem Inv.signal (marker : Option Bool)
    (shuttingDown clearing : Bool) :
    Sound job w { w with marker, shuttingDown, clearing } :=
  ⟨⟨hi.row, hi.cancels, hi.asked_sorted, hi.asked_lt, hi.items,
    hi.started, hi.run⟩, BatchStatus.moves_self _⟩

/-- The cancels after call `k` has moved. -/
theorem Inv.setCancel (k : Nat) {phase : CancelPhase}
    (hphase : CancelOk job w.log phase) (j : Nat) :
    CancelOk job w.log (Function.update w.cancels k phase j) := by
  by_cases hj : j = k
  · rw [hj, Function.update_self]
    exact hphase
  · rw [Function.update_of_ne hj]
    exact hi.cancels j

theorem Inv.cancelRead : Leads (Sound job w) (w.cancelRead k) := by
  unfold World.cancelRead
  split
  next =>
    refine ⟨⟨hi.row, hi.setCancel k ?_, hi.asked_sorted, hi.asked_lt,
      hi.items, hi.started, hi.run⟩, BatchStatus.moves_self _⟩
    split
    next hopen => exact hi.row.copyOk hopen
    next => trivial
  next => trivial

theorem Inv.cancelSignal {sameProcess : Bool} :
    Leads (Sound job w) (w.cancelSignal k sameProcess) := by
  unfold World.cancelSignal
  split
  next copy hc =>
    refine ⟨⟨hi.row, hi.setCancel k ?_, hi.asked_sorted, hi.asked_lt,
      hi.items, hi.started, hi.run⟩, BatchStatus.moves_self _⟩
    have := hi.cancels k
    rw [hc] at this
    exact this
  next => trivial

theorem Inv.cancelWrite : Leads (Sound job w) (w.cancelWrite k) := by
  unfold World.cancelWrite
  split
  next copy hc =>
    have hcopy : CopyOk job w.log copy := by
      have := hi.cancels k
      rw [hc] at this
      exact this
    have hwrite : RowOk job w.log (Bulk.cancelWrite w.row copy).1
        ∧ ((Bulk.cancelWrite w.row copy).1 = w.row
          ∨ (w.row.status.unfinished = true ∧ Left (Bulk.cancelWrite w.row copy).1)) := by
      unfold Bulk.cancelWrite
      rcases write_cases w.row (·.unfinished)
        (fun r => { r with status := .cancelled
                           progress := copy.progress.reconciled }) with ⟨hg, hw⟩ | ⟨-, hw⟩
      · rw [hw]
        exact ⟨hi.row.cancel hcopy, .inr ⟨hg, .inr rfl⟩⟩
      · rw [hw]
        exact ⟨hi.row, .inl rfl⟩
    obtain ⟨hrun, hmoves⟩ := hi.otherWrite hwrite.1 hwrite.2
    exact ⟨⟨hwrite.1, hi.setCancel k trivial, hi.asked_sorted,
      hi.asked_lt, hi.items, hi.started, hrun⟩, hmoves⟩
  next => trivial

-- ======== every run

/-- Every step is sound. -/
theorem Inv.step {a : Act} : Leads (Sound job w) ((service job).step a w) := by
  cases a with
  | pickup => exact hi.pickup
  | failPickup => exact hi.failPickup
  | start engineThere => exact hi.start
  | failWithoutEngine => exact hi.failWithoutEngine
  | item => exact hi.item
  | refuse e => exact hi.refuse
  | ask => exact hi.ask
  | accept id => exact hi.accept
  | reject e => exact hi.reject
  | persisted => exact hi.persisted
  | reported => exact hi.reported
  | save => exact hi.save
  | note => exact hi.note
  | reread => exact hi.reread
  | finalize => exact hi.finalize
  | judge => exact hi.judge
  | keep => exact hi.keep
  | cancelRead k => exact hi.cancelRead
  | cancelSignal k sameProcess => exact hi.cancelSignal
  | cancelWrite k => exact hi.cancelWrite
  | reap => exact hi.reap w.clearing
  | shutdown => exact hi.signal w.marker true w.clearing
  | shutdownFail =>
    change Leads _ w.shutdownFail
    unfold World.shutdownFail
    split
    next => exact hi.reap _
    next => trivial
  | shutdownClear =>
    change Leads _ w.shutdownClear
    unfold World.shutdownClear
    split
    next => exact hi.signal (some false) w.shuttingDown false
    next => trivial

end

theorem inv_init (job : Job) : Inv job (World.init job) where
  row :=
    { total := rfl
      sum := by simp [World.init, Job.newBatch]
      sent_le := Nat.zero_le _
      failed_le := Nat.zero_le _
      results := List.nil_prefix
      index_le := Nat.zero_le _
      cancelled := fun _ => rfl
      pending := fun h => by cases h }
  cancels _ := trivial
  asked_sorted := List.Pairwise.nil
  asked_lt i hi := by cases hi
  items := Nat.zero_le _
  started h := absurd rfl h
  run := rfl

theorem inv_of_reach (hr : (service job).Reach (.init job) w) :
    Inv job w := hr.leads (inv_init job) fun _ _ hi => hi.step.imp fun _ h => h.inv

/-- A terminal status never changes. -/
theorem status_of_terminal (hi : Inv job w) (hr : (service job).Reach w w')
    (hterm : w.row.status.unfinished = false) : w'.row.status = w.row.status := by
  have hinv : Inv job w' ∧ w'.row.status = w.row.status := by
    apply hr.invariant (P := fun v => Inv job v ∧ v.row.status = w.row.status) ⟨hi, rfl⟩
    intro a v v' hv hstep
    obtain ⟨hi', hmoves⟩ := hv.1.step.to hstep
    refine ⟨hi', ?_⟩
    rw [hv.2] at hmoves
    -- no move leads out of a terminal status
    cases hs : w.row.status with
    | pending | processing => rw [hs] at hterm; cases hterm
    | completed | cancelled | failed =>
      rw [hs] at hmoves
      exact (of_decide_eq_true hmoves).symm
  exact hinv.2

/-- The life cycle and the bookkeeping of a batch. In every run of the
batch among its writers:

- every step moves the stored status along the life cycle, and a terminal
  status never changes;
- the engine is asked for each item at most once, in index order, and for
  none unless the start write found the row PENDING;
- once the run has ended, the counters add up to the total, the sent and
  failed ones are the numbers of items the engine accepted and of items
  that failed, the results are those items in order, and a CANCELLED row
  has nothing pending. -/
theorem batch_life_cycle (hr : (service job).Reach (.init job) w) :
    ((∀ a v, (service job).step a w = some v → w.row.status.moves v.row.status = true)
      ∧ ∀ v, (service job).Reach w v → w.row.status.unfinished = false →
        v.row.status = w.row.status)
    ∧ ((asked w.log).Pairwise (· < ·)
      ∧ (∀ i ∈ asked w.log, i < job.messages.length)
      ∧ (asked w.log ≠ [] → w.startedFrom = some .pending))
    ∧ (w.run = .ended →
      w.row.progress.sent + w.row.progress.failed
          + w.row.progress.pending + w.row.progress.cancelled
        = w.row.progress.total
      ∧ w.row.progress.total = job.messages.length
      ∧ w.row.progress.sent = accepted w.log
      ∧ w.row.progress.failed = failures w.log
      ∧ w.row.results = results job w.log
      ∧ (w.row.status = .cancelled → w.row.progress.pending = 0)) := by
  have hi := inv_of_reach hr
  refine ⟨⟨?_, ?_⟩, ⟨hi.asked_sorted, hi.asked_lt, ?_⟩, ?_⟩
  · intro a v h
    exact (hi.step.to h).moves
  · intro v hv hterm
    exact status_of_terminal hi hv hterm
  · intro hne
    apply hi.started
    intro hlog
    rw [hlog] at hne
    exact hne rfl
  · intro hended
    have hrun := hi.run
    rw [hended] at hrun
    obtain ⟨hfinal, -⟩ := hrun
    exact ⟨hi.row.sum.trans hi.row.total.symm, hi.row.total, hfinal.sent,
      hfinal.failed, hfinal.results, hi.row.pending⟩

/-- A job of two items. -/
def twoItems : Job where
  messages := ["a".toList, "b".toList]
  stopOnError := false

/-- A cancel from another process reads the row before the first item is
sent and writes it back after. -/
def staleCancel : List Act :=
  [.pickup, .start true, .cancelRead 0, .item, .ask, .accept "A".toList,
    .persisted, .save, .cancelSignal 0 false, .cancelWrite 0, .item, .ask,
    .reject (.other "gone".toList), .reported, .save, .note, .finalize]

/-- The stale copy is not what the ended batch shows. -/
theorem batch_life_cycle_stale_cancel :
    ∃ w, (service twoItems).Reach (.init twoItems) w
      ∧ w.row.status = .cancelled
      ∧ w.row.progress = ⟨2, 1, 1, 0, 0⟩
      ∧ w.row.progress.sent = accepted w.log
      ∧ w.row.results = results twoItems w.log := by
  obtain ⟨w, hr, hw⟩ := Machine.exists_reach_of_run
    (M := service twoItems) (.init twoItems) staleCancel
    (fun w => w.run = .ended && w.row.status = .cancelled
      && w.row.progress = ⟨2, 1, 1, 0, 0⟩) (by decide +kernel)
  simp only [Bool.and_eq_true, decide_eq_true_eq] at hw
  obtain ⟨-, -, hfinal⟩ := batch_life_cycle hr
  obtain ⟨-, -, hsent, -, hresults, -⟩ := hfinal hw.1.1
  exact ⟨w, hr, hw.1.2, hw.2, hsent, hresults⟩

end OpenWA.Bulk

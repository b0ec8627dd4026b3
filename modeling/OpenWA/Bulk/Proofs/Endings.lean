/-
The statements that end a batch: the run's progress and final writes, and
the writes of everybody else.

# The final race

The run's last statement is one of three, and each finds the status it is
guarded on:

- the final write on a PROCESSING row (or, for a cancel, a CANCELLED one);
- the write of its results on a FAILED row, after it has seen FAILED;
- the same on a CANCELLED row, with the counters reconciled.

A guard that misses tells the run that another writer ended the batch —
`Active.left` — and that status is terminal, so the next statement's
guard holds.
-/
import OpenWA.Bulk.Proofs.Steps

namespace OpenWA.Bulk

variable {job : Job} {w w' : World} {log : List Event} {i : Nat} {status : BatchStatus}
  {progress : BatchProgress}

/-- An item's result is recorded. -/
theorem Counted.exact {batch : MessageBatch} {result : BatchMessageResult}
    (hb : Counted job log batch result) (hindex : i + 1 = accepted log + failures log) :
    Exact job log (World.record batch i result) := ⟨hb.progress, hb.results.symm, hindex.le⟩

theorem AtItem.of_inItem (hin : InItem job log i) (hindex : i + 1 = accepted log + failures log) :
    AtItem log (i + 1) := ⟨hindex, hin.asked_lt⟩

section

variable (hi : Inv job w)
include hi

theorem Inv.persisted : Leads (Sound job w) (w.persisted) := by
  unfold World.persisted
  split
  next batch st i result hp =>
    obtain ⟨hb, hin, hr, hindex⟩ := hi.runAt hp
    exact hi.goes ⟨hb.exact hindex, .of_inItem hin hindex, hr⟩
  next => trivial

theorem Inv.reported : Leads (Sound job w) (w.reported job) := by
  unfold World.reported
  split
  next batch st i result hp =>
    obtain ⟨hb, hin, hr, hindex⟩ := hi.runAt hp
    split
    next =>
      apply hi.goes
      apply runOk_finalizeBatch _ hr.toActive
      · show st.endedElsewhere = true → _
        rw [hr.endedElsewhere]
        intro he
        cases he
      · exact ⟨hb.progress, hb.results.symm, hb.index_le⟩
    next => exact hi.goes ⟨hb.exact hindex, .of_inItem hin hindex, hr⟩
  next => trivial

theorem Inv.save : Leads (Sound job w) (w.save) := by
  unfold World.save
  split
  next batch st i hp =>
    obtain ⟨hb, hat, hr⟩ := hi.runAt hp
    rcases write_cases w.row (· = .processing)
      (fun r => { r with progress := batch.progress
                         results := batch.results
                         currentIndex := batch.currentIndex }) with ⟨hg, hw⟩ | ⟨hg, hw⟩
    · simp only [saveProgress, hw]
      have hs : w.row.status = .processing := of_decide_eq_true hg
      have hrow := (hb.rowOk hi.items (.inl
        ⟨show w.row.status ≠ .cancelled by rw [hs]; decide, hb.progress⟩)).1
      exact ⟨⟨hrow, hi.cancels, hi.asked_sorted, hi.asked_lt, hi.items,
        hi.started, hb, hat, ⟨hr.not_pending, hr.not_completed⟩,
        hr.started, hr.cancelledByDb, hr.endedElsewhere⟩, BatchStatus.moves_self _⟩
    · simp only [saveProgress, hw]
      have hleft : Left w.row := hr.toActive.left (of_decide_eq_false hg)
      exact hi.goes ⟨hb, hleft, hr.endedElsewhere⟩
  next => trivial

theorem Inv.note : Leads (Sound job w) (w.note) := by
  unfold World.note
  split
  next batch st hp =>
    obtain ⟨hb, hleft, he⟩ := hi.runAt hp
    apply hi.goes
    apply runOk_finalizeBatch hb hleft.active
    split
    next hs =>
      intro _
      rcases hs with hs | hs
      · exact hs
      · exact absurd hs hleft.active.not_completed
    next =>
      rw [he]
      intro h
      cases h
  next => trivial

theorem Inv.reread : Leads (Sound job w) (w.reread) := by
  unfold World.reread
  split
  next batch st hp =>
    obtain ⟨hb, ha⟩ := hi.runAt hp
    split
    next => exact hi.goes (runOk_decideFinal hb ha)
    next =>
      split
      next hs =>
        have hs : w.row.status = .failed := by
          rcases hs with hs | hs
          · exact hs
          · exact absurd hs ha.not_completed
        exact hi.goes ⟨hb, hs, .inl hs, .inr ⟨.inr rfl, hb.progress⟩⟩
      next => exact hi.goes (runOk_decideFinal hb ha)
  next => trivial

end

/-- The row the run leaves behind, in the form its writes need it. -/
theorem FinalOk.cases (h : FinalOk job log status progress) :
    (status ≠ .cancelled ∧ progress = tally job log)
      ∨ (status = .cancelled ∧ progress = (tally job log).reconciled) := by
  rcases h with h | ⟨hs | hs, hp⟩
  · exact .inr h
  · exact .inl ⟨by rw [hs]; decide, hp⟩
  · exact .inl ⟨by rw [hs]; decide, hp⟩

theorem FinalOk.terminal (h : FinalOk job log status progress) : status.unfinished = false := by
  rcases h with ⟨hs, -⟩ | ⟨hs | hs, -⟩ <;> rw [hs] <;> rfl

theorem Inv.finalize (hi : Inv job w) : Leads (Sound job w) (w.finalize) := by
  unfold World.finalize
  split
  next batch status progress hp =>
    obtain ⟨hb, ha, hfin⟩ := hi.runAt hp
    rcases write_cases w.row
      (fun s => s = .processing
        || (status = .cancelled && s = .cancelled))
      (fun r => { r with status, progress, results := batch.results
                         currentIndex := batch.currentIndex })
      with ⟨hg, hw⟩ | ⟨hg, hw⟩
    · simp only [finalWrite, hw]
      obtain ⟨hrow, hfinal⟩ := hb.rowOk hi.items hfin.cases
      apply hi.finishRow hrow hfinal
      · intro hopen
        rw [hfin.terminal] at hopen
        cases hopen
      · show w.row.status.moves status = true
        simp only [Bool.or_eq_true, Bool.and_eq_true, decide_eq_true_eq] at hg
        rcases hg with hs | ⟨hc, hs⟩
        · rw [hs]
          rcases hfin with ⟨hs', -⟩ | ⟨hs' | hs', -⟩ <;> rw [hs'] <;> rfl
        · rw [hs, hc]
          rfl
    · simp only [finalWrite, hw]
      simp only [Bool.or_eq_false_iff, Bool.and_eq_false_iff, decide_eq_false_iff_not] at hg
      have hleft : Left w.row := ha.left hg.1
      split
      next hc =>
        -- neither PROCESSING nor CANCELLED: a reap's FAILED
        have hs : w.row.status = .failed := by
          rcases hleft with hs | hs
          · exact hs
          · rcases hg.2 with hne | hne
            · exact absurd hc hne
            · exact absurd hs hne
        exact hi.goes ⟨hb, hs, hleft, .inr ⟨.inr rfl, hb.progress⟩⟩
      next => exact hi.goes ⟨hb, hleft⟩
  next => trivial

theorem Inv.judge (hi : Inv job w) : Leads (Sound job w) (w.judge) := by
  unfold World.judge
  split
  next batch hp =>
    obtain ⟨hb, hleft⟩ := hi.runAt hp
    split
    next hs =>
      exact hi.goes ⟨hb, hs, hleft, .inr ⟨.inr rfl, hb.progress⟩⟩
    next hnot =>
      have hs : w.row.status = .cancelled := hleft.resolve_left hnot
      rw [if_pos hs]
      exact hi.goes ⟨hb, hs, hleft, .inl ⟨rfl, by rw [hb.progress]⟩⟩
  next => trivial

theorem Inv.keep (hi : Inv job w) : Leads (Sound job w) (w.keep) := by
  unfold World.keep
  split
  next batch status progress hp =>
    obtain ⟨hb, hs, -, hfin⟩ := hi.runAt hp
    obtain ⟨hrow, hfinal⟩ := hb.rowOk hi.items hfin.cases
    -- the guard holds: the status is the one the run has seen
    have hw : (keepResultsOnEndedRow w.row batch status progress).1
        = ⟨status, progress, batch.results, batch.currentIndex⟩ := by
      unfold keepResultsOnEndedRow MessageBatch.write
      rw [if_pos (decide_eq_true hs)]
      show MessageBatch.mk w.row.status _ _ _ = _
      rw [hs]
    rw [hw]
    apply hi.finishRow hrow hfinal
    · intro hopen
      rw [hfin.terminal] at hopen
      cases hopen
    · show w.row.status.moves status = true
      rw [hs]
      exact BatchStatus.moves_self _
  next => trivial

end OpenWA.Bulk

/-
Every step keeps the invariant, and moves the stored status forward.

# Layout

A step is sound (`Sound`) if it keeps `Inv` and moves the status along
the life cycle. Steps of the run that write nothing are `Inv.setRun`;
those that log an item's end go through `Inv.logItem`; the cancels, the
reaps and the shutdown are `Inv.otherWrite`, one lemma for all of them,
because they are guarded on the unfinished statuses.
-/
import OpenWA.Bulk.Proofs.Invariant

namespace OpenWA.Bulk

/-- The moves of the life cycle. -/
def BatchStatus.moves : BatchStatus → BatchStatus → Bool
  | .pending, .processing | .pending, .failed | .pending, .cancelled => true
  | .processing, .completed | .processing, .failed
  | .processing, .cancelled => true
  | s, s' => s = s'

theorem BatchStatus.moves_self (s : BatchStatus) : s.moves s = true := by
  cases s <;> rfl

theorem BatchStatus.moves_failed {s : BatchStatus} (h : s ≠ .completed) (h' : s ≠ .cancelled) :
    s.moves .failed = true := by
  cases s <;> first | rfl | contradiction

/-- A step keeps the invariant and moves the status forward. -/
structure Sound (job : Job) (w w' : World) : Prop where
  inv : Inv job w'
  moves : w.row.status.moves w'.row.status = true

variable {job : Job} {w w' : World}

-- ======== steps of the run

variable {run : Phase}

/-- A step that changes neither the row nor the log. -/
theorem Inv.setRun (hi : Inv job w) (h : RunOk job w.row w.log w.startedFrom run)
    (marker : Option Bool) : Sound job w { w with run, marker } :=
  ⟨⟨hi.row, hi.cancels, hi.asked_sorted, hi.asked_lt, hi.items,
    hi.started, h⟩, BatchStatus.moves_self _⟩

theorem Inv.goes (hi : Inv job w) (hrun : RunOk job w.row w.log w.startedFrom run) :
    Sound job w { w with run } := hi.setRun hrun w.marker

/-- What the run may rely on where it stands. -/
theorem Inv.runAt (hi : Inv job w) {phase : Phase} (hp : w.run = phase) :
    RunOk job w.row w.log w.startedFrom phase := hp ▸ hi.run

variable {row : MessageBatch}

/-- The run ends without a statement of its own. -/
theorem Inv.finishRow (hi : Inv job w) (hrow : RowOk job w.log row) (hfinal : Final job w.log row)
    (hopen : row.status.unfinished = true → w.log = [])
    (hmoves : w.row.status.moves row.status = true) :
    Sound job w (w.finish row) :=
  ⟨⟨hrow, hi.cancels, hi.asked_sorted, hi.asked_lt, hi.items, hi.started, hfinal, hopen⟩, hmoves⟩

/-- A guarded statement. -/
theorem write_cases (row : MessageBatch) (guard : BatchStatus → Bool)
    (set : MessageBatch → MessageBatch) :
    (guard row.status = true ∧ row.write guard set = (set row, true))
      ∨ (guard row.status = false ∧ row.write guard set = (row, false)) := by
  unfold MessageBatch.write
  cases h : guard row.status with
  | true => exact .inl ⟨rfl, rfl⟩
  | false => exact .inr ⟨rfl, rfl⟩

section Decisions

variable {batch row : MessageBatch} {log : List Event}
  {st : BatchExecutionState} {marker : Option Bool}
  {startedFrom : Option BatchStatus}

theorem runOk_decideFinal (hb : Exact job log batch) (ha : Active row) :
    RunOk job row log startedFrom (World.decideFinal marker batch st) := by
  refine ⟨hb, ha, ?_⟩
  by_cases hc : (st.cancelledByDb || decide (marker ≠ some true)) = true
  · left
    rw [if_pos hc, hb.progress]
    refine ⟨?_, rfl⟩
    rw [resolveFinalBatchStatus, if_pos hc]
  · right
    rw [if_neg hc]
    refine ⟨?_, hb.progress⟩
    rw [resolveFinalBatchStatus, if_neg hc]
    repeat' split
    all_goals simp

theorem runOk_finalizeBatch (hb : Exact job log batch) (ha : Active row)
    (hended : st.endedElsewhere = true → row.status = .failed) :
    RunOk job row log startedFrom (World.finalizeBatch marker batch st) := by
  unfold World.finalizeBatch
  split
  next he =>
    exact ⟨hb, hended he, .inl (hended he), .inr ⟨.inr rfl, hb.progress⟩⟩
  next =>
    split
    · exact runOk_decideFinal hb ha
    · exact ⟨hb, ha⟩

end Decisions

theorem active_of_status {s : BatchStatus}
    (hs : row.status = s) (hp : s ≠ .pending) (hc : s ≠ .completed) :
    Active row := ⟨fun h => hp (hs.symm.trans h), fun h => hc (hs.symm.trans h)⟩

/-- A batch ended by another writer is still one the run has not ended. -/
theorem Left.active (h : Left row) : Active row := by
  rcases h with h | h <;> exact active_of_status h (by decide) (by decide)

/-- Not pending, not completed and not processing: ended elsewhere. -/
theorem Active.left (ha : Active row) (hp : row.status ≠ .processing) : Left row := by
  unfold Left
  cases hs : row.status with
  | pending => exact absurd hs ha.not_pending
  | processing => exact absurd hs hp
  | completed => exact absurd hs ha.not_completed
  | cancelled => exact .inr rfl
  | failed => exact .inl rfl

theorem Inv.pickup (hi : Inv job w) : Leads (Sound job w) (w.pickup) := by
  unfold World.pickup
  split
  next hp =>
    have hlog : w.log = [] := hi.runAt hp
    split
    next =>
      exact hi.finishRow hi.row (hi.row.final_of_nil hlog) (fun _ => hlog)
        (BatchStatus.moves_self _)
    next hnot =>
      split
      next => exact hi.goes hlog
      next =>
        have hs : w.row.status ≠ .cancelled := fun hs => hnot (.inr hs)
        obtain ⟨hexact, hindex⟩ := hi.row.exact_of_nil hlog hs
        have hrun : RunOk job w.row w.log w.startedFrom (.starting w.row) := ⟨hlog, hexact, hindex⟩
        exact hi.setRun hrun (some true)
  next => trivial

/-- The FAILED write of the reaps, the shutdown and the pickup. -/
theorem RowOk.failOrphaned {log : List Event}
    (h : RowOk job log row) :
    RowOk job log (failOrphanedBatch row).1
      ∧ row.status.moves (failOrphanedBatch row).1.status = true := by
  rcases write_cases row (·.unfinished)
    (fun r => { r with status := .failed }) with ⟨hg, hw⟩ | ⟨-, hw⟩
  · unfold failOrphanedBatch
    rw [hw]
    have hopen {s : BatchStatus} (hs : s.unfinished = false) : row.status ≠ s := by
      rintro rfl
      rw [hs] at hg
      cases hg
    exact ⟨h.setStatus (hopen rfl) (by decide), BatchStatus.moves_failed (hopen rfl) (hopen rfl)⟩
  · unfold failOrphanedBatch
    rw [hw]
    exact ⟨h, BatchStatus.moves_self _⟩

theorem Inv.failPickup (hi : Inv job w) : Leads (Sound job w) (w.failPickup) := by
  unfold World.failPickup
  split
  next hp =>
    have hlog : w.log = [] := hi.runAt hp
    obtain ⟨hrow, hmoves⟩ := hi.row.failOrphaned
    exact hi.finishRow hrow (hrow.final_of_nil hlog) (fun _ => hlog) hmoves
  next => trivial

theorem Inv.start (hi : Inv job w) {engineThere : Bool} :
    Leads (Sound job w) (w.start engineThere) := by
  unfold World.start
  split
  next batch hp =>
    obtain ⟨hlog, hb, hindex⟩ : w.log = [] ∧ Exact job w.log batch
        ∧ batch.currentIndex = 0 := hi.runAt hp
    rcases write_cases w.row (· = .pending)
      (fun r => { r with status := .processing }) with ⟨hg, hw⟩ | ⟨hg, hw⟩
    · simp only [markBatchProcessing, hw]
      have hs : w.row.status = .pending := of_decide_eq_true hg
      have hrow : RowOk job w.log { w.row with status := .processing } :=
        hi.row.setStatus (by rw [hs]; decide) (by decide)
      have hactive : Active { w.row with status := .processing } :=
        active_of_status (s := .processing) rfl (by decide) (by decide)
      refine ⟨⟨hrow, hi.cancels, hi.asked_sorted, hi.asked_lt, hi.items,
        fun _ => congrArg some hs, ?_⟩, ?_⟩
      · cases engineThere with
        | true =>
          refine ⟨hb, ⟨?_, ?_⟩, hactive, congrArg some hs, rfl, rfl⟩
          · rw [hindex, hlog]
            rfl
          · intro j hj
            rw [hlog] at hj
            cases hj
        | false => exact ⟨hlog, hactive⟩
      · show w.row.status.moves .processing = true
        rw [hs]
        rfl
    · simp only [markBatchProcessing, hw]
      exact ⟨⟨hi.row, hi.cancels, hi.asked_sorted, hi.asked_lt, hi.items,
        fun hne => absurd hlog hne, hi.row.final_of_nil hlog, fun _ => hlog⟩, BatchStatus.moves_self _⟩
  next => trivial

theorem Inv.failWithoutEngine (hi : Inv job w) : Leads (Sound job w) (w.failWithoutEngine) := by
  unfold World.failWithoutEngine
  split
  next hp =>
    obtain ⟨hlog, ha⟩ : w.log = [] ∧ Active w.row := hi.runAt hp
    rcases write_cases w.row (· ≠ .cancelled)
      (fun r => { r with status := .failed }) with ⟨hg, hw⟩ | ⟨-, hw⟩
    · have hs : w.row.status ≠ .cancelled := of_decide_eq_true hg
      have hrow := hi.row.setStatus hs (show BatchStatus.failed ≠ .cancelled by decide)
      rw [failBatchWithoutEngine, hw]
      exact hi.finishRow hrow (hrow.final_of_nil hlog) (fun _ => hlog)
        (BatchStatus.moves_failed ha.not_completed hs)
    · rw [failBatchWithoutEngine, hw]
      exact hi.finishRow hi.row (hi.row.final_of_nil hlog) (fun _ => hlog)
        (BatchStatus.moves_self _)
  next => trivial

-- ======== the items

theorem Inv.item (hi : Inv job w) : Leads (Sound job w) (w.item job) := by
  unfold World.item
  split
  next batch st i hp =>
    obtain ⟨hb, hat, hr⟩ := hi.runAt hp
    split
    next hc =>
      exact hi.goes ⟨hb, hat, hr, hc.1⟩
    next =>
      apply hi.goes
      apply runOk_finalizeBatch hb hr.toActive
      rw [hr.endedElsewhere]
      intro he
      cases he
  next => trivial

variable {e : Event}

/-- A step that logs an event about item `i`. -/
theorem Inv.logged (hi : Inv job w)
    (hasked : ∀ i ∈ e.asks, i < job.messages.length ∧ ∀ j ∈ asked w.log, j < i)
    (hitems : accepted (w.log ++ [e]) + failures (w.log ++ [e]) ≤ job.messages.length)
    (hstarted : w.startedFrom = some .pending)
    (hrun : RunOk job w.row (w.log ++ [e]) w.startedFrom run) :
    Sound job w { w with run, log := w.log ++ [e] } := by
  refine ⟨⟨hi.row.grow e, fun k => (hi.cancels k).grow e, ?_, ?_, hitems,
    fun _ => hstarted, hrun⟩, BatchStatus.moves_self _⟩
  · show (asked (w.log ++ [e])).Pairwise (· < ·)
    rw [asked_append, List.pairwise_append]
    refine ⟨hi.asked_sorted, ?_, ?_⟩
    · cases e.asks <;> simp
    · intro j hj i hie
      exact (hasked i (Option.mem_toList.1 hie)).2 j hj
  · intro i hmem
    rw [asked_append, List.mem_append] at hmem
    rcases hmem with hmem | hmem
    · exact hi.asked_lt i hmem
    · exact (hasked i (Option.mem_toList.1 hmem)).1

section Items

variable {batch : MessageBatch} {st : BatchExecutionState} {i : Nat}

/-- The counters after a failed item. -/
theorem tally_failed (log : List Event) (e : SendError) :
    tally job (log ++ [.failed i e]) = (tally job log).countFailed := by
  unfold tally BatchProgress.countFailed
  rw [accepted_append, failures_append]
  congr 1

/-- The counters after an item the engine accepted. -/
theorem tally_accepted (log : List Event) (id : Text) :
    tally job (log ++ [.accepted i id]) = (tally job log).countSent := by
  unfold tally BatchProgress.countSent
  rw [accepted_append, failures_append]
  simp only [Event.isAccepted, Event.isFailed, if_true, Nat.add_zero, Bool.false_eq_true, if_false]
  congr 1
  omega

section

variable (hi : Inv job w) (hb : Exact job w.log batch) (hin : InItem job w.log i)
  (hr : Running w.row w.startedFrom st)
include hi hb hin hr

/-- An item ends: it is counted, and its result is known. -/
theorem Inv.ended (hindex : i = accepted w.log + failures w.log)
    {progress : BatchProgress} {result : BatchMessageResult} (hasks : e.asks = none)
    (hresult : e.result job = some result) (hprogress : progress = tally job (w.log ++ [e]))
    (hrun : run = .persisting { batch with progress } st i result
      ∨ run = .reporting { batch with progress } st i result) :
    Sound job w { w with run, log := w.log ++ [e] } := by
  have hone : accepted (w.log ++ [e]) + failures (w.log ++ [e])
      = accepted w.log + failures w.log + 1 := by
    rw [accepted_append, failures_append]
    cases e with
    | asked => cases hresult
    | accepted => exact Nat.add_right_comm _ 1 _
    | failed => rfl
  have hlt := hin.index_lt
  have hok : Counted job (w.log ++ [e]) { batch with progress } result
      ∧ InItem job (w.log ++ [e]) i ∧ Running w.row w.startedFrom st
      ∧ i + 1 = accepted (w.log ++ [e]) + failures (w.log ++ [e]) := by
    refine ⟨⟨hprogress, ?_, ?_⟩, ⟨hlt, ?_⟩, hr, by omega⟩
    · rw [results_append, hresult, hb.results]
      rfl
    · rw [hone]
      exact hb.index_le.trans (Nat.le_succ _)
    · intro j hj
      rw [asked_append, hasks] at hj
      exact hin.asked_lt j (by simpa using hj)
  apply hi.logged
  · intro j hj
    rw [hasks] at hj
    cases hj
  · omega
  · exact hr.started
  · obtain rfl | rfl := hrun <;> exact hok

theorem Inv.failItem
    (hindex : i = accepted w.log + failures w.log) (e : SendError) :
    Sound job w (World.failItem job w batch st i e) := by
  refine hi.ended hb hin hr hindex rfl rfl ?_ (.inr rfl)
  rw [tally_failed, hb.progress]

end

end Items

variable {e : SendError}

theorem Inv.refuse (hi : Inv job w) : Leads (Sound job w) (w.refuse job e) := by
  unfold World.refuse
  split
  next batch st i hp =>
    obtain ⟨hb, hat, hr, hlt⟩ := hi.runAt hp
    have hin : InItem job w.log i := ⟨hlt, fun j hj => Nat.lt_succ_of_lt (hat.asked_lt j hj)⟩
    exact hi.failItem hb hin hr hat.index e
  next => trivial

theorem Inv.reject (hi : Inv job w) : Leads (Sound job w) (w.reject job e) := by
  unfold World.reject
  split
  next batch st i hp =>
    obtain ⟨hb, hin, hr, hindex⟩ := hi.runAt hp
    exact hi.failItem hb hin hr hindex e
  next => trivial

theorem Inv.ask (hi : Inv job w) : Leads (Sound job w) (w.ask) := by
  unfold World.ask
  split
  next batch st i hp =>
    obtain ⟨hb, hat, hr, hlt⟩ := hi.runAt hp
    have hacc : accepted (w.log ++ [.asked i]) = accepted w.log := accepted_append _
    have hfail : failures (w.log ++ [.asked i]) = failures w.log := failures_append _
    have hres : results job (w.log ++ [.asked i]) = results job w.log := by
      rw [results_append]
      exact List.append_nil _
    apply hi.logged
    · intro j hj
      obtain rfl : i = j := Option.some.inj hj
      exact ⟨hlt, hat.asked_lt⟩
    · rw [hacc, hfail]
      exact hi.items
    · exact hr.started
    · refine ⟨⟨?_, ?_, ?_⟩, ⟨hlt, ?_⟩, hr, ?_⟩
      · rw [hb.progress, tally, tally, hacc, hfail]
      · rw [hb.results, hres]
      · rw [hacc, hfail]
        exact hb.index_le
      · intro j hj
        rw [asked_append, List.mem_append] at hj
        rcases hj with hj | hj
        · exact Nat.lt_succ_of_lt (hat.asked_lt j hj)
        · rw [List.mem_singleton.1 hj]
          exact Nat.lt_succ_self i
      · rw [hacc, hfail]
        exact hat.index
  next => trivial

theorem Inv.accept (hi : Inv job w) {id : Text} : Leads (Sound job w) (w.accept job id) := by
  unfold World.accept
  split
  next batch st i hp =>
    obtain ⟨hb, hin, hr, hindex⟩ := hi.runAt hp
    refine hi.ended hb hin hr hindex rfl rfl ?_ (.inl rfl)
    rw [tally_accepted, hb.progress]
  next => trivial

end OpenWA.Bulk

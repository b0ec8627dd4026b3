/-
The outbox loses no delivery: whatever crashes and whichever best-effort
write fails, a delivery whose row was inserted is delivered, cancelled,
undeliverable, on record as failed, or still there for the next sweep.
-/
import OpenWA.Webhook.Proofs.Steps

namespace OpenWA.Webhook

variable {cfg : Config} {w v : World}

/-- A row the sweep finds is not pruned. -/
theorem Inv.prune (h : Inv w)
    (hr : ¬ (w.row.any fun r => r.state.unsettled) = true) : Inv { w with row := none } where
  safe := by
    intro ho
    rcases h.safe ho with hc | hs
    · exact .inl hc
    · obtain ⟨r, hrow, hstale⟩ := findStale_isSome.mp hs
      rw [hrow] at hr
      exact absurd (Bool.and_eq_true_iff.1 hstale).1 hr
  phase := fun k =>
    PhaseOk.later (Later.of_fields id id id id id) (h.phase k)
  completed := h.completed

theorem Inv.deleteSession (h : Inv w) : Inv { w with row := none, cancelled := true } where
  safe := fun _ => .inl (.inr (.inl rfl))
  phase := by
    intro k
    have hl : Later w { w with row := none, cancelled := true } :=
      Later.of_fields id (fun _ => rfl) id id id
    exact PhaseOk.later hl (h.phase k)
  completed := h.completed

/-- Every step keeps the invariant. -/
theorem Inv.step (a : Act) (h : Inv w) : Leads Inv ((system cfg).step a w) := by
  cases a with
  -- a party moves on, and nothing is retired
  | dispatch k data | shed k error | allow k | sweep k | sweepJobPending k ok
  | sweepReason k ok | redrive k data | die k =>
    simp only [system, World.step, World.dispatch, World.shed, World.allow, World.sweep,
      World.sweepJobPending, World.sweepReason, World.redrive]
    repeat' split
    all_goals first
      | exact h.setPhase trivial
      | exact h.mintPhase trivial
      | trivial
  -- a job changes its state, and not to completed
  | take k j | stallBack j | stallFail k j =>
    simp only [system, World.step, World.take, World.stallBack, World.stallFail]
    repeat' split
    all_goals first
      | exact (h.setJob fun hc => by cases hc).setPhase trivial
      | exact h.setJob fun hc => by cases hc
      | trivial
  | openRow k ok => exact h.openRow
  | gate k found => exact h.gate
  | runHooks k result => exact h.runHooks
  | addJob k stored told => exact h.addJob
  | mark k ok => exact h.mark
  | lookup k found => exact h.lookup
  | post k answer => exact h.post
  | clear k ok => exact h.clear
  | record k ok inWindow => exact h.record
  | close k ok => exact h.close
  | sweepLookup k found => exact h.sweepLookup
  | sweepJobCompleted k ok => exact h.sweepJobCompleted
  | sweepBudget k ok => exact h.sweepBudget
  | sweepRetain k ok inWindow => exact h.sweepRetain
  | sweepCount k ok oneDirectAttempt => exact h.sweepCount
  | bump k ok => exact h.bump
  | jobLookup k found => exact h.jobLookup
  | jobPost k answer => exact h.jobPost
  | jobClear k ok => exact h.jobClear
  | stallLookup k found => exact h.stallLookup
  | prune =>
    change Leads Inv (if w.row.any fun r => r.state.unsettled then none
      else some { w with row := none })
    split
    next => trivial
    next hr =>
      exact h.prune hr
  | removeJob j =>
    apply h.updateJob
    intro job hjob
    cases hjob
  | deleteSession =>
    exact h.deleteSession

theorem inv_of_reach (hr : (system cfg).Reach .init w) : Inv w :=
  hr.leads inv_init fun a _ h => h.step a

/-- The outbox loses no delivery. In every reachable state of the
dispatches, the queue, the workers, the reconciler and the redrives, in
which any party may have died at any await and any best-effort write may
have failed, a delivery whose outbox row was inserted is accounted for:
the receiver answered with success; a plugin or the operator cancelled
it; the webhook was found undeliverable; a failure row holds it; or the
row is pending or queued with its payload, and the sweep finds it. -/
theorem outbox_loses_nothing (hr : (system cfg).Reach .init w)
    (ho : w.opened = true) :
    w.delivered = true ∨ w.cancelled = true ∨ w.undeliverable = true
      ∨ w.failures ≠ []
      ∨ ∃ r, w.row = some r ∧ r.state.unsettled = true
        ∧ r.payload.isSome = true ∧ w.findStale = some r := by
  have hi := inv_of_reach hr
  rcases hi.safe ho with hc | hs
  · rcases hc with h | h | h | h
    · exact .inl h
    · exact .inr (.inl h)
    · exact .inr (.inr (.inl h))
    · exact .inr (.inr (.inr (.inl h)))
  · right; right; right; right
    obtain ⟨r, hfound⟩ := Option.isSome_iff_exists.1 hs
    have hfilter := Option.filter_eq_some_iff.1 hfound
    obtain ⟨hstate, hpayload⟩ := Bool.and_eq_true_iff.1 hfilter.2
    exact ⟨r, hfilter.1, hstate, hpayload, hfound⟩

/-- A queue, and failure rows without a payload. -/
def queued : Config where
  queueEnabled := true
  keepsFailurePayload := false
  maxAttempts := 5

/-- The job is queued but the row is not marked; its last attempt fails
and the failure cannot be recorded; the sweep finds the row, and its
replay dies before the hooks have run. -/
def everythingFails : List Act :=
  [.dispatch 0 "hello".toList, .openRow 0 true, .allow 0,
    .runHooks 0 (.ready 1), .addJob 0 true true, .mark 0 false,
    .take 1 0, .jobLookup 1 (.deliverable 1),
    .jobPost 1 (.failure "HTTP 500".toList), .record 1 false false,
    .sweep 2, .sweepLookup 2 (.deliverable 1), .sweepJobPending 2 true,
    .sweepJobCompleted 2 true, .sweepBudget 2 true, .sweepCount 2 true false,
    .die 2]

/-- The row is still there, counted once. -/
theorem outbox_loses_nothing_everything_fails :
    ∃ w, (system queued).Reach .init w ∧ w.opened = true
      ∧ w.failures = []
      ∧ ∃ r, w.findStale = some r ∧ r.payload.isSome = true := by
  obtain ⟨w, hr, hw⟩ := Machine.exists_reach_of_run (M := system queued) .init everythingFails
    (fun w => w.opened && !w.delivered && !w.cancelled && !w.undeliverable
      && w.failures = []) (by decide +kernel)
  simp only [Bool.and_eq_true, Bool.not_eq_true', decide_eq_true_eq] at hw
  obtain ⟨⟨⟨⟨hopened, hd⟩, hc⟩, hu⟩, hf⟩ := hw
  refine ⟨w, hr, hopened, hf, ?_⟩
  rcases outbox_loses_nothing hr hopened with h | h | h | h | ⟨r, h⟩
  · rw [hd] at h
    cases h
  · rw [hc] at h
    cases h
  · rw [hu] at h
    cases h
  · exact absurd hf h
  · exact ⟨r, h.2.2.2, h.2.2.1⟩

end OpenWA.Webhook

/-
The delivery paths keep the invariant: a dispatch from its outbox row on
through the limiter, the hooks, the queue's producer and the direct
attempts. What they may retire a delivery on is a certificate had in the
same step.
-/
import OpenWA.Webhook.Proofs.Invariant

namespace OpenWA.Webhook

variable {cfg : Config} {w v : World} {k j : Nat} {ok inWindow : Bool}

-- ======== the delivery paths

theorem Inv.openRow (h : Inv w) : Leads Inv (w.openRow k ok) := by
  unfold World.openRow
  split
  next t ht =>
    split
    next =>
      have hl : Later w { w.setPhase k (.limited t) with
          row := some (.opened t.deliveryId t.data), opened := true } :=
        Later.of_fields id id id id id
      apply h.move hl rfl trivial
      · intro _
        exact .inr rfl
      · intro j job hj hc
        exact hl.answered (h.completed j job hj hc)
    next => exact h.setPhase trivial
  next => trivial

variable {p : Phase} {found : Lookup}

/-- A lookup that finds the webhook undeliverable certifies. -/
theorem Inv.undeliverable (h : Inv w) (hp : ∀ v, v.undeliverable = true → PhaseOk v p) :
    Inv { w.setPhase k p with undeliverable := true } := by
  have hl : Later w { w.setPhase k p with undeliverable := true } :=
    Later.of_fields id id (fun _ => rfl) id id
  exact h.quiet hl rfl (hp _ rfl) rfl rfl rfl

/-- So does a success. -/
theorem Inv.answered (h : Inv w) (hp : ∀ v, v.delivered = true → PhaseOk v p) :
    Inv { w.setPhase k p with delivered := true } := by
  have hl : Later w { w.setPhase k p with delivered := true } :=
    Later.of_fields (fun _ => rfl) id id id id
  exact h.quiet hl rfl (hp _ rfl) rfl rfl rfl

theorem certified_of_undeliverable (h : v.undeliverable = true) :
    Certified v := .inr (.inr (.inl h))

theorem Inv.gate (h : Inv w) : Leads Inv (w.gate k found) := by
  unfold World.gate
  split
  next t ht =>
    cases found with
    | undeliverable =>
      exact h.undeliverable fun v hv =>
        ⟨certified_of_undeliverable hv, trivial⟩
    | deliverable | unreadable => exact h.setPhase trivial
  next => trivial

theorem Inv.runHooks {result : Preflight} (h : Inv w) : Leads Inv (w.runHooks cfg k result) := by
  unfold World.runHooks
  split
  next t ht =>
    cases result with
    | cancelled =>
      have hl : Later w { w.setPhase k (World.finish t .cancelled) with
          cancelled := true } := Later.of_fields id (fun _ => rfl) id id id
      apply h.quiet hl rfl _ rfl rfl rfl
      apply phaseOk_finish
      intro _ _
      exact .inr (.inl rfl)
    | refused error => exact h.setPhase trivial
    | ready retries =>
      dsimp only
      split <;> exact h.setPhase trivial
  next => trivial

/-- A job that waits decides nothing. -/
theorem Inv.addWaiting {job : Job} (h : Inv w)
    (hjob : job.state = .waiting) : Inv { w with jobs := Function.update w.jobs j (some job) } := by
  apply h.updateJob
  intro job' hjob' hc
  obtain rfl := Option.some.inj hjob'
  rw [hjob] at hc
  cases hc

theorem Inv.addJob {stored told : Bool} (h : Inv w) : Leads Inv (w.addJob k stored told) := by
  unfold World.addJob
  split
  next t retries ht =>
    cases stored with
    | true =>
      refine (h.addWaiting ?_).setPhase ?_
      · rfl
      · cases told <;> trivial
    | false => exact h.setPhase trivial
  next => trivial

theorem stale_markQueued {deliveryId : Nat} {r : OutboxRow}
    (h : r.stale = true) : (r.markQueued deliveryId).stale = true := by
  unfold OutboxRow.markQueued
  rw [if_pos h]
  unfold OutboxRow.stale at h ⊢
  have hp := (Bool.and_eq_true_iff.1 h).2
  simpa [OutboxState.unsettled] using hp

theorem Inv.mark (h : Inv w) : Leads Inv (w.mark k ok) := by
  unfold World.mark
  split
  next t ht =>
    have hp : PhaseOk w (World.finish t .enqueued) := phaseOk_finish fun hne => absurd rfl hne
    split
    next => exact (h.setPhase hp).setRow fun r => stale_markQueued
    next => exact h.setPhase hp
  next => trivial

theorem phaseOk_retry {t : Task} {attempt retries : Nat} {error : Text} :
    PhaseOk w (World.retry cfg t attempt retries error) := by
  unfold World.retry
  by_cases hagain : attempt < (if t.single then 1 else retries)
  · rw [if_pos hagain]
    trivial
  · rw [if_neg hagain]
    trivial

theorem Inv.lookup (h : Inv w) : Leads Inv (w.lookup cfg k found) := by
  unfold World.lookup
  split
  next t attempt retries ht =>
    cases found with
    | deliverable retryCount => exact h.setPhase trivial
    | undeliverable =>
      exact h.undeliverable fun v hv =>
        phaseOk_finish fun _ _ => certified_of_undeliverable hv
    | unreadable error => exact h.setPhase phaseOk_retry
  next => trivial

theorem Inv.post {answer : Answer} (h : Inv w) : Leads Inv (w.post cfg k answer) := by
  unfold World.post
  split
  next t attempt retries ht =>
    cases answer with
    | success => exact h.answered fun v hv => hv
    | failure error => exact h.setPhase phaseOk_retry
  next => trivial

/-- After a success the failure rows go. -/
theorem Inv.clearRows (h : Inv w) (hd : w.delivered = true) :
    Inv { w with failures := if ok then [] else w.failures } where
  safe := fun _ => .inl (.inl hd)
  phase := fun k => PhaseOk.later (Later.of_delivered hd) (h.phase k)
  completed := h.completed

theorem Inv.clear (h : Inv w) : Leads Inv (w.clear k ok) := by
  unfold World.clear
  split
  next t ht =>
    have hd : w.delivered = true := h.phaseOk ht
    have hp : PhaseOk w (World.finish t .delivered) :=
      phaseOk_finish fun _ _ => certified_of_delivered hd
    have hset : Inv (w.setPhase k (World.finish t .delivered)) := h.setPhase hp
    exact hset.clearRows hd
  next => trivial

end OpenWA.Webhook

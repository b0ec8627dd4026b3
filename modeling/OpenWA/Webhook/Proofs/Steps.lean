/-
Records, closes, the reconciler and the workers keep the invariant.
-/
import OpenWA.Webhook.Proofs.Paths
import OpenWA.Webhook.Proofs.Recorder

namespace OpenWA.Webhook

variable {cfg : Config} {w v : World} {k j : Nat} {ok inWindow : Bool}

-- ======== records and closes

variable {after : After} {result : Option Bool}

theorem phaseOk_afterRecord (h : ∀ b, result = some b → Certified w) :
    PhaseOk w (World.afterRecord after result) := by
  cases result with
  | none =>
    cases after with
    | outcome t =>
      exact phaseOk_finish fun _ hne => absurd rfl hne
    | _ => trivial
  | some b =>
    have hc := h b rfl
    cases after with
    | outcome t => exact phaseOk_finish fun _ _ => hc
    | shed => trivial
    | exhausted | job | stalled => exact ⟨hc, trivial⟩

theorem Inv.failUnrecorded (h : Inv w) : Inv (w.failUnrecorded after result) := by
  unfold World.failUnrecorded
  split
  next => exact h.setJob (fun hc => by cases hc)
  next => exact h

/-- Failure rows change under a recorder. -/
theorem Inv.setFailures {fs : List Failure} (h : Inv w)
    (hl : Later w { w with failures := fs }) : Inv { w with failures := fs } where
  safe := fun ho => Safe.later hl rfl (h.safe ho)
  phase := fun k => PhaseOk.later hl (h.phase k)
  completed := fun j job hj hc => hl.answered (h.completed j job hj hc)

theorem Inv.record (h : Inv w) : Leads Inv (w.record k ok inWindow) := by
  unfold World.record
  split
  next after input stage hk =>
    have hstage : StageOk w stage := h.phaseOk hk
    have hrec := recordOk input ok inWindow hstage
    unfold Records at hrec
    dsimp only at hrec ⊢
    generalize Webhook.record input stage ok inWindow w.failures = recorded at hrec ⊢
    have hset : Inv { w with failures := recorded.1 } := h.setFailures hrec.later
    split
    next stage' hnext => exact hset.setPhase (hrec.next stage' hnext)
    next result hanswer =>
      apply hset.failUnrecorded.setPhase
      apply phaseOk_afterRecord
      intro b hb
      rw [hb] at hanswer ⊢
      have hc := hrec.answer b hanswer
      unfold World.failUnrecorded
      split <;> exact hc
  next => trivial

theorem Inv.afterClose {next : Then} (h : Inv w) (hn : ThenOk w next) :
    Inv (w.afterClose k next) := by
  cases next with
  | done => exact h.setPhase trivial
  | complete j => exact (h.setJob fun _ => hn).setPhase trivial
  | clear j =>
    have hp : PhaseOk w (.jobClearing j) := hn
    exact h.setPhase hp
  | failJob j => exact (h.setJob fun hc => by cases hc).setPhase trivial

/-- A certified delivery may lose its outbox row. -/
theorem Inv.dropRow {row : Option OutboxRow} (h : Inv w)
    (hc : Certified w) : Inv { w with row } where
  safe := fun _ => .inl hc
  phase := fun k =>
    PhaseOk.later (Later.of_fields id id id id id) (h.phase k)
  completed := h.completed

theorem certified_afterClose {next : Then} (h : Certified w) : Certified (w.afterClose k next) := by
  cases next <;> exact h

theorem Inv.close (h : Inv w) : Leads Inv (w.close k ok) := by
  unfold World.close
  split
  next state next hk =>
    have hp : Certified w ∧ ThenOk w next := h.phaseOk hk
    split
    next =>
      exact (h.afterClose hp.2).dropRow (certified_afterClose hp.1)
    next => exact h.afterClose hp.2
  next => trivial

-- ======== the reconciler

variable {found : Lookup}

theorem Inv.sweepLookup (h : Inv w) : Leads Inv (w.sweepLookup k found) := by
  unfold World.sweepLookup
  split
  next copy data hk =>
    cases found with
    | undeliverable =>
      exact h.undeliverable fun v hv =>
        ⟨certified_of_undeliverable hv, trivial⟩
    | deliverable | unreadable => exact h.setPhase trivial
  next => trivial

theorem Inv.sweepJobCompleted (h : Inv w) : Leads Inv (w.sweepJobCompleted k ok) := by
  unfold World.sweepJobCompleted
  split
  next copy data hk =>
    split
    next hdone =>
      -- a completed job has decided the delivery
      have hjob := (Bool.and_eq_true_iff.1 hdone).2
      cases hj : w.jobs copy.deliveryId with
      | none =>
        rw [hj] at hjob
        cases hjob
      | some job =>
        rw [hj] at hjob
        have hc : job.state = .completed := of_decide_eq_true hjob
        have ha := h.completed copy.deliveryId job hj hc
        exact h.setPhase ⟨ha.certified, trivial⟩
    next => exact h.setPhase trivial
  next => trivial

theorem Inv.sweepBudget (h : Inv w) : Leads Inv (w.sweepBudget cfg k ok) := by
  unfold World.sweepBudget
  have hkept : w.failures.any Failure.terminal = true → TerminalKept w := .inr
  repeat' split
  all_goals first
    | exact h.setPhase trivial
    | exact h.setPhase (hkept (by assumption))
    | exact h.setPhase ⟨(hkept (by assumption)).certified, trivial⟩
    | trivial

theorem Inv.sweepRetain (h : Inv w) : Leads Inv (w.sweepRetain k ok inWindow) := by
  unfold World.sweepRetain
  split
  next copy data hk =>
    have hkept : TerminalKept w := h.phaseOk hk
    split
    next =>
      have hc : PhaseOk w (.closing .failed .done) := ⟨hkept.certified, trivial⟩
      have hset : Inv (w.setPhase k (.closing .failed .done)) := h.setPhase hc
      cases inWindow with
      | true => exact hset.setFailures (Later.of_map terminal_retain)
      | false => exact hset
    next => exact h.setPhase trivial
  next => trivial

theorem stale_countAttempt {attempts : Nat} {r : OutboxRow}
    (h : r.stale = true) : (r.countAttempt attempts).stale = true := by
  unfold OutboxRow.countAttempt
  split <;> exact h

theorem Inv.sweepCount {oneDirectAttempt : Bool} (h : Inv w) :
    Leads Inv (w.sweepCount k ok oneDirectAttempt) := by
  unfold World.sweepCount
  split
  next copy data hk =>
    split
    next => exact h.mintPhase trivial
    next =>
      split
      next =>
        refine (h.mintPhase ?_).setRow fun r => stale_countAttempt
        trivial
      next => exact h.setPhase trivial
  next => trivial

-- ======== the redrive

theorem terminal_bump (x : Failure) (h : x.terminal = true) :
    (if x.terminal then { x with attempts := x.attempts + 1 }
      else x : Failure).terminal = true := by
  rw [if_pos h]
  show decide (0 < x.attempts + 1) = true
  simp

section

variable (h : Inv w)
include h

theorem Inv.bump : Leads Inv (w.bump k ok) := by
  unfold World.bump
  split
  next =>
    have hset : Inv (w.setPhase k .idle) := h.setPhase trivial
    cases ok with
    | true => exact hset.setFailures (Later.of_map terminal_bump)
    | false => exact hset
  next => trivial

-- ======== the workers

theorem Inv.failAttempt {job : Job} {error : Text} : Inv (w.failAttempt cfg k j job error) := by
  unfold World.failAttempt
  split
  next => exact h.setPhase trivial
  next =>
    have hset : Inv (w.setPhase k .idle) := h.setPhase trivial
    apply hset.updateJob
    intro job' hjob' hc
    obtain ⟨job'', -, rfl⟩ := Option.map_eq_some_iff.1 hjob'
    cases hc

theorem Inv.jobLookup : Leads Inv (w.jobLookup cfg k found) := by
  unfold World.jobLookup
  split
  next j job hk =>
    cases found with
    | deliverable => exact h.setPhase trivial
    | undeliverable =>
      exact h.undeliverable fun v hv =>
        ⟨certified_of_undeliverable hv, .inr hv⟩
    | unreadable error => exact h.failAttempt
  next => trivial

theorem Inv.jobPost {answer : Answer} : Leads Inv (w.jobPost cfg k answer) := by
  unfold World.jobPost
  split
  next j job hk =>
    cases answer with
    | success =>
      exact h.answered fun v hv => ⟨certified_of_delivered hv, hv⟩
    | failure error => exact h.failAttempt
  next => trivial

theorem Inv.jobClear : Leads Inv (w.jobClear k ok) := by
  unfold World.jobClear
  split
  next j hk =>
    have hd : w.delivered = true := h.phaseOk hk
    have hset : Inv ((w.setJob j .completed).setPhase k .idle) :=
      (h.setJob fun _ => .inl hd).setPhase trivial
    exact hset.clearRows hd
  next => trivial

theorem Inv.stallLookup : Leads Inv (w.stallLookup cfg k found) := by
  unfold World.stallLookup
  split
  next job hk =>
    cases found with
    | undeliverable => exact h.undeliverable fun _ _ => trivial
    | deliverable | unreadable => exact h.setPhase trivial
  next => trivial

end

end OpenWA.Webhook

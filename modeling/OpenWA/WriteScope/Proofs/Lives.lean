/-
The generations part of the invariant: who retires a generation and whose
scopes it holds.
-/
import OpenWA.WriteScope.Proofs.Table

namespace OpenWA.WriteScope

set_option linter.unusedSectionVars false

open Function (update update_self update_of_ne update_apply)

variable {κ : Type} [DecidableEq κ] {w v : World κ} {k : κ} {s i c x : Nat}
  {scope : Scope κ} {closing : Closing κ}

/-- A generation is of one session. -/
theorem Lives.session_eq {k' : κ} {s' : Nat} (h : Lives w)
    (hs : w.sessions k = some s) (hs' : w.sessions k' = some s')
    (hg : w.generation s' = w.generation s) : k' = k := by
  have howner := h.stateOwner _ _ hs'
  rw [hg, h.stateOwner _ _ hs] at howner
  exact (Option.some.inj howner).symm

theorem Lives.generation_lt (h : Lives w) (k : κ) (s : Nat) (hs : w.sessions k = some s) :
    w.generation s < w.nextGeneration := h.owned_lt _ _ (h.stateOwner _ _ hs)

theorem Lives.scope_lt (h : Lives w) (i : Nat) (scope : Scope κ) (hi : w.scopes i = some scope) :
    scope.generation < w.nextGeneration := h.owned_lt _ _ (h.scopeOwner _ _ hi)

theorem Lives.closing_lt (h : Lives w) (c : Nat) (closing : Closing κ)
    (hc : w.closings c = some closing) : closing.generation < w.nextGeneration :=
  h.owned_lt _ _ (h.closingOwner _ _ hc)

/-- The fresh generation is nobody's yet. -/
theorem retired_fresh {g : Nat} (hg : g < w.nextGeneration) :
    update w.retired w.nextGeneration false g = w.retired g := update_of_ne (Nat.ne_of_lt hg) _ _

theorem Lives.newState (h : Lives w) (ht : Table w) : Lives (w.newState k) := by
  have hstate := ht.state_lt
  have hscope := ht.scope_lt
  have hclosing := ht.closing_lt
  have hglt := h.generation_lt
  have hslt := h.scope_lt
  have hclt := h.closing_lt
  obtain ⟨hlt, howner, hscopeOwner, hclosingOwner, hretired, hclosingRetired,
    hclosingCurrent, hcurrent, hfenced⟩ := h
  constructor
  case fenced =>
    intro i scope hi ho
    rw [show (w.newState k).retired scope.generation = _ from retired_fresh (hslt _ _ hi)]
    exact hfenced _ _ hi ho
  all_goals
    unfold World.newState
    grind [update_apply]

theorem Lives.stateFor (h : Lives w) (ht : Table w) : Lives (w.stateFor k).1 := by
  unfold World.stateFor
  split
  next => exact h
  next => exact h.newState ht

/-- A state with a closing on it, seen from its session. -/
theorem closing_ne_zero_iff (ht : Table w) (hs : w.sessions k = some s) :
    w.closing s ≠ 0 ↔ ∃ c closing, w.closings c = some closing
      ∧ closing.sessionId = k ∧ w.releasedAt c = none := by
  rw [← Nat.pos_iff_ne_zero, (ht.closing _ _ hs).pos_iff]
  constructor
  · rintro ⟨c, closing, hc, rfl, hr⟩
    exact ⟨c, closing, hc, ht.injective _ _ _ (ht.closingMapped _ _ hc hr) hs, hr⟩
  · rintro ⟨c, closing, hc, rfl, hr⟩
    have hmapped := ht.closingMapped _ _ hc hr
    rw [hs] at hmapped
    exact ⟨c, closing, hc, (Option.some.inj hmapped).symm, hr⟩

theorem Lives.captureOn (h : Lives w) (ht : Table w)
    (hp : Past w w.now) (hs : w.sessions k = some s) : Lives (w.captureOn i k s) := by
  refine { h with scopeOwner := ?owner, current := ?current, fenced := ?fenced }
  case owner =>
    have howner := h.stateOwner _ _ hs
    have hold := h.scopeOwner
    unfold World.captureOn
    grind [update_apply]
  case current =>
    have hold := h.current
    unfold World.captureOn
    grind [update_apply]
  case fenced =>
    intro i' scope hi' ho
    rcases of_update hi' with ⟨rfl, ⟨⟩⟩ | ⟨-, hi'⟩
    · -- a scope captured now is fenced by the closings that are not released
      change w.retired (w.generation s) = true ↔ _
      rw [h.retired _ _ hs, closing_ne_zero_iff ht hs]
      refine exists_congr fun c => exists_congr fun closing =>
        and_congr_right fun _ => and_congr_right fun _ => ?_
      constructor
      · intro hr t ht'
        rw [show w.releasedAt c = some t from ht'] at hr
        cases hr
      · intro hf
        cases hr : w.releasedAt c with
        | none => rfl
        | some t =>
          have hlt : w.now < t := hf t hr
          have hpast := hp.released _ _ hr
          omega
    · exact h.fenced _ _ hi' ho

theorem Lives.closeOn (h : Lives w) (ht : Table w)
    (hs : w.sessions k = some s) (hc : w.closings c = none)
    (hr : w.releasedAt c = none) : Lives (w.closeOn c k s) := by
  refine
    { h with
      closingOwner := ?owner, retired := ?retired
      closingRetired := ?closingRetired, closingCurrent := ?closingCurrent
      current := ?current, fenced := ?fenced }
  case owner =>
    have howner := h.stateOwner _ _ hs
    have hold := h.closingOwner
    unfold World.closeOn
    grind [update_apply]
  case retired =>
    intro k' s' hs'
    change w.sessions k' = some s' at hs'
    have hold := h.retired _ _ hs'
    change update w.retired (w.generation s) true (w.generation s') = true ↔
      update w.closing s (w.closing s + 1) s' ≠ 0
    by_cases hg : w.generation s' = w.generation s
    · obtain rfl := h.session_eq hs hs' hg
      rw [hs] at hs'
      obtain rfl := Option.some.inj hs'
      simp
    · have hss : s' ≠ s := fun heq => hg (congrArg w.generation heq)
      rw [update_of_ne hg, update_of_ne hss]
      exact hold
  case closingRetired | closingCurrent | current =>
    have hretired := h.closingRetired
    have hclosing := h.closingCurrent
    have hscope := h.current
    unfold World.closeOn
    grind [update_apply]
  case fenced =>
    intro i scope hi ho
    change update w.retired (w.generation s) true scope.generation = true ↔ _
    have hold := h.fenced _ _ hi ho
    have hmapped := ht.scopeMapped _ _ hi ho
    constructor
    · intro hret
      by_cases hbefore : w.retired scope.generation = true
      · obtain ⟨c', closing, hc', hsid, hf⟩ := hold.1 hbefore
        have hne : c' ≠ c := by
          rintro rfl
          rw [hc] at hc'
          cases hc'
        refine ⟨c', closing, ?_, hsid, hf⟩
        change update w.closings c _ c' = some closing
        rw [update_of_ne hne]
        exact hc'
      · -- it is this closing that retires the scope's generation
        have hg : scope.generation = w.generation s := by
          by_contra hne
          rw [update_of_ne hne] at hret
          exact hbefore hret
        have howner := h.scopeOwner _ _ hi
        rw [hg, h.stateOwner _ _ hs] at howner
        refine ⟨c, _, update_self _ _ _, Option.some.inj howner, ?_⟩
        intro t ht'
        rw [show w.releasedAt c = some t from ht'] at hr
        cases hr
    · rintro ⟨c', closing, hc', hsid, hf⟩
      by_cases hbefore : w.retired scope.generation = true
      · by_cases hg : scope.generation = w.generation s
        · rw [hg, update_self]
        · rw [update_of_ne hg]
          exact hbefore
      · rcases of_update hc' with ⟨rfl, ⟨⟩⟩ | ⟨-, hc'⟩
        · have hcur := h.current _ _ hi ho (by simpa using hbefore)
          rw [← hsid, hs] at hmapped
          rw [hcur, ← Option.some.inj hmapped, update_self]
        · exact absurd (hold.2 ⟨c', closing, hc', hsid, hf⟩) hbefore

theorem Lives.uncapture {g : Nat} (h : Lives w) : Lives (w.uncapture i g s) := by
  have hopen : ∀ j, update w.closedAt i (some w.now) j = none → w.closedAt j = none := by
    grind [update_apply]
  exact
    { h with
      current := fun j scope hj ho => h.current j scope hj (hopen j ho)
      fenced := fun j scope hj ho => h.fenced j scope hj (hopen j ho) }

/-- A release takes no scope out of the fence: they were all captured
before it. -/
theorem fences_leave (hp : Past w w.now) (hr : w.releasedAt c = none)
    (hi : w.scopes i = some scope) {c' : Nat} :
    Fences (w.leave c s) c' scope ↔ Fences w c' scope := by
  unfold Fences World.leave
  by_cases hcc : c' = c
  · subst hcc
    simp only [update_self, Option.some.injEq, hr]
    constructor
    · intro _ t ht
      cases ht
    · rintro - t rfl
      exact hp.captured _ _ hi
  · simp only [ne_eq, hcc, not_false_eq_true, update_of_ne]

theorem Lives.release (h : Lives w) (ht : Table w) (hp : Past w w.now)
    (hc : w.closings c = some closing) (hr : w.releasedAt c = none) :
    Lives ((w.leave c closing.state).regenerate closing.sessionId closing.state) := by
  have hs := ht.closingMapped _ _ hc hr
  have hpos := (closing_ne_zero_iff ht hs).2 ⟨c, closing, hc, rfl, hr⟩
  have hret := (h.retired _ _ hs).2 hpos
  have hfenced : ∀ i scope, w.scopes i = some scope → w.closedAt i = none →
      (w.retired scope.generation = true ↔
        ∃ c' closing', w.closings c' = some closing'
          ∧ closing'.sessionId = scope.sessionId
          ∧ Fences (w.leave c closing.state) c' scope) := by
    intro i scope hi ho
    rw [h.fenced _ _ hi ho]
    refine exists_congr fun c' => exists_congr fun closing' =>
      and_congr_right fun _ => and_congr_right fun _ => ?_
    exact (fences_leave hp hr hi).symm
  have hreleased : ∀ c', update w.releasedAt c (some w.now) c' = none → w.releasedAt c' = none := by
    grind [update_apply]
  unfold World.regenerate
  split
  next hlast =>
    have hlt := h.owned_lt
    have hglt := h.generation_lt
    have hslt := h.scope_lt
    have hclt := h.closing_lt
    have howner := h.stateOwner
    have hscopeOwner := h.scopeOwner
    have hclosingOwner := h.closingOwner
    have hretired := h.retired
    change update w.closing closing.state _ closing.state = 0 at hlast
    rw [update_self] at hlast
    -- the fresh generation is nobody's, and the one it replaces is retired
    constructor
    case closingRetired =>
      intro c' closing' hc'
      exact (retired_fresh (hclt _ _ hc')).trans (h.closingRetired _ _ hc')
    case closingCurrent =>
      intro c' closing' hc' hr'
      have hnone : ∀ j, ¬ ClosingOn (w.leave c closing.state) closing.state j := by
        have hcount := (ht.leave hc hr).closing _ _ hs
        rw [show (w.leave c closing.state).closing closing.state = 0 from
          (update_self _ _ _).trans hlast] at hcount
        exact counts_zero_iff.1 hcount
      have hstate : closing'.state ≠ closing.state :=
        fun hstate => hnone c' ⟨closing', hc', hstate, hr'⟩
      change closing'.generation = update w.generation closing.state w.nextGeneration closing'.state
      rw [update_of_ne hstate]
      exact h.closingCurrent _ _ hc' (hreleased _ hr')
    case current =>
      intro i scope hi ho hlive
      replace hlive := (retired_fresh (hslt _ _ hi)).symm.trans hlive
      have hcur := h.current _ _ hi ho hlive
      have hstate : scope.state ≠ closing.state := by
        intro hstate
        rw [hcur, hstate, hret] at hlive
        cases hlive
      change scope.generation = update w.generation closing.state w.nextGeneration scope.state
      rw [update_of_ne hstate]
      exact hcur
    case fenced =>
      intro i scope hi ho
      exact (Eq.congr_left (retired_fresh (hslt _ _ hi))).trans (hfenced _ _ hi ho)
    all_goals
      unfold World.leave
      grind [update_apply]
  next hmore =>
    change ¬ update w.closing closing.state _ closing.state = 0 at hmore
    exact
      { h with
        retired := by
          intro k' s' hs'
          rw [show (w.leave c closing.state).retired = w.retired from rfl,
            show (w.leave c closing.state).generation = w.generation from rfl, h.retired _ _ hs']
          change _ ↔ update w.closing closing.state _ s' ≠ 0
          grind [update_apply]
        closingCurrent := fun c' closing' hc' hr' =>
          h.closingCurrent _ _ hc' (hreleased _ hr')
        fenced := hfenced }

theorem Lives.releaseIdle (h : Lives w) : Lives (w.releaseIdle k s) := by
  unfold World.releaseIdle
  split
  next =>
    have hkeep : ∀ k' s', update w.sessions k none k' = some s' → w.sessions k' = some s' := by
      grind [update_apply]
    exact
      { h with
        stateOwner := fun _ _ hs => h.stateOwner _ _ (hkeep _ _ hs)
        retired := fun _ _ hs => h.retired _ _ (hkeep _ _ hs) }
  next => exact h

end OpenWA.WriteScope

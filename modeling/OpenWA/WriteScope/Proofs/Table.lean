/-
The table part of the invariant: the map of the sessions, the counters of
a state and who refers to it.
-/
import OpenWA.WriteScope.Proofs.Invariant

namespace OpenWA.WriteScope

set_option linter.unusedSectionVars false

open Function (update update_self update_of_ne update_apply)

variable {κ : Type} [DecidableEq κ] {w v : World κ} {k : κ} {s i c x : Nat}
  {scope : Scope κ} {closing : Closing κ}

-- ======== a new state

theorem session_of_newState {k' : κ}
    (h : (w.newState k).sessions k' = some s) :
    (k' = k ∧ s = w.nextState) ∨ w.sessions k' = some s := by
  rcases of_update h with ⟨rfl, ⟨⟩⟩ | ⟨-, h⟩
  · exact .inl ⟨rfl, rfl⟩
  · exact .inr h

/-- A session with a state is not touched by making one for another. -/
theorem newState_session {k' : κ} (hk : w.sessions k = none)
    (h : w.sessions k' = some s) : (w.newState k).sessions k' = some s := by
  have hne : k' ≠ k := by
    rintro rfl
    rw [hk] at h
    cases h
  change update w.sessions k (some w.nextState) k' = some s
  rw [update_of_ne hne]
  exact h

theorem Table.newState (h : Table w) (hk : w.sessions k = none) : Table (w.newState k) where
  injective := by
    intro k₁ k₂ s h₁ h₂
    rcases session_of_newState h₁ with ⟨hk₁, hs₁⟩ | h₁
    · rcases session_of_newState h₂ with ⟨hk₂, -⟩ | h₂
      · exact hk₁.trans hk₂.symm
      · have := h.state_lt _ _ h₂
        omega
    · rcases session_of_newState h₂ with ⟨-, hs₂⟩ | h₂
      · have := h.state_lt _ _ h₁
        omega
      · exact h.injective _ _ _ h₁ h₂
  state_lt := by
    intro k' s hs
    rcases session_of_newState hs with ⟨-, rfl⟩ | hs
    · exact Nat.lt_succ_self _
    · exact Nat.lt_succ_of_lt (h.state_lt _ _ hs)
  scope_lt := fun _ _ hi => Nat.lt_succ_of_lt (h.scope_lt _ _ hi)
  closing_lt := fun _ _ hc => Nat.lt_succ_of_lt (h.closing_lt _ _ hc)
  scopeMapped := fun _ _ hi ho => newState_session hk (h.scopeMapped _ _ hi ho)
  closingMapped := fun _ _ hc hr =>
    newState_session hk (h.closingMapped _ _ hc hr)
  writeMapped := fun _ _ _ hx hi hst =>
    newState_session hk (h.writeMapped _ _ _ hx hi hst)
  captures := by
    intro k' s hs
    change Counts (OpenOn w s) (update w.captures w.nextState 0 s)
    rcases session_of_newState hs with ⟨-, rfl⟩ | hs
    · rw [update_self, counts_zero_iff]
      rintro i ⟨scope, hi, hstate, -⟩
      have := h.scope_lt _ _ hi
      omega
    · have hlt := h.state_lt _ _ hs
      rw [update_of_ne (by omega)]
      exact h.captures _ _ hs
  closing := by
    intro k' s hs
    change Counts (ClosingOn w s) (update w.closing w.nextState 0 s)
    rcases session_of_newState hs with ⟨-, rfl⟩ | hs
    · rw [update_self, counts_zero_iff]
      rintro c ⟨closing, hc, hstate, -⟩
      have := h.closing_lt _ _ hc
      omega
    · have hlt := h.state_lt _ _ hs
      rw [update_of_ne (by omega)]
      exact h.closing _ _ hs
  writes := by
    intro k' s x hs
    change x ∈ update w.writes w.nextState [] s ↔ WriteOn w s x
    rcases session_of_newState hs with ⟨-, rfl⟩ | hs
    · rw [update_self]
      constructor
      · intro hx
        cases hx
      · rintro ⟨i, scope, -, hi, hstate, -⟩
        have := h.scope_lt _ _ hi
        omega
    · have hlt := h.state_lt _ _ hs
      rw [update_of_ne (by omega)]
      exact h.writes _ _ _ hs
  writer := h.writer

theorem stateFor_session (w : World κ) (k : κ) :
    (w.stateFor k).1.sessions k = some (w.stateFor k).2 := by
  unfold World.stateFor
  split
  next s hs => exact hs
  next => exact update_self _ _ _

theorem Table.stateFor (h : Table w) : Table (w.stateFor k).1 := by
  unfold World.stateFor
  split
  next => exact h
  next hk => exact h.newState hk

-- ======== counters

variable {s' j y : Nat}

theorem openOn_captureOn (hi : w.scopes i = none) (ho : w.closedAt i = none) :
    OpenOn (w.captureOn i k s) s' j ↔ (s' = s ∧ j = i) ∨ OpenOn w s' j := by
  unfold OpenOn World.captureOn
  by_cases hj : j = i
  · subst hj
    simp [hi, ho, eq_comm]
  · simp [hj]

theorem Table.captureOn (h : Table w) (hs : w.sessions k = some s)
    (hi : w.scopes i = none) (ho : w.closedAt i = none) : Table (w.captureOn i k s) := by
  have hlt := h.state_lt _ _ hs
  have hwriter := h.writer
  exact
    { h with
      scope_lt := by
        have hold := h.scope_lt
        unfold World.captureOn
        grind [update_apply]
      scopeMapped := by
        have hold := h.scopeMapped
        unfold World.captureOn
        grind [update_apply]
      writeMapped := by
        have hold := h.writeMapped
        unfold World.captureOn
        grind [update_apply]
      captures := by
        intro k' s' hs'
        refine (h.captures _ _ hs').add_at (i := i) ?_ fun _ _ => openOn_captureOn hi ho
        rintro ⟨scope, hi', -⟩
        rw [hi] at hi'
        cases hi'
      writes := by
        intro k' s' x hs'
        rw [show (w.captureOn i k s).writes = w.writes from rfl, h.writes _ _ _ hs']
        unfold WriteOn World.captureOn
        grind [update_apply]
      writer := by
        unfold World.captureOn
        grind [update_apply] }

theorem closingOn_closeOn (hc : w.closings c = none) (hr : w.releasedAt c = none) :
    ClosingOn (w.closeOn c k s) s' j ↔ (s' = s ∧ j = c) ∨ ClosingOn w s' j := by
  unfold ClosingOn World.closeOn
  by_cases hj : j = c
  · subst hj
    simp [hc, hr, eq_comm]
  · simp [hj]

theorem Table.closeOn (h : Table w) (hs : w.sessions k = some s)
    (hc : w.closings c = none) (hr : w.releasedAt c = none) :
    Table (w.closeOn c k s) :=
  { h with
    closing_lt := by
      have hlt := h.state_lt _ _ hs
      have hold := h.closing_lt
      unfold World.closeOn
      grind [update_apply]
    closingMapped := by
      have hold := h.closingMapped
      unfold World.closeOn
      grind [update_apply]
    closing := by
      intro k' s' hs'
      refine (h.closing _ _ hs').add_at (i := c) ?_ fun _ _ => closingOn_closeOn hc hr
      rintro ⟨closing, hc', -⟩
      rw [hc] at hc'
      cases hc' }

theorem openOn_uncapture {g : Nat} : OpenOn (w.uncapture i g s) s' j ↔ OpenOn w s' j ∧ j ≠ i := by
  unfold OpenOn World.uncapture
  by_cases hj : j = i
  · subst hj
    simp
  · simp [hj]

theorem Table.uncapture (h : Table w) (hi : w.scopes i = some scope)
    (ho : w.closedAt i = none) :
    Table (w.uncapture i scope.generation scope.state) :=
  { h with
    scopeMapped := by
      have hold := h.scopeMapped
      unfold World.uncapture
      grind [update_apply]
    captures := by
      intro k' s' hs'
      refine (h.captures _ _ hs').remove_at (i := i) ⟨scope, hi, rfl, ho⟩ ?_
        fun _ _ => openOn_uncapture
      rintro s' ⟨scope', hi', rfl, -⟩
      rw [Option.some.inj (hi.symm.trans hi')] }

theorem closingOn_leave : ClosingOn (w.leave c s) s' j ↔ ClosingOn w s' j ∧ j ≠ c := by
  unfold ClosingOn World.leave
  by_cases hj : j = c
  · subst hj
    simp
  · simp [hj]

theorem Table.leave (h : Table w) (hc : w.closings c = some closing)
    (hr : w.releasedAt c = none) : Table (w.leave c closing.state) :=
  { h with
    closingMapped := by
      have hold := h.closingMapped
      unfold World.leave
      grind [update_apply]
    closing := by
      intro k' s' hs'
      refine (h.closing _ _ hs').remove_at (i := c) ⟨closing, hc, rfl, hr⟩ ?_
        fun _ _ => closingOn_leave
      rintro s' ⟨closing', hc', rfl, -⟩
      rw [Option.some.inj (hc.symm.trans hc')] }

theorem Table.regenerate (h : Table w) : Table (w.regenerate k s) := by
  unfold World.regenerate
  split
  · exact { h with }
  · exact h

-- ======== writes

theorem stale_eq_false (h : ¬ w.stale i scope = true) :
    w.closedAt i = none ∧ w.retired scope.generation = false
      ∧ w.closing scope.state = 0
      ∧ w.sessions scope.sessionId = some scope.state := by
  simp only [World.stale, Bool.or_eq_true, decide_eq_true_eq, not_or,
    not_not, Bool.not_eq_true] at h
  exact ⟨by simpa using h.1.1.1, h.1.1.2, h.1.2, h.2⟩

theorem writeOn_startWrite (hx : w.writer x = none) (hi : w.scopes i = some scope) :
    WriteOn (w.startWrite x i scope.state) s' y ↔ (s' = scope.state ∧ y = x) ∨ WriteOn w s' y := by
  unfold WriteOn World.startWrite
  by_cases hy : y = x
  · subst hy
    simp [hx, hi, eq_comm]
  · simp [hy]

theorem Table.startWrite (h : Table w) (hx : w.writer x = none) (hi : w.scopes i = some scope)
    (hs : w.sessions scope.sessionId = some scope.state) :
    Table (w.startWrite x i scope.state) :=
  { h with
    writeMapped := by
      have hold := h.writeMapped
      unfold World.startWrite
      grind [update_apply]
    writes := by
      intro k' s' y hs'
      have hold := h.writes _ _ y hs'
      rw [writeOn_startWrite hx hi, ← hold]
      unfold World.startWrite
      grind [update_apply]
    writer := by
      have hold := h.writer
      unfold World.startWrite
      grind [update_apply] }

theorem writeOn_settle (hst : w.status x ≠ .over) :
    WriteOn { w with status := update w.status x .settled } s' y ↔ WriteOn w s' y := by
  unfold WriteOn
  by_cases hy : y = x
  · subst hy
    simp [hst]
  · simp [hy]

theorem Table.settle (h : Table w) (hst : w.status x ≠ .over) :
    Table { w with status := update w.status x .settled } :=
  { h with
    writeMapped := by
      have hold := h.writeMapped
      grind [update_apply]
    writes := by
      intro k' s' y hs'
      rw [writeOn_settle hst]
      exact h.writes _ _ _ hs' }

theorem writeOn_finishOn : WriteOn (w.finishOn x s) s' y ↔ WriteOn w s' y ∧ y ≠ x := by
  unfold WriteOn World.finishOn
  by_cases hy : y = x
  · subst hy
    simp
  · simp [hy]

theorem Table.finishOn (h : Table w) (hx : w.writer x = some i)
    (hi : w.scopes i = some scope) : Table (w.finishOn x scope.state) :=
  { h with
    writeMapped := by
      have hold := h.writeMapped
      unfold World.finishOn
      grind [update_apply]
    writes := by
      intro k' s' y hs'
      have hold := h.writes _ _ y hs'
      rw [writeOn_finishOn, ← hold]
      change y ∈ update w.writes scope.state _ s' ↔ _
      by_cases hss : s' = scope.state
      · subst hss
        simp
      · rw [update_of_ne hss]
        refine (and_iff_left_of_imp ?_).symm
        rintro hy rfl
        obtain ⟨i', scope', hx', hi', hstate, -⟩ := hold.1 hy
        obtain rfl := Option.some.inj (hx.symm.trans hx')
        obtain rfl := Option.some.inj (hi.symm.trans hi')
        exact hss hstate.symm }

-- ======== dropped states

/-- A state is idle when no scope, closing or write is on it. -/
theorem idle_iff (h : Table w) (hs : w.sessions k = some s) :
    w.idle s = true ↔
      (∀ i, ¬ OpenOn w s i) ∧ (∀ c, ¬ ClosingOn w s c) ∧ ∀ x, ¬ WriteOn w s x := by
  have hcap := h.captures _ _ hs
  have hclo := h.closing _ _ hs
  have hwr : w.writes s = [] ↔ ∀ x, ¬ WriteOn w s x := by
    rw [List.eq_nil_iff_forall_not_mem]
    exact forall_congr' fun x => not_congr (h.writes _ _ x hs)
  have hcap0 : w.captures s = 0 ↔ ∀ i, ¬ OpenOn w s i := by
    rw [← not_exists, ← hcap.pos_iff]
    omega
  have hclo0 : w.closing s = 0 ↔ ∀ c, ¬ ClosingOn w s c := by
    rw [← not_exists, ← hclo.pos_iff]
    omega
  rw [← hcap0, ← hclo0, ← hwr]
  simp [World.idle, and_assoc]

/-- Dropping an idle state leaves nothing behind that needs it. -/
theorem Table.drop (h : Table w) (hs : w.sessions k = some s)
    (hidle : w.idle s = true) : Table { w with sessions := update w.sessions k none } := by
  obtain ⟨hcap, hclo, hwr⟩ := (idle_iff h hs).1 hidle
  have hkeep : ∀ k' s', update w.sessions k none k' = some s' → w.sessions k' = some s' := by
    grind [update_apply]
  have hother : ∀ k' s', w.sessions k' = some s' → s' ≠ s →
      update w.sessions k none k' = some s' := by
    grind [update_apply]
  exact
    { injective := fun _ _ _ h₁ h₂ =>
        h.injective _ _ _ (hkeep _ _ h₁) (hkeep _ _ h₂)
      state_lt := fun _ _ hs' => h.state_lt _ _ (hkeep _ _ hs')
      scope_lt := h.scope_lt
      closing_lt := h.closing_lt
      scopeMapped := fun i scope hi ho =>
        hother _ _ (h.scopeMapped _ _ hi ho) fun hstate => hcap i ⟨scope, hi, hstate, ho⟩
      closingMapped := fun c closing hc hr =>
        hother _ _ (h.closingMapped _ _ hc hr) fun hstate => hclo c ⟨closing, hc, hstate, hr⟩
      writeMapped := fun x i scope hx hi hst =>
        hother _ _ (h.writeMapped _ _ _ hx hi hst)
          fun hstate => hwr x ⟨i, scope, hx, hi, hstate, hst⟩
      captures := fun _ _ hs' => h.captures _ _ (hkeep _ _ hs')
      closing := fun _ _ hs' => h.closing _ _ (hkeep _ _ hs')
      writes := fun _ _ _ hs' => h.writes _ _ _ (hkeep _ _ hs')
      writer := h.writer }

theorem Table.releaseIdle (h : Table w) : Table (w.releaseIdle k s) := by
  unfold World.releaseIdle
  split
  next hc =>
    rw [Bool.and_eq_true, decide_eq_true_eq] at hc
    exact h.drop hc.2 hc.1
  next => exact h

end OpenWA.WriteScope

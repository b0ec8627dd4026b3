/-
The listener part of the invariant: the loop of a closing finds exactly
the listeners that wait, and leaves none.
-/
import OpenWA.WriteScope.Proofs.Lives

namespace OpenWA.WriteScope

set_option linter.unusedSectionVars false

open Function (update update_self update_of_ne update_apply)

variable {κ : Type} [DecidableEq κ] {w v : World κ} {k : κ}
  {s i c l g : Nat} {scope : Scope κ} {closing : Closing κ}
  {listener : Listener}

section

variable (h : Heard w)
include h

-- ======== the loops

/-- No loop that concerns a listener that waits is over. -/
theorem Heard.not_returned (hw : Waits w l listener) (hcon : Concerns w c listener) :
    w.returnedAt c = none := by
  obtain ⟨hl, hlive, hruns, hd, ho⟩ := hw
  by_contra hret
  obtain ⟨t, ht⟩ := Option.ne_none_iff_exists'.1 hret
  rcases h.missed _ _ _ _ hl hlive hruns hcon ht with ⟨t', hd', -⟩ | ⟨t', ho', -⟩
  · cases hd.symm.trans hd'
  · cases ho.symm.trans ho'

/-- What a loop finds, its closing concerns. -/
theorem Heard.concerns (hv : Lives w) (hc : w.closings c = some closing)
    (hmem : l ∈ w.listening closing.generation) :
    ∃ listener, Waits w l listener ∧ Concerns w c listener := by
  obtain ⟨listener, scope, hw, hi, hgen⟩ := (h.listed _ _).1 hmem
  have howner := hv.scopeOwner _ _ hi
  rw [hgen, hv.closingOwner _ _ hc] at howner
  exact ⟨listener, hw, scope, closing, hi, hc, Option.some.inj howner,
    h.early _ _ _ _ _ hw.1 hw.2.1 hi hc hgen.symm⟩

/-- No listener is left to a loop that is over. -/
theorem Heard.empty (hv : Lives w) (hc : w.closings c = some closing)
    (hret : w.returnedAt c ≠ none) : w.listening closing.generation = [] := by
  refine List.eq_nil_iff_forall_not_mem.2 fun l hmem => hret ?_
  obtain ⟨listener, hw, hcon⟩ := h.concerns hv hc hmem
  exact h.not_returned hw hcon

-- ======== new generations

/-- A generation nobody has yet is empty, and stays nobody's. -/
theorem Heard.listed_fresh
    (hlt : ∀ i scope, w.scopes i = some scope → scope.generation < w.nextGeneration) {l g : Nat} :
    l ∈ update w.listening w.nextGeneration [] g ↔ ∃ listener scope,
      Waits w l listener ∧ w.scopes listener.scope = some scope ∧ scope.generation = g := by
  by_cases hg : g = w.nextGeneration
  · subst hg
    rw [update_self]
    constructor
    · intro hmem
      cases hmem
    · rintro ⟨listener, scope, -, hi, hgen⟩
      have := hlt _ _ hi
      omega
  · rw [update_of_ne hg]
    exact h.listed l g

theorem Heard.newState (hl : Lives w) (ht : Table w) : Heard (w.newState k) :=
  { h with
    listed := fun _ _ => h.listed_fresh hl.scope_lt
    current := by
      intro l listener scope hw hi
      have hlt := ht.scope_lt _ _ hi
      change update w.generation w.nextState _ scope.state = _
      rw [update_of_ne (by omega)]
      exact h.current _ _ _ hw hi }

theorem Heard.stateFor (hl : Lives w) (ht : Table w) : Heard (w.stateFor k).1 := by
  unfold World.stateFor
  split
  · exact h
  · exact h.newState hl ht

/-- The last release leaves a generation whose loops are over. -/
theorem Heard.regenerate
    (hslt : ∀ i scope, w.scopes i = some scope → scope.generation < w.nextGeneration)
    (hempty : w.listening (w.generation s) = []) : Heard (w.regenerate k s) := by
  unfold World.regenerate
  split
  · exact
      { h with
        listed := fun _ _ => h.listed_fresh hslt
        current := by
          intro l listener scope hw hi
          have hcur := h.current _ _ _ hw hi
          have hne : scope.state ≠ s := by
            intro heq
            have hmem : l ∈ w.listening (w.generation s) :=
              (h.listed _ _).2 ⟨listener, scope, hw, hi, by rw [← heq, hcur]⟩
            rw [hempty] at hmem
            cases hmem
          change update w.generation s _ scope.state = _
          rw [update_of_ne hne]
          exact hcur }
  · exact h

-- ======== scopes and closings

theorem Heard.captureOn (hi : w.scopes i = none) : Heard (w.captureOn i k s) := by
  have hscope : ∀ l listener, w.listeners l = some listener →
      (w.captureOn i k s).scopes listener.scope = w.scopes listener.scope := by
    intro l listener hl
    have hne : listener.scope ≠ i := by
      rintro rfl
      have hsome := h.scope _ _ hl
      rw [hi] at hsome
      cases hsome
    exact update_of_ne hne _ _
  have hconcerns : ∀ l listener c, w.listeners l = some listener →
      (Concerns (w.captureOn i k s) c listener ↔ Concerns w c listener) := by
    intro l listener c hl
    unfold Concerns
    rw [hscope _ _ hl]
    rfl
  constructor
  · intro l listener hl
    rw [hscope _ _ hl]
    exact h.scope _ _ hl
  · intro l g
    refine (h.listed l g).trans (exists_congr fun listener =>
      exists_congr fun scope => and_congr_right fun hw => ?_)
    rw [hscope _ _ hw.1]
  · exact h.subscribed
  · intro l listener scope hw hs
    rw [hscope _ _ hw.1] at hs
    exact h.current _ _ _ hw hs
  · intro l listener scope c closing hl hlive hs
    rw [hscope _ _ hl] at hs
    exact h.early _ _ _ _ _ hl hlive hs
  · intro l listener hl hlive
    refine (h.once _ _ hl hlive).imp id ?_
    rintro ⟨run, honly, hcon, hrest⟩
    exact ⟨run, honly, (hconcerns _ _ _ hl).2 hcon, hrest⟩
  · intro l listener c t hl hlive hruns hcon
    exact h.missed _ _ _ _ hl hlive hruns ((hconcerns _ _ _ hl).1 hcon)
  · intro l listener scope c closing hw hs
    rw [hscope _ _ hw.1] at hs
    exact h.concerned _ _ _ _ _ hw hs

end

theorem concerns_closeOn {c' : Nat} (hne : c' ≠ c) :
    Concerns (w.closeOn c k s) c' listener ↔ Concerns w c' listener := by
  have hclosing : (w.closeOn c k s).closings c' = w.closings c' := update_of_ne hne _ _
  unfold Concerns
  rw [hclosing]
  rfl

theorem Heard.closeOn (h : Heard w) (ht : Table w) (hp : Past w w.now)
    (hs : w.sessions k = some s) (hc : w.closings c = none)
    (hr : w.returnedAt c = none) : Heard (w.closeOn c k s) :=
  { h with
    early := by
      intro l listener scope c' closing hl hlive hi hc' hgen
      rcases of_update hc' with ⟨rfl, ⟨⟩⟩ | ⟨-, hc'⟩
      · exact hp.added _ _ hl
      · exact h.early _ _ _ _ _ hl hlive hi hc' hgen
    once := by
      intro l listener hl hlive
      refine (h.once _ _ hl hlive).imp id ?_
      rintro ⟨run, honly, hcon, hcalled, hrest⟩
      have hrun : run.closing ≠ c := by
        obtain ⟨-, closing, -, hc', -⟩ := hcon
        rintro rfl
        rw [hc] at hc'
        cases hc'
      refine ⟨run, honly, (concerns_closeOn hrun).2 hcon, ?_, hrest⟩
      intro closing' hclosing'
      exact hcalled _ ((update_of_ne hrun _ _).symm.trans hclosing')
    missed := by
      intro l listener c' t hl hlive hruns hcon hret
      have hcc : c' ≠ c := by
        rintro rfl
        rw [show w.returnedAt c' = some t from hret] at hr
        cases hr
      exact h.missed _ _ _ _ hl hlive hruns ((concerns_closeOn hcc).1 hcon) hret
    concerned := by
      intro l listener scope c' closing hw hi hc' hsid hadded
      rcases of_update hc' with ⟨rfl, ⟨⟩⟩ | ⟨-, hc'⟩
      · have hmapped := ht.scopeMapped _ _ hi hw.2.2.2.2
        rw [← hsid, hs] at hmapped
        rw [Option.some.inj hmapped]
        exact h.current _ _ _ hw hi
      · exact h.concerned _ _ _ _ _ hw hi hc' hsid hadded }

theorem Past.ran_only {run : Run} {t : Nat} (h : Past w t) (hrun : w.runs l = [run]) :
    run.time < t := h.ran l run (by rw [hrun]; exact List.mem_singleton.2 rfl)

/-- When the loop is over, whoever it concerned has run or is off. -/
theorem Heard.returns (h : Heard w) (hp : Past w w.now) (hc : w.closings c = some closing)
    (hempty : w.listening closing.generation = []) :
    Heard { w with returnedAt := update w.returnedAt c (some w.now) } :=
  { h with
    once := by
      intro l listener hl hlive
      refine (h.once _ _ hl hlive).imp id ?_
      rintro ⟨run, honly, hcon, hcalled, hret, hclosed⟩
      refine ⟨run, honly, hcon, hcalled, ?_, hclosed⟩
      intro t ht
      rcases of_update ht with ⟨-, ⟨⟩⟩ | ⟨-, ht⟩
      · exact hp.ran_only honly
      · exact hret t ht
    missed := by
      intro l listener c' t hl hlive hruns hcon hret
      rcases of_update hret with ⟨rfl, ⟨⟩⟩ | ⟨-, hret⟩
      · obtain ⟨scope, closing', hi, hc', hsid, hadded⟩ := hcon
        obtain rfl := Option.some.inj (hc.symm.trans hc')
        cases hd : w.disposedAt l with
        | some t' => exact .inl ⟨t', hd, hp.disposed _ _ hd⟩
        | none =>
          cases ho : w.closedAt listener.scope with
          | some t' => exact .inr ⟨t', ho, hp.closed _ _ ho⟩
          | none =>
            have hw : Waits w l listener := ⟨hl, hlive, hruns, hd, ho⟩
            have hgen := h.concerned _ _ _ _ _ hw hi hc hsid hadded
            have hmem := (h.listed l _).2 ⟨listener, scope, hw, hi, hgen.symm⟩
            rw [hempty] at hmem
            cases hmem
      · exact h.missed _ _ _ _ hl hlive hruns hcon hret }

-- ======== listeners

variable {listener' : Listener} {l' : Nat}

theorem waits_unique (h : Waits w l listener) (h' : Waits w l listener') :
    listener' = listener := Option.some.inj (h'.1.symm.trans h.1)

/-- A listener that runs on the spot never waits. -/
theorem Heard.addStale (h : Heard w) (hl : w.listeners l = none)
    (hi : w.scopes i = some scope) :
    Heard { w with listeners := update w.listeners l (some
      { scope := i, addedAt := w.now, live := false }) } := by
  have hlisteners : ∀ l' listener', update w.listeners l (some
      ({ scope := i, addedAt := w.now, live := false } : Listener)) l'
        = some listener' ∧ listener'.live = true ↔
      w.listeners l' = some listener' ∧ listener'.live = true := by
    grind [update_apply]
  have hwaits : ∀ l' listener', Waits { w with
      listeners := update w.listeners l (some
        { scope := i, addedAt := w.now, live := false }) } l' listener' ↔
      Waits w l' listener' := by
    intro l' listener'
    unfold Waits
    rw [← and_assoc, hlisteners, and_assoc]
  constructor
  · have hscope := h.scope
    grind [update_apply]
  · simpa only [hwaits] using h.listed
  · simpa only [hwaits] using h.subscribed
  · simpa only [hwaits] using h.current
  · intro l' listener' scope' c closing hl' hlive
    exact h.early _ _ _ _ _ ((hlisteners _ _).1 ⟨hl', hlive⟩).1 hlive
  · intro l' listener' hl' hlive
    exact h.once _ _ ((hlisteners _ _).1 ⟨hl', hlive⟩).1 hlive
  · intro l' listener' c t hl' hlive
    exact h.missed _ _ _ _ ((hlisteners _ _).1 ⟨hl', hlive⟩).1 hlive
  · simpa only [hwaits] using h.concerned

theorem waits_subscribe (hl : w.listeners l = none) (hruns : w.runs l = [])
    (hdisp : w.disposedAt l = none) (ho : w.closedAt i = none) :
    Waits (w.subscribe l i g) l' listener' ↔
      (l' = l ∧ listener' = ⟨i, w.now, true⟩) ∨ Waits w l' listener' := by
  unfold Waits World.subscribe
  by_cases hll : l' = l
  · subst hll
    simp only [update_self, hl]
    constructor
    · rintro ⟨hnew, -⟩
      exact .inl ⟨trivial, (Option.some.inj hnew).symm⟩
    · rintro (⟨-, rfl⟩ | ⟨hnone, -⟩)
      · exact ⟨rfl, rfl, hruns, hdisp, ho⟩
      · cases hnone
  · simp [hll]

/-- A listener is added only to a generation that no closing has retired. -/
theorem Heard.subscribe (h : Heard w) (hv : Lives w) (hp : Past w w.now)
    (hl : w.listeners l = none) (hruns : w.runs l = [])
    (hdisp : w.disposedAt l = none) (hi : w.scopes i = some scope)
    (hcur : ¬ w.stale i scope = true) : Heard (w.subscribe l i scope.generation) := by
  obtain ⟨ho, hlive, -, -⟩ := stale_eq_false hcur
  have hwaits : ∀ l' listener', Waits (w.subscribe l i scope.generation) l'
      listener' ↔ (l' = l ∧ listener' = ⟨i, w.now, true⟩)
        ∨ Waits w l' listener' := fun _ _ => waits_subscribe hl hruns hdisp ho
  have hlisteners : ∀ l' listener',
      (w.subscribe l i scope.generation).listeners l' = some listener' →
      (l' = l ∧ listener' = ⟨i, w.now, true⟩) ∨ w.listeners l' = some listener' := by
    unfold World.subscribe
    grind [update_apply]
  have hretired : ∀ c closing, w.closings c = some closing →
      closing.generation ≠ scope.generation := by
    intro c closing hc heq
    have hret := hv.closingRetired _ _ hc
    rw [heq, hlive] at hret
    cases hret
  have hlate : ∀ c closing, w.closings c = some closing → ¬ w.now < closing.calledAt := by
    intro c closing hc
    have := hp.called _ _ hc
    omega
  constructor
  · intro l' listener' hl'
    rcases hlisteners _ _ hl' with ⟨-, rfl⟩ | hl'
    · exact Option.isSome_of_eq_some hi
    · exact h.scope _ _ hl'
  · intro l' g'
    simp only [hwaits]
    change l' ∈ update w.listening scope.generation _ g'
      ↔ ∃ (listener' : Listener) (scope' : Scope κ),
      _ ∧ w.scopes listener'.scope = some scope' ∧ _
    have hlisted := h.listed l' g'
    by_cases hg : g' = scope.generation
    · rw [hg, update_self, List.mem_append, List.mem_singleton]
      grind
    · rw [update_of_ne hg]
      grind
  · intro l' i'
    simp only [hwaits]
    change l' ∈ update w.subscriptions i _ i' ↔ _
    have hsubscribed := h.subscribed l' i'
    by_cases hii : i' = i
    · rw [hii, update_self, List.mem_append, List.mem_singleton]
      grind
    · rw [update_of_ne hii]
      grind
  · intro l' listener' scope' hw hi'
    rcases (hwaits _ _).1 hw with ⟨-, rfl⟩ | hw
    · obtain rfl := Option.some.inj (hi.symm.trans hi')
      exact (hv.current _ _ hi ho hlive).symm
    · exact h.current _ _ _ hw hi'
  · intro l' listener' scope' c closing hl' hlive' hi' hc hgen
    rcases hlisteners _ _ hl' with ⟨-, rfl⟩ | hl'
    · obtain rfl := Option.some.inj (hi.symm.trans hi')
      exact absurd hgen (hretired _ _ hc)
    · exact h.early _ _ _ _ _ hl' hlive' hi' hc hgen
  · intro l' listener' hl' hlive'
    rcases hlisteners _ _ hl' with ⟨rfl, -⟩ | hl'
    · exact .inl hruns
    · exact h.once _ _ hl' hlive'
  · intro l' listener' c t hl' hlive' hruns' hcon hret
    rcases hlisteners _ _ hl' with ⟨-, rfl⟩ | hl'
    · obtain ⟨_, closing, -, hc, -, hadded⟩ := hcon
      exact absurd hadded (hlate _ _ hc)
    · exact h.missed _ _ _ _ hl' hlive' hruns' hcon hret
  · intro l' listener' scope' c closing hw hi' hc hsid hadded
    rcases (hwaits _ _).1 hw with ⟨-, rfl⟩ | hw
    · exact absurd hadded (hlate _ _ hc)
    · exact h.concerned _ _ _ _ _ hw hi' hc hsid hadded

/-- A generation and a scope without the listener `l`. -/
theorem Heard.listed_unsubscribe (h : Heard w) (hw : Waits w l listener)
    (hi : w.scopes listener.scope = some scope) {g' : Nat} :
    l' ∈ (w.unsubscribe l listener.scope scope.generation).listening g' ↔
      l' ∈ w.listening g' ∧ l' ≠ l := by
  change l' ∈ update w.listening scope.generation _ g' ↔ _
  by_cases hg : g' = scope.generation
  · subst hg
    simp
  · rw [update_of_ne hg]
    refine (and_iff_left_of_imp ?_).symm
    rintro hmem rfl
    obtain ⟨listener', scope', hw', hi', hgen⟩ := (h.listed _ _).1 hmem
    obtain rfl := waits_unique hw hw'
    obtain rfl := Option.some.inj (hi.symm.trans hi')
    exact hg hgen.symm

theorem Heard.subscribed_unsubscribe (h : Heard w) (hw : Waits w l listener) {i' : Nat} :
    l' ∈ (w.unsubscribe l listener.scope g).subscriptions i' ↔
      l' ∈ w.subscriptions i' ∧ l' ≠ l := by
  change l' ∈ update w.subscriptions listener.scope _ i' ↔ _
  by_cases hii : i' = listener.scope
  · subst hii
    simp
  · rw [update_of_ne hii]
    refine (and_iff_left_of_imp ?_).symm
    rintro hmem rfl
    obtain ⟨listener', hw', hsc⟩ := (h.subscribed _ _).1 hmem
    obtain rfl := waits_unique hw hw'
    exact hii hsc.symm

/-- A listener is off: what is left of the invariant once it does not wait
any more and its own history is in order. -/
theorem Heard.off (h : Heard w) (hw : Waits w l listener)
    (hi : w.scopes listener.scope = some scope)
    (runs : Nat → List Run) (disposedAt : Nat → Option Nat)
    (hruns : ∀ l', l' ≠ l → runs l' = w.runs l')
    (hdisp : ∀ l', l' ≠ l → disposedAt l' = w.disposedAt l')
    (hoff : runs l ≠ [] ∨ disposedAt l ≠ none)
    (honce : runs l = [] ∨ ∃ run, RanOnce { w with runs := runs } l listener run) :
    Heard { w.unsubscribe l listener.scope scope.generation with
      runs := runs, disposedAt := disposedAt } := by
  have hwaits : ∀ l' listener',
      Waits { w.unsubscribe l listener.scope scope.generation with
        runs := runs, disposedAt := disposedAt } l' listener' ↔
      Waits w l' listener' ∧ l' ≠ l := by
    intro l' listener'
    unfold Waits
    by_cases hll : l' = l
    · subst hll
      constructor
      · rintro ⟨-, -, hr, hd, -⟩
        rcases hoff with hoff | hoff
        · exact absurd hr hoff
        · exact absurd hd hoff
      · exact fun hmem => absurd rfl hmem.2
    · simp only [hruns _ hll, hdisp _ hll, ne_eq, hll, not_false_eq_true, and_true]
      exact Iff.rfl
  constructor
  · exact h.scope
  · intro l' g'
    rw [show l' ∈ _ ↔ _ from h.listed_unsubscribe hw hi, h.listed]
    simp only [hwaits]
    tauto
  · intro l' i'
    rw [show l' ∈ _ ↔ _ from h.subscribed_unsubscribe hw, h.subscribed]
    simp only [hwaits]
    tauto
  · intro l' listener' scope' hw'
    exact h.current _ _ _ ((hwaits _ _).1 hw').1
  · exact h.early
  · intro l' listener' hl' hlive
    by_cases hll : l' = l
    · subst hll
      obtain rfl := Option.some.inj (hw.1.symm.trans hl')
      exact honce
    · refine (h.once _ _ hl' hlive).imp (fun hr => (hruns _ hll).trans hr) ?_
      rintro ⟨run, honly, hrest⟩
      exact ⟨run, (hruns _ hll).trans honly, hrest⟩
  · intro l' listener' c t hl' hlive hr hcon hret
    by_cases hll : l' = l
    · subst hll
      obtain rfl := Option.some.inj (hw.1.symm.trans hl')
      cases (h.not_returned hw hcon).symm.trans hret
    · have hr' : w.runs l' = [] := (hruns _ hll).symm.trans hr
      rcases h.missed _ _ _ _ hl' hlive hr' hcon hret with ⟨t', hd, hlt⟩ | hoff'
      · exact .inl ⟨t', (hdisp _ hll).trans hd, hlt⟩
      · exact .inr hoff'
  · intro l' listener' scope' c closing hw'
    exact h.concerned _ _ _ _ _ ((hwaits _ _).1 hw').1

/-- Closing a scope takes its listeners off. -/
theorem Heard.uncapture (h : Heard w) (hp : Past w w.now)
    (hi : w.scopes i = some scope) (ho : w.closedAt i = none) :
    Heard (w.uncapture i scope.generation s) := by
  have hwaits : ∀ l' listener',
      Waits (w.uncapture i scope.generation s) l' listener' ↔
        Waits w l' listener' ∧ listener'.scope ≠ i := by
    intro l' listener'
    unfold Waits World.uncapture
    by_cases hii : listener'.scope = i
    · simp [hii]
    · simp [hii]
  have hsub : ∀ l', l' ∈ w.subscriptions i ↔
      ∃ listener', Waits w l' listener' ∧ listener'.scope = i := fun l' => h.subscribed l' i
  constructor
  · exact h.scope
  · intro l' g'
    simp only [hwaits]
    change l' ∈ update w.listening scope.generation _ g'
      ↔ ∃ (listener' : Listener) (scope' : Scope κ),
      _ ∧ w.scopes listener'.scope = some scope' ∧ _
    have hlisted := h.listed l' g'
    by_cases hg : g' = scope.generation
    · rw [hg, update_self, List.mem_filter]
      rw [hg] at hlisted
      simp only [decide_eq_true_eq, hsub, hlisted]
      grind [waits_unique]
    · rw [update_of_ne hg, hlisted]
      grind
  · intro l' i'
    simp only [hwaits]
    change l' ∈ update w.subscriptions i [] i' ↔ _
    by_cases hii : i' = i
    · rw [hii, update_self]
      grind
    · rw [update_of_ne hii, h.subscribed]
      grind
  · intro l' listener' scope' hw'
    exact h.current _ _ _ ((hwaits _ _).1 hw').1
  · exact h.early
  · intro l' listener' hl' hlive
    refine (h.once _ _ hl' hlive).imp id ?_
    rintro ⟨run, honly, hcon, hcalled, hret, hclosed⟩
    refine ⟨run, honly, hcon, hcalled, hret, ?_⟩
    intro t ht
    rcases of_update ht with ⟨-, ⟨⟩⟩ | ⟨-, ht⟩
    · exact hp.ran_only honly
    · exact hclosed t ht
  · intro l' listener' c t hl' hlive hruns hcon hret
    rcases h.missed _ _ _ _ hl' hlive hruns hcon hret with hoff | ⟨t', ho', hlt⟩
    · exact .inl hoff
    · have hne : listener'.scope ≠ i := by
        intro heq
        rw [heq, ho] at ho'
        cases ho'
      exact .inr ⟨t', (update_of_ne hne _ _).trans ho', hlt⟩
  · intro l' listener' scope' c closing hw'
    exact h.concerned _ _ _ _ _ ((hwaits _ _).1 hw').1

end OpenWA.WriteScope

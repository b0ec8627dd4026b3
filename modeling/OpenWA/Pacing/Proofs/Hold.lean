/-
What the hold's operations can do, said once (`Refreshed`): every
synchronous piece of the governor first refreshes the hold, and a refresh
only drops admissions — the completed ones of an earlier day, or all of
them at once when every term has run out — and never touches a term or a
count already filled in.

The all-or-nothing lapse is the load-bearing half: an admission that is
still held keeps everything admitted after an admission it is listed
behind, so the hold of a day is always a full suffix of the day's
admissions, minus those handed back.

Where the counts of the held admissions come from is the other direction
(`Filled`): after a piece of the governor, the count of a held admission
was there before it or is one the piece had read, and an admission without
a count had none before, or was carried over from an earlier day by this
very piece.
-/
import OpenWA.Pacing.Model

namespace OpenWA.Pacing

-- ======== the heap

@[simp] theorem setAt_same (heap : Nat → Admission) (i : Nat)
    (a : Admission) : setAt heap i a i = a := by
  simp [setAt]

variable {i allowance : Nat} {s₀ s₁ s₂ : Service}

theorem setAt_ne (heap : Nat → Admission) {j : Nat} (a : Admission) (h : j ≠ i) :
    setAt heap i a j = heap j := by
  simp [setAt, h]

variable {β : Type} {s s' : Service}

section

variable (g : Admission → β)

/-- A pass that keeps a field of every object keeps it on the heap. -/
theorem forEach_field {f : Admission → Admission} (hf : ∀ a, g (f a) = g a)
    (l : List Nat) (heap : Nat → Admission) (i : Nat) : g (forEach l f heap i) = g (heap i) := by
  unfold forEach
  split
  · exact hf _
  · rfl

/-- Overwriting an object with one that agrees on a field keeps the
field on the heap. -/
theorem setAt_field (heap : Nat → Admission) (i : Nat) {a : Admission}
    (ha : g a = g (heap i)) (j : Nat) : g (setAt heap i a j) = g (heap j) := by
  unfold setAt
  split
  next h => rw [h, ha]
  next => rfl

-- ======== the single passes

theorem lapseCold_field (hg : ∀ a, g { a with cold := none } = g a) (now : Nat)
    (l : List Nat) (heap : Nat → Admission) (i : Nat) :
    g (lapseCold now l heap i) = g (heap i) := by
  unfold lapseCold
  split
  · rfl
  · exact forEach_field g hg l heap i

theorem refreshHeldUntil_field (hg : ∀ a e, g { a with heldUntil := e } = g a)
    (heap : Nat → Admission) (l : List Nat) (i : Nat) :
    g ((refreshHeldUntil heap l).1 i) = g (heap i) := by
  induction l with
  | nil => rfl
  | cons x rest ih =>
    simp only [refreshHeldUntil]
    rw [setAt_field g _ x (hg _ _)]
    exact ih

end

theorem le_later_left (a b : ℕ∞) : a ≤ later a b := by
  unfold later
  split
  next h => exact h.le
  next => exact le_rfl

theorem le_later_right (a b : ℕ∞) : b ≤ later a b := by
  unfold later
  split
  next => exact le_rfl
  next h => exact not_lt.mp h

/-- The head's `heldUntil` bounds every term in the list. -/
theorem untilMs_le_oldest (heap : Nat → Admission) (l : List Nat) :
    ∀ i ∈ l, (heap i).untilMs ≤ (refreshHeldUntil heap l).2 := by
  induction l with
  | nil => intro i hi; cases hi
  | cons x rest ih =>
    intro i hi
    simp only [refreshHeldUntil]
    rcases List.mem_cons.1 hi with rfl | hi'
    · rw [refreshHeldUntil_field Admission.untilMs (fun _ _ => rfl)]
      exact le_later_left _ _
    · exact (ih i hi').trans (le_later_right _ _)

-- ======== the refresh

/-- The hold is of another day than `dayStart`. -/
def Stale (dayStart : Nat) (s : Service) : Prop := ∃ h, s.hold = some h ∧ h.dayStartMs ≠ dayStart

/-- All a refresh of the hold at `now` can do. -/
structure Refreshed (now dayStart : Nat) (s s' : Service) : Prop where
  next : s'.next = s.next
  untilMs : ∀ i, (s'.heap i).untilMs = (s.heap i).untilMs
  sublist : s'.held.Sublist s.held
  day : ∀ h ∈ s'.hold, h.dayStartMs = dayStart
  /-- A count already filled in stays, except on the objects of an
  earlier day's hold. -/
  sentToday : ∀ i c, (Stale dayStart s → i ∉ s.held) →
    (s.heap i).sentToday = some c → (s'.heap i).sentToday = some c
  /-- Within the day the hold is kept whole or lapses whole. -/
  lapse : Stale dayStart s ∨ s'.held = s.held ∨
    (s'.held = [] ∧ ∀ i ∈ s.held, (s.heap i).untilMs ≤ (now : ℕ∞))

theorem held_some (s : Service) {h : AdmissionHold}
    (hs : s.hold = some h) : s.held = h.admissions := by
  unfold Service.held
  rw [hs]
  rfl

theorem held_none (s : Service) (hs : s.hold = none) : s.held = [] := by
  unfold Service.held
  rw [hs]
  rfl

/-- A refreshed hold is of its day. -/
theorem Refreshed.not_stale {now d : Nat} (h : Refreshed now d s s') : ¬ Stale d s' := by
  rintro ⟨h', hs, hne⟩
  exact hne (h.day h' (by rw [hs]; rfl))

/-- Nothing at all is a refresh of a hold of the day. -/
theorem Refreshed.refl {now d : Nat} (hs : ¬ Stale d s) : Refreshed now d s s := by
  refine ⟨rfl, fun _ => rfl, List.Sublist.refl _, ?_, fun _ _ _ h => h, .inr (.inl rfl)⟩
  intro h hh
  by_contra hne
  exact hs ⟨h, hh, hne⟩

/-- Refreshes at one instant compose. -/
theorem Refreshed.trans {now d : Nat} (h₁ : Refreshed now d s₀ s₁) (h₂ : Refreshed now d s₁ s₂) :
    Refreshed now d s₀ s₂ := by
  refine ⟨h₂.next.trans h₁.next,
    fun i => (h₂.untilMs i).trans (h₁.untilMs i), h₂.sublist.trans h₁.sublist, h₂.day, ?_, ?_⟩
  · intro i c hi hc
    exact h₂.sentToday i c (fun hst => absurd hst h₁.not_stale) (h₁.sentToday i c hi hc)
  · rcases h₁.lapse with hst | heq | ⟨hnil, hle⟩
    · exact .inl hst
    · right
      rcases h₂.lapse with hst | heq' | ⟨hnil', hle'⟩
      · exact absurd hst h₁.not_stale
      · exact .inl (heq'.trans heq)
      · refine .inr ⟨hnil', fun i hi => ?_⟩
        rw [← h₁.untilMs i]
        exact hle' i (heq ▸ hi)
    · right
      refine .inr ⟨?_, hle⟩
      have hsub := h₂.sublist
      rw [hnil] at hsub
      exact List.sublist_nil.mp hsub

/-- What a rewrite of the heap must keep to be invisible to
`Refreshed`: terms, and counts already filled in. -/
theorem Refreshed.withHeap {now d : Nat} (h : Refreshed now d s s') (heap : Nat → Admission)
    (hu : ∀ i, (heap i).untilMs = (s'.heap i).untilMs)
    (hc : ∀ i c, (s'.heap i).sentToday = some c → (heap i).sentToday = some c) :
    Refreshed now d s { s' with heap := heap } :=
  ⟨h.next, fun i => (hu i).trans (h.untilMs i), h.sublist, h.day,
    fun i c hi hs => hc i c (h.sentToday i c hi hs), h.lapse⟩

-- ======== where counts come from

/-- A refresh that fills in no count but those of `read`. -/
structure Filled (now d : Nat) (read : Nat → Prop) (s s' : Service) : Prop where
  refreshed : Refreshed now d s s'
  kept : ∀ i ∈ s'.held, ∀ c, (s'.heap i).sentToday = some c →
    read c ∨ (¬ Stale d s ∧ (s.heap i).sentToday = some c)
  unread : ∀ i ∈ s'.held, (s'.heap i).sentToday = none → Stale d s ∨ (s.heap i).sentToday = none

/-- Such a refresh with the group tally left alone. -/
structure Judged (now d : Nat) (read : Nat → Prop) (s s' : Service) : Prop
    extends Filled now d read s s' where
  tally : s'.groupReachoutTally = s.groupReachoutTally

variable {now d : Nat} {read : Nat → Prop}

theorem Judged.refl (hs : ¬ Stale d s) : Judged now d read s s where
  refreshed := Refreshed.refl hs
  kept := fun _ _ _ hc => .inr ⟨hs, hc⟩
  unread := fun _ _ hnone => .inr hnone
  tally := rfl

theorem Judged.trans (h₁ : Judged now d read s₀ s₁) (h₂ : Judged now d read s₁ s₂) :
    Judged now d read s₀ s₂ where
  refreshed := h₁.refreshed.trans h₂.refreshed
  kept := by
    intro i hi c hc
    rcases h₂.kept i hi c hc with hread | ⟨-, hold⟩
    · exact .inl hread
    · exact h₁.kept i (h₂.refreshed.sublist.subset hi) c hold
  unread := by
    intro i hi hnone
    rcases h₂.unread i hi hnone with hstale | hold
    · exact absurd hstale h₁.refreshed.not_stale
    · exact h₁.unread i (h₂.refreshed.sublist.subset hi) hold
  tally := h₂.tally.trans h₁.tally

/-- A rewrite of the heap that keeps terms and counts. -/
theorem Judged.withHeap (h : Judged now d read s s') (heap : Nat → Admission)
    (hu : ∀ i, (heap i).untilMs = (s'.heap i).untilMs)
    (hc : ∀ i, (heap i).sentToday = (s'.heap i).sentToday) :
    Judged now d read s { s' with heap := heap } where
  refreshed := h.refreshed.withHeap heap hu fun i _ hi => (hc i).trans hi
  kept := fun i hi c hfilled => h.kept i hi c ((hc i).symm.trans hfilled)
  unread := fun i hi hnone => h.unread i hi ((hc i).symm.trans hnone)
  tally := h.tally

-- ======== heldAdmissions

/-- The rollover keeps terms, keeps counts off the stale list, and forgets
the counts it carries over. -/
theorem rollover_spec (now d : Nat) (heap : Nat → Admission)
    (h : AdmissionHold) :
    (rollover now d heap h).2.dayStartMs = d
      ∧ (rollover now d heap h).2.admissions.Sublist h.admissions
      ∧ (∀ i, ((rollover now d heap h).1 i).untilMs = (heap i).untilMs)
      ∧ (∀ i, (h.dayStartMs ≠ d → i ∉ h.admissions) →
          ((rollover now d heap h).1 i).sentToday = (heap i).sentToday)
      ∧ (h.dayStartMs = d → (rollover now d heap h).2.admissions = h.admissions)
      ∧ (h.dayStartMs ≠ d → ∀ i ∈ (rollover now d heap h).2.admissions,
          ((rollover now d heap h).1 i).sentToday = none) := by
  unfold rollover
  split
  next hd => exact ⟨hd, List.Sublist.refl _, fun _ => rfl, fun _ _ => rfl,
    fun _ => rfl, fun hne => absurd hd hne⟩
  next hd =>
    refine ⟨rfl, List.filter_sublist, ?_, ?_, fun h' => absurd h' hd, ?_⟩
    · intro i
      refine forEach_field Admission.untilMs ?_ _ heap i
      intro a
      rfl
    · intro i hi
      simp only [forEach]
      rw [if_neg]
      intro hmem
      exact hi hd (List.mem_filter.mp hmem).1
    · intro _ i hi
      simp only [forEach]
      rw [if_pos hi]

/-- The two later passes write only `cold` and `heldUntil`, and what the
second one answers bounds every term. -/
theorem passes_spec (now : Nat) (l : List Nat) (heap : Nat → Admission) :
    (∀ i, ((refreshHeldUntil (lapseCold now l heap) l).1 i).untilMs = (heap i).untilMs)
      ∧ (∀ i, ((refreshHeldUntil (lapseCold now l heap) l).1 i).sentToday = (heap i).sentToday)
      ∧ ∀ i ∈ l, (heap i).untilMs ≤ (refreshHeldUntil (lapseCold now l heap) l).2 := by
  refine ⟨fun i => ?_, fun i => ?_, fun i hi => ?_⟩
  · rw [refreshHeldUntil_field Admission.untilMs (fun _ _ => rfl),
      lapseCold_field Admission.untilMs (fun _ => rfl)]
  · rw [refreshHeldUntil_field Admission.sentToday (fun _ _ => rfl),
      lapseCold_field Admission.sentToday (fun _ => rfl)]
  · have hle := untilMs_le_oldest (lapseCold now l heap) l i hi
    rwa [lapseCold_field Admission.untilMs (fun _ => rfl)] at hle

/-- `heldAdmissions` is a refresh that reads no count, and answers the
refreshed hold's list. -/
theorem heldAdmissions_filled (now d : Nat) (s : Service) :
    Judged now d read s (heldAdmissions now d s).1
      ∧ (heldAdmissions now d s).2 = (heldAdmissions now d s).1.held := by
  unfold heldAdmissions
  cases hs : s.hold with
  | none =>
    refine ⟨Judged.refl ?_, (held_none s hs).symm⟩
    rintro ⟨h, hh, -⟩
    cases hs.symm.trans hh
  | some h =>
    obtain ⟨hday, hsub, hu, hc, hsame, hforgot⟩ := rollover_spec now d s.heap h
    obtain ⟨hu', hc', hle⟩ := passes_spec now
      (rollover now d s.heap h).2.admissions (rollover now d s.heap h).1
    have hheld := held_some s hs
    have hstale : Stale d s ↔ h.dayStartMs ≠ d := by
      refine ⟨?_, fun hne => ⟨h, hs, hne⟩⟩
      rintro ⟨h', hh, hne⟩
      cases hs.symm.trans hh
      exact hne
    simp only
    generalize refreshHeldUntil (lapseCold now (rollover now d s.heap h).2.admissions
      (rollover now d s.heap h).1) (rollover now d s.heap h).2.admissions = pass at hu' hc' hle ⊢
    have hsent : ∀ i, (Stale d s → i ∉ s.held) → (pass.1 i).sentToday = (s.heap i).sentToday := by
      intro i hi
      rw [hstale, hheld] at hi
      rw [hc', hc i hi]
    have hlapse : ∀ l : List Nat, (l = (rollover now d s.heap h).2.admissions
        ∨ (l = [] ∧ ∀ i ∈ (rollover now d s.heap h).2.admissions,
            (s.heap i).untilMs ≤ (now : ℕ∞))) →
        Stale d s ∨ l = s.held ∨ (l = [] ∧ ∀ i ∈ s.held, (s.heap i).untilMs ≤ (now : ℕ∞)) := by
      intro l hl
      by_cases hne : h.dayStartMs = d
      · rw [hheld, ← hsame hne]
        exact .inr hl
      · exact .inl (hstale.mpr hne)
    split
    next =>
      refine ⟨⟨⟨⟨rfl, fun i => (hu' i).trans (hu i), hheld.symm ▸ hsub, ?_,
        fun i c hi => (hsent i hi).trans, hlapse _ (.inl rfl)⟩, ?_, ?_⟩, rfl⟩, rfl⟩
      · intro h' hh'
        rw [Option.mem_some_iff] at hh'
        rw [← hh']
        exact hday
      · intro i hi c hfilled
        by_cases hst : Stale d s
        · cases (hforgot (hstale.mp hst) i hi).symm.trans ((hc' i).symm.trans hfilled)
        · exact .inr ⟨hst, (hsent i fun h' => absurd h' hst).symm.trans hfilled⟩
      · intro i _ hnone
        by_cases hst : Stale d s
        · exact .inl hst
        · exact .inr ((hsent i fun h' => absurd h' hst).symm.trans hnone)
    next hnot =>
      refine ⟨⟨⟨⟨rfl, fun i => (hu' i).trans (hu i), List.nil_sublist _, nofun,
        fun i c hi => (hsent i hi).trans, ?_⟩, fun i hi => ?_, fun i hi => ?_⟩, rfl⟩, rfl⟩
      · refine hlapse [] (.inr ⟨rfl, fun i hi => ?_⟩)
        rw [← hu i]
        exact (hle i hi).trans (not_lt.mp fun hlt => hnot ⟨hday, hlt⟩)
      all_goals cases hi

/-- `heldAdmissions` is a refresh, and answers the refreshed hold's
list. -/
theorem heldAdmissions_spec (now d : Nat) (s : Service) :
    Refreshed now d s (heldAdmissions now d s).1
      ∧ (heldAdmissions now d s).2 = (heldAdmissions now d s).1.held := by
  have hfilled : Judged now d (fun _ => True) s _ ∧ _ := heldAdmissions_filled now d s
  exact hfilled.imp_left fun h => h.refreshed

-- ======== the caps

theorem foldl_max_le_iff (f : β → Nat) (l : List β) (m B : Nat) :
    l.foldl (fun m p => max m (f p)) m ≤ B ↔ m ≤ B ∧ ∀ p ∈ l, f p ≤ B := by
  induction l generalizing m with
  | nil => simp
  | cons x rest ih => simp [ih, and_assoc]

/-- The reduce is the least bound of the count read and, at every index of
the hold, of the count there plus the admissions from it on. -/
theorem judgedSentToday_le_iff {persisted B : Nat} {heap : Nat → Admission}
    {held : List Nat} :
    judgedSentToday persisted heap held ≤ B ↔ persisted ≤ B
      ∧ ∀ l₁ i l₂, held = l₁ ++ i :: l₂ →
        (heap i).sentToday.getD persisted + (l₂.length + 1) ≤ B := by
  unfold judgedSentToday
  rw [foldl_max_le_iff fun p : Nat × Nat =>
    (heap p.1).sentToday.getD persisted + (held.length - p.2)]
  refine and_congr_right fun _ => ⟨?_, ?_⟩
  · rintro h l₁ i l₂ rfl
    have hmem : (i, l₁.length) ∈ (l₁ ++ i :: l₂).zipIdx := by
      rw [List.mem_zipIdx_iff_getElem?]
      simp
    have := h _ hmem
    simp only [List.length_append, List.length_cons] at this
    omega
  · rintro h ⟨i, k⟩ hmem
    have hget : held[k]? = some i := List.mem_zipIdx_iff_getElem?.mp hmem
    obtain ⟨hk, rfl⟩ := List.getElem?_eq_some_iff.mp hget
    have := h (held.take k) held[k] (held.drop (k + 1)) (by simp)
    simp only [List.length_drop] at this
    show (heap held[k]).sentToday.getD persisted + (held.length - k) ≤ B
    omega

theorem le_judgedSentToday (persisted : Nat) (heap : Nat → Admission) {l₁ l₂ : List Nat} :
    (heap i).sentToday.getD persisted + (l₂.length + 1)
      ≤ judgedSentToday persisted heap (l₁ ++ i :: l₂) :=
  (judgedSentToday_le_iff.mp le_rfl).2 l₁ i l₂ rfl

theorem persisted_le_judgedSentToday (persisted : Nat)
    (heap : Nat → Admission) (held : List Nat) :
    persisted ≤ judgedSentToday persisted heap held := (judgedSentToday_le_iff.mp le_rfl).1

/-- A pass of the daily cap leaves room below the allowance: over the
count read, and over the count of every held admission plus what is held
from it on. -/
def Room (allowance : Nat) (s : Service) : Prop :=
  ∀ l₁ i l₂, s.held = l₁ ++ i :: l₂ →
    ∃ c, (s.heap i).sentToday = some c ∧ c + (l₂.length + 1) < allowance

/-- The daily cap fills in the count it was given, and leaves room when it
passes. -/
theorem assertUnderDailyCap_spec (now d : Nat) (age : Int)
    (allowance persisted : Nat) (s : Service) (hread : read persisted) :
    Judged now d read s (assertUnderDailyCap now d age allowance persisted s).1
      ∧ ((assertUnderDailyCap now d age allowance persisted s).2 = none →
          persisted < allowance ∧ Room allowance
            (assertUnderDailyCap now d age allowance persisted s).1) := by
  have hlist := (heldAdmissions_spec now d s).2
  have hfilled : Judged now d read s _ := (heldAdmissions_filled now d s).1
  have hwrite : ∀ i ∈ (heldAdmissions now d s).1.held,
      (forEach (heldAdmissions now d s).2 (fillSentToday persisted)
        (heldAdmissions now d s).1.heap i).sentToday
      = some (((heldAdmissions now d s).1.heap i).sentToday.getD persisted) := by
    intro i hi
    unfold forEach
    rw [if_pos (hlist ▸ hi)]
    rfl
  have hout : Judged now d read s { (heldAdmissions now d s).1 with
      heap := forEach (heldAdmissions now d s).2 (fillSentToday persisted)
        (heldAdmissions now d s).1.heap } := by
    refine ⟨⟨hfilled.refreshed.withHeap _ ?_ ?_, ?_, ?_⟩, hfilled.tally⟩
    · exact forEach_field Admission.untilMs (f := fillSentToday persisted) (fun _ => rfl) _ _
    · intro i c hc
      unfold forEach
      split
      · simp [fillSentToday, hc]
      · exact hc
    · intro i hi c hc
      have hcount := Option.some.inj ((hwrite i hi).symm.trans hc)
      cases hold : ((heldAdmissions now d s).1.heap i).sentToday with
      | none =>
        rw [hold] at hcount
        exact .inl (hcount ▸ hread)
      | some c' =>
        rw [hold] at hcount
        exact hfilled.kept i hi c (hold.trans (congrArg some hcount))
    · intro i hi hnone
      cases (hwrite i hi).symm.trans hnone
  unfold assertUnderDailyCap
  simp only
  split
  next hlt =>
    refine ⟨hout, fun _ => ⟨lt_of_le_of_lt (persisted_le_judgedSentToday _ _ _) hlt, ?_⟩⟩
    intro l₁ i l₂ hsplit
    have hheld : (heldAdmissions now d s).1.held = l₁ ++ i :: l₂ := hsplit
    refine ⟨_, hwrite i (by rw [hheld]; simp), ?_⟩
    rw [hlist, hheld] at hlt
    exact lt_of_le_of_lt (le_judgedSentToday _ _) hlt
  next => exact ⟨hout, fun h => by cases h⟩

/-- The cold loop writes only cold counts. -/
theorem chatReachoutsLoop_field (g : Admission → β) (hg : ∀ a c, g { a with cold := c } = g a)
    (persisted : Nat) :
    ∀ (l : List Nat) (acc : (Nat → Admission) × List String × Nat)
      (i : Nat), g ((chatReachoutsLoop persisted l acc).1 i) = g (acc.1 i) := by
  intro l
  induction l with
  | nil => intro acc i; rfl
  | cons x rest ih =>
    rintro ⟨heap, chats, count⟩ i
    simp only [chatReachoutsLoop]
    split
    next => exact ih _ i
    next c _ =>
      rw [ih]
      exact setAt_field g heap x (hg _ _) i

theorem chatReachoutsToday_filled (now d persisted : Nat) (s : Service) :
    Judged now d read s (chatReachoutsToday now d persisted s).1 := by
  refine (heldAdmissions_filled now d s).1.withHeap _ ?_ ?_
  · exact chatReachoutsLoop_field Admission.untilMs (fun _ _ => rfl) _ _ _
  · exact chatReachoutsLoop_field Admission.sentToday (fun _ _ => rfl) _ _ _

theorem assertUnderColdCap_filled (now d : Nat) (age : Int)
    (cold : ColdRead) (s : Service) :
    Judged now d read s (assertUnderColdCap now d age cold s).1 := by
  have hchat : Judged now d read s (chatReachoutsToday now d cold.coldToday s).1 :=
    chatReachoutsToday_filled now d cold.coldToday s
  unfold assertUnderColdCap
  simp only
  split
  · exact hchat
  · split
    · exact hchat.trans (heldAdmissions_filled now d _).1
    · exact hchat

-- ======== admission

/-- Room survives a further refresh: what is left of the hold was judged
with it. -/
theorem Room.refreshed {now d : Nat} (hroom : Room allowance s) (hs : ¬ Stale d s)
    (h : Refreshed now d s s') : Room allowance s' := by
  intro l₁ i l₂ hsplit
  rcases h.lapse with hst | heq | ⟨hnil, _⟩
  · exact absurd hst hs
  · obtain ⟨c, hc, hlt⟩ := hroom l₁ i l₂ (heq ▸ hsplit)
    exact ⟨c, h.sentToday i c (fun hst => absurd hst hs) hc, hlt⟩
  · rw [hnil] at hsplit
    simp at hsplit

/-- With room, every held admission has its count. -/
theorem Room.counted (hroom : Room allowance s) : ∀ i ∈ s.held, (s.heap i).sentToday ≠ none := by
  intro i hi hnone
  obtain ⟨l₁, l₂, hsplit⟩ := List.append_of_mem hi
  obtain ⟨c, hc, -⟩ := hroom l₁ i l₂ hsplit
  cases hnone.symm.trans hc

/-- The cold stage is one more refresh, whatever it answers. -/
theorem judgeCold_filled (now d : Nat) (age : Int) (key : String) (cold : Option ColdRead)
    (hs : ¬ Stale d s) : Judged now d read s (judgeCold now d age key cold s).1 := by
  cases cold with
  | none => exact Judged.refl hs
  | some c =>
    have hheld : Judged now d read s (heldAdmissions now d s).1 := (heldAdmissions_filled now d s).1
    simp only [judgeCold]
    split
    · exact hheld
    · exact hheld.trans (assertUnderColdCap_filled now d age c _)

variable (read) in
/-- All `judgeAndAdmit` can do: refresh the hold and answer, or refresh
it, find room, and push one admission that carries the count read. -/
theorem judgeAndAdmit_spec (now d : Nat) (age : Int)
    (allowance sentToday : Nat) (cold : Option ColdRead)
    (chatId : Option String) (opts : Opts) (s : Service)
    (hread : read sentToday) :
    ((∀ a, (judgeAndAdmit now d age allowance sentToday cold chatId opts s).2 ≠ .admitted a)
        ∧ Judged now d read s (judgeAndAdmit now d age allowance sentToday cold chatId opts s).1)
      ∨ ∃ s₁ adm, Judged now d read s s₁ ∧ sentToday < allowance
          ∧ Room allowance s₁ ∧ adm.sentToday = some sentToday
          ∧ judgeAndAdmit now d age allowance sentToday cold chatId opts s
            = (pushAdmission d adm s₁, .admitted s₁.next) := by
  obtain ⟨hcap, hroom⟩ := assertUnderDailyCap_spec now d age allowance sentToday s hread
  unfold judgeAndAdmit
  cases hres : assertUnderDailyCap now d age allowance sentToday s with
  | mk s₀ r =>
    rw [hres] at hcap hroom
    cases r with
    | some r => exact .inl ⟨nofun, hcap⟩
    | none =>
      obtain ⟨hlt, hroom₀⟩ := hroom rfl
      cases chatId with
      | none => exact .inl ⟨nofun, hcap⟩
      | some chat =>
        have hfresh := hcap.refreshed.not_stale
        have hcold : Judged now d read s₀ (judgeCold now d age (coldChatKey chat) cold s₀).1 :=
          judgeCold_filled now d age (coldChatKey chat) cold hfresh
        have hroom₁ := hroom₀.refreshed hfresh hcold.refreshed
        have hfilled := hcap.trans hcold
        simp only
        cases hj : judgeCold now d age (coldChatKey chat) cold s₀ with
        | mk s₁ r =>
          rw [hj] at hfilled hroom₁
          cases r with
          | some r => exact .inl ⟨nofun, hfilled⟩
          | none =>
            simp only
            split
            · exact .inr ⟨s₁, _, hfilled, hlt, hroom₁, rfl, rfl⟩
            · exact .inl ⟨nofun, hfilled⟩

/-- Reserving group reachouts is, to the hold, a refresh. -/
theorem reserveReachouts_filled (now d : Nat) (age : Int)
    (allowance coldChats coldCount : Nat) (s : Service) :
    Filled now d read s (reserveReachouts now d age allowance coldChats coldCount s).1 := by
  have hchat : Judged now d read s (chatReachoutsToday now d coldChats s).1 :=
    chatReachoutsToday_filled now d coldChats s
  unfold reserveReachouts
  simp only
  split
  · unfold addGroupReachouts
    repeat' split
    all_goals exact { hchat with refreshed := { hchat.refreshed with } }
  · split
    · exact (hchat.trans (heldAdmissions_filled now d _).1).toFilled
    · exact hchat.toFilled

/-- Handing back drops the admission from the hold, which stays of its day,
and nothing else. -/
theorem settle_handBack_spec (now a : Nat) (s : Service) :
    (settle now a false s).next = s.next
      ∧ (∀ i, ((settle now a false s).heap i).sentToday = (s.heap i).sentToday)
      ∧ (settle now a false s).held = s.held.erase a
      ∧ ∀ h' ∈ (settle now a false s).hold, ∃ h ∈ s.hold, h'.dayStartMs = h.dayStartMs := by
  have hheap : ∀ i, (setAt s.heap a { s.heap a with
      unsettled := false, untilMs := 0, heldUntil := 0 } i).sentToday = (s.heap i).sentToday :=
    setAt_field Admission.sentToday s.heap a rfl
  cases hs : s.hold with
  | none =>
    simp only [settle, hs, Bool.false_eq_true, if_false]
    refine ⟨trivial, hheap, ?_, fun h' hh' => by cases hh'⟩
    rw [held_none s hs]
    exact held_none _ rfl
  | some h =>
    rw [held_some s hs]
    simp only [settle, hs, Bool.false_eq_true, if_false]
    split
    next hmem =>
      refine ⟨rfl, hheap, ?_, fun h' hh' => ⟨h, rfl, ?_⟩⟩
      · unfold Service.held
        dsimp only
        split
        next hleft => exact hleft.symm
        next => rfl
      · obtain ⟨-, ⟨⟩⟩ := Option.ite_none_left_eq_some.mp hh'
        rfl
    next hmem =>
      refine ⟨rfl, hheap, ?_, fun h' hh' => ⟨h', hh', rfl⟩⟩
      rw [List.erase_of_not_mem hmem]
      exact held_some _ rfl

theorem stale_of_settle (now a : Nat) (hst : Stale d (settle now a false s)) : Stale d s := by
  obtain ⟨h', hh', hne⟩ := hst
  obtain ⟨h, hs, hday⟩ := (settle_handBack_spec now a s).2.2.2 h' hh'
  exact ⟨h, hs, hday ▸ hne⟩

/-- A push lists the new admission last, in the hold of the day. -/
theorem pushAdmission_held {d : Nat} (hday : ∀ h ∈ s.hold, h.dayStartMs = d) (adm : Admission) :
    (pushAdmission d adm s).held = s.held ++ [s.next] ∧ ¬ Stale d (pushAdmission d adm s) := by
  cases hs : s.hold with
  | none =>
    simp only [pushAdmission, hs]
    refine ⟨by rw [held_none s hs]; rfl, ?_⟩
    rintro ⟨h, ⟨⟩, hne⟩
    exact hne rfl
  | some h =>
    have hd : h.dayStartMs = d := hday h (by rw [hs]; rfl)
    simp only [pushAdmission, hs, hd, if_true]
    refine ⟨by rw [held_some s hs]; rfl, ?_⟩
    rintro ⟨h', ⟨⟩, hne⟩
    exact hne rfl

end OpenWA.Pacing

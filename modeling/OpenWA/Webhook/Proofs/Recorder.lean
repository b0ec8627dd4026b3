/-
The recorder of failed deliveries: what one statement of
`recordWebhookDeliveryFailure` keeps and promises.

# Why the unsent rows may go

The rows of unsent attempts are removed only at the last statement, and
the recorder gets there only past an insert or an update that left a
terminal row. A success may have removed that row meanwhile; then the
success is the certificate. So at no moment does the delivery lose its
last row to the recorder.
-/
import OpenWA.Webhook.Proofs.Invariant

namespace OpenWA.Webhook

open List

variable {w v : World} {ok inWindow : Bool}

/-- A statement of the recorder keeps what later statements and the other
parties rely on, and an answer that a row is there is certified. -/
structure RecordOk (w v : World) (result : Recorded) : Prop where
  later : Later w v
  next : ∀ stage, result = .next stage → StageOk v stage
  answer : ∀ b, result = .answer (some b) → Certified v

variable {f : Failure → Failure} {stage : Stage}

theorem any_terminal_map {fs : List Failure}
    (hf : ∀ x : Failure, x.terminal = true → (f x).terminal = true)
    (h : fs.any Failure.terminal = true) : (fs.map f).any Failure.terminal = true := by
  obtain ⟨x, hx, ht⟩ := any_eq_true.1 h
  exact any_eq_true.2 ⟨f x, mem_map_of_mem hx, hf x ht⟩

/-- What one statement of the recorder does. -/
abbrev Records (w : World) (input : FailureInput) (stage : Stage) (ok inWindow : Bool) : Prop :=
  let recorded := record input stage ok inWindow w.failures
  RecordOk w { w with failures := recorded.1 } recorded.2

/-- Rewriting rows in place keeps them. -/
theorem Later.of_map (hf : ∀ x : Failure, x.terminal = true → (f x).terminal = true) :
    Later w { w with failures := w.failures.map f } := by
  refine Later.of_fields id id id ?_ ?_
  · intro hne hnil
    exact hne (map_eq_nil_iff.1 hnil)
  · exact any_terminal_map hf

theorem Later.same (w : World) : Later w { w with failures := w.failures } :=
  Later.of_fields id id id id id

theorem terminal_touch {e : Text} (x : Failure) (h : x.terminal = true) :
    (x.touch e).terminal = true := by
  unfold Failure.touch
  rw [if_pos h]
  exact h

variable {input : FailureInput}

theorem terminal_refresh (x : Failure) (h : x.terminal = true) :
    (Failure.refresh input x).terminal = true := by
  unfold Failure.refresh
  rw [if_pos h]
  unfold Failure.terminal at h ⊢
  simp only [decide_eq_true_eq] at h ⊢
  omega

theorem terminal_retain {payload : Option Text} (x : Failure)
    (h : x.terminal = true) : (x.retain payload).terminal = true := by
  unfold Failure.retain
  split
  · exact h
  · exact h

/-- An answer that nothing was stored promises nothing. -/
theorem RecordOk.none (w : World) :
    RecordOk w { w with failures := w.failures } (.answer none) where
  later := Later.same w
  next := by
    intro stage h
    cases h
  answer := by
    intro b h
    cases h

theorem RecordOk.next_of (hl : Later w v) (hs : StageOk v stage) : RecordOk w v (.next stage) where
  later := hl
  next := by
    intro stage' h
    obtain rfl := Recorded.next.inj h
    exact hs
  answer := by
    intro b h
    cases h

theorem RecordOk.answer_of {b : Bool} (hl : Later w v)
    (hc : Certified v) : RecordOk w v (.answer (some b)) where
  later := hl
  next := by
    intro stage h
    cases h
  answer := fun _ _ => hc

theorem certified_of_mem {x : Failure} (h : x ∈ w.failures) : Certified w := by
  right; right; right
  exact ne_nil_of_mem h

theorem recordOk_counting : Records w input .counting ok inWindow := by
  unfold Records record
  dsimp only
  split
  next => exact RecordOk.none w
  next =>
    split
    next hrep =>
      apply RecordOk.next_of (Later.same w)
      cases ht : input.terminal with
      | true => trivial
      | false =>
        -- an unsent delivery counts every row
        unfold FailureInput.repeats at hrep
        rw [ht] at hrep
        right; right; right
        intro hnil
        rw [hnil] at hrep
        cases hrep
    next => exact RecordOk.next_of (Later.same w) trivial

theorem recordOk_touching (hc : Certified w) : Records w input .touching ok inWindow := by
  have hl : Later w { w with failures := (record input .touching ok inWindow w.failures).1 } := by
    cases ok with
    | true => exact Later.of_map terminal_touch
    | false => exact Later.same w
  exact RecordOk.answer_of hl (hl.certified hc)

theorem recordOk_inserting : Records w input .inserting ok inWindow := by
  unfold Records record
  dsimp only
  split
  next => exact RecordOk.none w
  next =>
    split
    next => exact RecordOk.next_of (Later.same w) trivial
    next =>
      have hl : Later w { w with failures := w.failures ++ [input.row] } := by
        refine Later.of_fields id id id ?_ ?_
        · intro _ hnil
          exact cons_ne_nil _ _ (append_eq_nil_iff.1 hnil).2
        · intro ht
          rw [any_append, ht]
          rfl
      cases ht : input.terminal with
      | true =>
        apply RecordOk.next_of hl
        right
        show (w.failures ++ [input.row]).any Failure.terminal = true
        have hrow : input.row.terminal = true := ht
        simp [hrow]
      | false =>
        apply RecordOk.answer_of hl
        exact certified_of_mem (x := input.row) (mem_append_right _ (mem_singleton_self _))

theorem recordOk_refreshing : Records w input .refreshing ok inWindow := by
  unfold Records record
  dsimp only
  split
  next hcond =>
    have ht := (Bool.and_eq_true_iff.1 hcond).2
    have hkept : TerminalKept { w with
        failures := w.failures.map (Failure.refresh input) } :=
      .inr (any_terminal_map terminal_refresh ht)
    apply RecordOk.next_of (Later.of_map terminal_refresh)
    split
    · exact hkept
    · exact hkept
  next => exact RecordOk.none w

theorem recordOk_retaining (ht : TerminalKept w) : Records w input .retaining ok inWindow := by
  unfold Records record
  dsimp only
  split
  next => exact RecordOk.none w
  next =>
    cases inWindow with
    | true =>
      have hl : Later w { w with
          failures := w.failures.map (Failure.retain input.payload) } :=
        Later.of_map terminal_retain
      exact RecordOk.next_of hl (hl.terminal ht)
    | false => exact RecordOk.next_of (Later.same w) ht

theorem recordOk_clearing {result : Bool} (ht : TerminalKept w) :
    Records w input (.clearing result) ok inWindow := by
  have hl : Later w { w with failures :=
      (record input (.clearing result) ok inWindow w.failures).1 } := by
    cases ok with
    | false => exact Later.same w
    | true =>
      rcases ht with hd | ht
      · exact Later.of_delivered hd
      · obtain ⟨x, hx, hxt⟩ := any_eq_true.1 ht
        have hmem : x ∈ w.failures.filter Failure.terminal := mem_filter.2 ⟨hx, hxt⟩
        refine Later.of_fields id id id ?_ ?_
        · intro _
          exact ne_nil_of_mem hmem
        · intro _
          exact any_eq_true.2 ⟨x, hmem, hxt⟩
  exact RecordOk.answer_of hl (hl.certified ht.certified)

/-- Every statement of the recorder is sound. -/
theorem recordOk (input : FailureInput) (ok inWindow : Bool) (hs : StageOk w stage) :
    Records w input stage ok inWindow := by
  cases stage with
  | counting => exact recordOk_counting
  | touching => exact recordOk_touching hs
  | inserting => exact recordOk_inserting
  | refreshing => exact recordOk_refreshing
  | retaining => exact recordOk_retaining hs
  | clearing result => exact recordOk_clearing hs

end OpenWA.Webhook

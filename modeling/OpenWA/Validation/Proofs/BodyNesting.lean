/-
The byte scan and the walk over the parsed value measure the nesting of the
text.

# The argument

Started outside of a string, the scan either stops in a piece of JSON,
because it nests too deep from there, or comes out of it where it was, at
the depth it had (`Passes`). This composes along the grammar. In a string
nothing but an escape needs care: no byte of a character but the quote and
the backslash is one of theirs.
-/
import OpenWA.Lib.JsonText
import OpenWA.Validation.BodyNesting

namespace OpenWA.BodyNesting

open JsonText List

variable {t t' l : Text} {n m : Nat} {d : Int} {rest : List UInt8} {b : UInt8} {c : Char}
  {s k : JsString} {numeral : Text → JsNumeral} {unique : Prop} {p : Part} {v : JsValue}

-- ======== strings

theorem utf8_cons (c : Char) (t : Text) : Text.utf8 (c :: t) = String.utf8EncodeChar c ++ t.utf8 :=
  flatMap_cons

theorem utf8_append (t t' : Text) : Text.utf8 (t ++ t') = t.utf8 ++ t'.utf8 := flatMap_append

theorem toNat_ne_of_mem_utf8 {i : Nat} (hi : i < 128) (hb : b ∈ String.utf8EncodeChar c)
    (hc : c.toNat ≠ i) : b.toNat ≠ i := by
  by_cases hlt : c.toNat < 128
  · rw [Text.utf8_of_lt hlt, mem_singleton] at hb
    rw [hb, UInt8.toNat_ofNat', Nat.mod_eq_of_lt (by omega)]
    exact hc
  · have hge := Text.le_toNat_of_mem_utf8 hlt hb
    omega

theorem scan_string (h : ∀ c ∈ t, c ≠ '"' ∧ c ≠ '\\') :
    scan d .string (t.utf8 ++ rest) = scan d .string rest := by
  have hbytes : ∀ b ∈ t.utf8, b ≠ quote ∧ b ≠ backslash := by
    intro b hb
    obtain ⟨c, hc, hb⟩ := mem_flatMap.mp hb
    have hne := h c hc
    refine ⟨fun hq => ?_, fun hs => ?_⟩
    · refine toNat_ne_of_mem_utf8 (i := 34) (by decide) hb (fun he => hne.1 ?_) (hq ▸ rfl)
      exact Char.toNat_inj.mp he
    · refine toNat_ne_of_mem_utf8 (i := 92) (by decide) hb (fun he => hne.2 ?_) (hs ▸ rfl)
      exact Char.toNat_inj.mp he
  generalize t.utf8 = bytes at hbytes
  induction bytes with
  | nil => rfl
  | cons b bytes ih =>
    obtain ⟨hq, hs⟩ := hbytes b mem_cons_self
    rw [cons_append, scan, if_neg hq, if_neg hs]
    exact ih fun b hb => hbytes b (mem_cons_of_mem _ hb)

/-- Within a string the scan sees no bracket. -/
theorem scan_chars (h : Chars t s) : scan d .string (t.utf8 ++ rest) = scan d .string rest := by
  induction h with
  | nil => rfl
  | @plain c t s _ hq hb _ ih =>
    rw [← singleton_append, utf8_append, append_assoc, scan_string, ih]
    simp [hq, hb]
  | @escape c e t s hc _ ih =>
    have hlt : escapes.all (fun p => p.1.toNat < 128) = true := by decide
    rw [utf8_cons, utf8_cons, Text.utf8_of_lt (of_decide_eq_true (all_eq_true.mp hlt _ hc))]
    exact ih
  | @unicode digits t s _ hd _ ih =>
    change scan d .string (Text.utf8 (digits ++ t) ++ rest) = _
    rw [utf8_append, append_assoc, scan_string, ih]
    refine fun c hc => ⟨?_, ?_⟩ <;> rintro rfl <;> exact absurd (hd _ hc) (by decide)

-- ======== the scan

/-- The scan stops in the text, or comes out of it as it came in. -/
def Passes (t : Text) (n : Nat) : Prop :=
  ∀ (d : Int) (rest : List UInt8), d ≤ maxBodyNesting →
    scan d .text (t.utf8 ++ rest) = (decide (d + n > maxBodyNesting) || scan d .text rest)

theorem passes_append (h : Passes t n) (h' : Passes t' m) : Passes (t ++ t') (max n m) := by
  intro d rest hd
  rw [utf8_append, append_assoc, h d _ hd, h' d _ hd, ← Bool.or_assoc, ← Bool.decide_or]
  congr 2
  apply propext
  omega

theorem passes_zero (h : ∀ d rest, scan d .text (t.utf8 ++ rest) = scan d .text rest) :
    Passes t 0 := by
  intro d rest hd
  rw [h, decide_eq_false (by omega), Bool.false_or]

/-- ASCII, and nothing to the scan. -/
def isPlain (c : Char) : Bool := c.toNat < 128 && !([34, 91, 93, 123, 125].contains c.toNat)

theorem passes_of_subset (hl : l.all isPlain = true) (h : t ⊆ l) : Passes t 0 := by
  have hne : ∀ i < 128, [34, 91, 93, 123, 125].contains i = false → UInt8.ofNat i ∉
      [quote, openBracket, closeBracket, openBrace, closeBrace] := by decide
  refine passes_zero fun d rest => ?_
  induction t with
  | nil => rfl
  | cons c t ih =>
    have hc := all_eq_true.mp hl c (h mem_cons_self)
    simp only [isPlain, Bool.and_eq_true, decide_eq_true_eq, Bool.not_eq_true'] at hc
    obtain ⟨hlt, hc⟩ := hc
    have hb := hne _ hlt hc
    simp only [mem_cons, not_mem_nil, or_false, not_or] at hb
    rw [utf8_cons, Text.utf8_of_lt hlt]
    simp only [cons_append, nil_append, scan, hb, or_self, if_false]
    exact ih fun c hc => h (mem_cons_of_mem _ hc)

theorem passes_space (h : t ⊆ spaces) : Passes t 0 := passes_of_subset (by decide) h

theorem passes_quoted (h : Chars t s) : Passes (quoted t) 0 := by
  refine passes_zero fun d rest => ?_
  rw [quoted, cons_append, utf8_cons, utf8_append, append_assoc, append_assoc]
  exact scan_chars h

theorem passes_wrap {o e : Char} (ho : o = '[' ∨ o = '\x7b') (he : e = ']' ∨ e = '\x7d')
    (h : Passes t n) : Passes (o :: t ++ [e]) (n + 1) := by
  intro d rest hd
  have hopen : ∀ x, scan d .text (String.utf8EncodeChar o ++ x)
      = if d + 1 > maxBodyNesting then true else scan (d + 1) .text x := by
    rcases ho with rfl | rfl <;> exact fun _ => rfl
  have hclose : scan (d + 1) .text (Text.utf8 [e] ++ rest) = scan d .text rest := by
    nth_rewrite 2 [← Int.add_sub_cancel d 1]
    rcases he with rfl | rfl <;> rfl
  rw [cons_append, utf8_cons, utf8_append, append_assoc, append_assoc, hopen]
  split
  next hdeep => rw [decide_eq_true (by omega), Bool.true_or]
  next hroom =>
    rw [h (d + 1) _ (by omega), hclose]
    congr 2
    apply propext
    omega

/-- The scan takes a text to its depth and back. -/
theorem passes_reads (h : Reads numeral unique t p n) : Passes t n := by
  induction h with
  | null | yes | no => exact passes_of_subset (by decide) (List.Subset.refl _)
  | num _ ht => exact passes_of_subset (by decide) ht
  | str h => exact passes_quoted h
  | space hw hw' _ ih =>
    simpa using passes_append (passes_append (passes_space hw) ih) (passes_space hw')
  | emptyArr hw => exact passes_wrap (.inl rfl) (.inl rfl) (passes_space hw)
  | arr _ ih => exact passes_wrap (.inl rfl) (.inl rfl) ih
  | item _ ih | field _ ih => exact ih
  | emptyObj hw => exact passes_wrap (.inr rfl) (.inr rfl) (passes_space hw)
  | obj _ ih => exact passes_wrap (.inr rfl) (.inr rfl) ih
  | member hw hk hw' _ ih =>
    have hcolon : Passes [':'] 0 := passes_of_subset (by decide) (List.Subset.refl _)
    have hname := passes_append (passes_space hw) (passes_quoted hk)
    simpa using passes_append (passes_append (passes_append hname (passes_space hw')) hcolon) ih
  | items _ _ ih ih' | fields _ _ _ ih ih' =>
    have hcomma : Passes [','] 0 := passes_of_subset (by decide) (List.Subset.refl _)
    simpa using passes_append (passes_append ih hcomma) ih'

-- ======== the parsed value

/-- A part of a value nests too deep. -/
def exceeds (depth : Nat) : Part → Bool
  | .value v => exceedsBodyNesting depth v
  | .items l => someItem depth l
  | .member _ v => exceedsBodyNesting depth v
  | .fields f => someField depth f

/-- A repeated name takes the place of a value. -/
theorem someField_set {d : Nat} (f : JsFields) :
    (someField d (f.set k v) = true → someField d f = true ∨ exceedsBodyNesting d v = true)
    ∧ (k ∉ f.keys → someField d (f.set k v) = (someField d f || exceedsBodyNesting d v)) := by
  induction f using JsFields.induct with
  | hnil => simp [JsFields.set, someField]
  | hcons key value rest ih =>
    rw [JsFields.set]
    split
    next heq =>
      refine ⟨?_, fun hk => absurd (heq ▸ mem_cons_self) hk⟩
      simp only [someField, Bool.or_eq_true]
      exact fun h => h.symm.imp_left .inr
    next hne =>
      simp only [someField, Bool.or_eq_true, Bool.or_assoc]
      refine ⟨fun h => ?_, fun hk => ?_⟩
      · rw [or_assoc]
        exact h.imp_right ih.1
      · rw [ih.2 fun h => hk (mem_cons_of_mem _ h)]

theorem exceeds_reads (h : Reads numeral unique t p n) : ∀ i ≤ maxBodyNesting,
    (exceeds (i + 1) p = true → i + n > maxBodyNesting)
    ∧ (unique → i + n > maxBodyNesting → exceeds (i + 1) p = true) := by
  induction h with
  | null | yes | no | num | str =>
    intro i hi
    simp [exceeds, exceedsBodyNesting, hi]
  | space _ _ _ ih | member _ _ _ _ ih => exact ih
  | item _ ih | field _ ih => simpa [exceeds, someItem, someField] using ih
  | emptyArr | emptyObj => simp [exceeds, exceedsBodyNesting, someItem, someField]
  | items _ _ ih ih' =>
    intro i hi
    have hv := ih i hi
    have hl := ih' i hi
    simp only [exceeds, someItem, Bool.or_eq_true] at hv hl ⊢
    grind
  | @fields _ f _ _ k v _ _ _ hk ih ih' =>
    intro i hi
    have hf := ih i hi
    have hv := ih' i hi
    have hset := someField_set (d := i + 1) (k := k) (v := v) f
    simp only [exceeds] at hf hv ⊢
    grind
  | arr _ ih | obj _ ih =>
    intro i hi
    simp only [exceeds, exceedsBodyNesting, Bool.or_eq_true, decide_eq_true_eq] at ih ⊢
    grind

-- ======== the result

/-- The scan of the bytes of a JSON text tells whether the text nests deeper
than the cap. So it refuses what the walk over the parsed value refuses, and
no more when no object repeats a name. -/
theorem json_nesting_exact (h : Reads numeral unique t (.value v) n) :
    exceedsJsonNesting t.utf8 = decide (n > maxBodyNesting)
    ∧ (exceedsBodyNesting 1 v = true → exceedsJsonNesting t.utf8 = true)
    ∧ (unique → exceedsBodyNesting 1 v = exceedsJsonNesting t.utf8) := by
  have hscan : exceedsJsonNesting t.utf8 = decide (n > maxBodyNesting) := by
    have hpass := passes_reads h 0 [] (by decide)
    rw [append_nil] at hpass
    rw [exceedsJsonNesting, hpass]
    simp [scan]
  obtain ⟨hle, hge⟩ := exceeds_reads h 0 (Nat.zero_le _)
  simp only [Nat.zero_add] at hle hge
  rw [hscan]
  refine ⟨rfl, fun hv => decide_eq_true (hle hv), fun hu => Bool.eq_iff_iff.mpr ?_⟩
  rw [decide_eq_true_eq]
  exact ⟨hle, hge hu⟩

/-- `["\"]"]`: a quote and a bracket in a string. -/
theorem json_nesting_exact_string :
    exceedsJsonNesting (Text.utf8 ['[', '"', '\\', '"', ']', '"', ']']) = false := by
  have h : Reads (fun _ => .zero false) True ['[', '"', '\\', '"', ']', '"', ']'] (.value _) 1 :=
    .arr (.item (.str (.escape mem_cons_self (.plain (by decide) (by decide) (by decide) .nil))))
  exact (json_nesting_exact h).1

end OpenWA.BodyNesting

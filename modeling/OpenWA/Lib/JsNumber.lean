/-
JavaScript numbers without `NaN`, their values and their texts.

# Values

A finite number other than zero is given by the shortest decimal that is
read back as it, as `Number::toString` chooses it: digits that do not end
in a zero, and a power of ten. Two numbers are equal when they have one
value; `-0` and `0` are two numbers of the value 0.

# Texts

`String` lays the digits out in one of four ways, by where the point
falls. A text can be taken apart again (`Layout.text_inj`) and its pieces
have the number's value (`Decimal.value_layout`), so two texts are equal
exactly when the values are.
-/
import Mathlib.Data.Nat.Digits.Defs
import Mathlib.Data.Rat.Cast.Order
import Mathlib.Tactic.Linarith
import Mathlib.Tactic.NormNum
import OpenWA.Lib.Text
import OpenWA.Lib.Utf16

namespace OpenWA

open JsString List

-- ======== numbers

/-- A decimal `digits × 10 ^ exponent`, without zeros at the end. -/
structure Decimal where
  digits : Nat
  exponent : Int
  last : digits % 10 ≠ 0

/-- A number: a zero, a decimal or an infinity, each with its sign. -/
inductive JsNumeral
  | zero (neg : Bool)
  | finite (neg : Bool) (d : Decimal)
  | infinite (neg : Bool)

/-- The value of a decimal. -/
def Decimal.value (d : Decimal) : ℚ := d.digits * 10 ^ d.exponent

/-- A value with its sign. -/
def signed (neg : Bool) (q : ℚ) : ℚ := if neg then -q else q

/-- The value of a number: a rational, or an infinity by its sign. -/
def JsNumeral.value : JsNumeral → ℚ ⊕ Bool
  | .zero _ => .inl 0
  | .finite neg d => .inl (signed neg d.value)
  | .infinite neg => .inr neg

/-- The number is no infinity. -/
def JsNumeral.isFinite : JsNumeral → Bool
  | .infinite _ => false
  | _ => true

-- ======== texts

/-- A digit's code unit. -/
def digitUnit (d : Nat) : CodeUnit := ⟨(48 + d) % 65536, Nat.mod_lt _ (by decide)⟩

/-- The code unit is a digit. -/
def isDigitUnit (u : CodeUnit) : Bool := 48 ≤ u.val && u.val ≤ 57

/-- Code units of a number's text. -/
def isNumberUnit (u : CodeUnit) : Bool :=
  isDigitUnit u || [unit '-', unit '+', unit '.', unit 'e'].contains u

/-- The digits of a number, nothing for zero. -/
def decimal (n : Nat) : JsString := ((Nat.digits 10 n).map digitUnit).reverse

/-- A run of zeros. -/
def zeros (n : Nat) : JsString := replicate n (digitUnit 0)

/-- The pieces of a text: the digits before the point, those behind it, and
the power of ten behind the `e`. -/
structure Layout where
  whole : JsString
  fraction : JsString
  power : Option Int

/-- The text of a power, nothing for none. -/
def powerText : Option Int → JsString
  | none => []
  | some p => unit 'e' :: (if p < 0 then unit '-' else unit '+') :: decimal p.natAbs

/-- The text of the digits behind the point, with the point. -/
def fractionText (fraction : JsString) : JsString :=
  if fraction = [] then [] else unit '.' :: fraction

/-- The text of the pieces. -/
def Layout.text (l : Layout) : JsString := l.whole ++ (fractionText l.fraction ++ powerText l.power)

/-- How `Number::toString` lays a decimal out. -/
def Decimal.layout (d : Decimal) : Layout :=
  let digits := decimal d.digits
  let n := digits.length + d.exponent
  if 0 ≤ d.exponent ∧ n ≤ 21 then ⟨digits ++ zeros d.exponent.toNat, [], none⟩
  else if 0 < n ∧ n ≤ 21 then ⟨digits.take n.toNat, digits.drop n.toNat, none⟩
  else if -6 < n ∧ n ≤ 0 then ⟨[digitUnit 0], zeros (-n).toNat ++ digits, none⟩
  else ⟨digits.take 1, digits.drop 1, some (n - 1)⟩

/-- `String(n)`. -/
def JsNumeral.toText : JsNumeral → JsString
  | .zero _ => [digitUnit 0]
  | .finite true d => unit '-' :: d.layout.text
  | .finite false d => d.layout.text
  | .infinite true => units "-Infinity"
  | .infinite false => units "Infinity"

-- ======== reading

/-- The number a run of digits stands for. -/
def readDigits (s : JsString) : Nat := s.foldl (fun n u => 10 * n + (u.val - 48)) 0

/-- What the pieces of a text stand for. -/
def Layout.value (l : Layout) : ℚ :=
  readDigits (l.whole ++ l.fraction) * 10 ^ (l.power.getD 0 - l.fraction.length)

/-- Digits in front count by their place. -/
theorem readDigits_append (s t : JsString) :
    readDigits (s ++ t) = readDigits s * 10 ^ t.length + readDigits t := by
  have hfold : ∀ (t : JsString) (n : Nat), t.foldl (fun n u => 10 * n + (u.val - 48)) n
      = n * 10 ^ t.length + readDigits t := by
    intro t
    induction t with
    | nil => simp [readDigits]
    | cons u t ih =>
      intro n
      rw [readDigits, foldl_cons, foldl_cons, ih, ih (10 * 0 + _), length_cons, pow_succ]
      ring
  rw [readDigits, foldl_append, hfold]
  rfl

theorem val_digitUnit {d : Nat} (hd : d < 10) : (digitUnit d).val = 48 + d := by
  show (48 + d) % 65536 = 48 + d
  omega

/-- The digits of a number read back as it. -/
theorem readDigits_decimal (n : Nat) : readDigits (decimal n) = n := by
  have hread : ∀ l : List Nat, (∀ d ∈ l, d < 10) →
      readDigits (l.map digitUnit).reverse = Nat.ofDigits 10 l := by
    intro l hl
    induction l with
    | nil => rfl
    | cons d l ih =>
      have hd : readDigits [digitUnit d] = d := by
        have hval := val_digitUnit (hl d mem_cons_self)
        show 10 * 0 + ((digitUnit d).val - 48) = d
        omega
      rw [map_cons, reverse_cons, readDigits_append, ih fun d' hd' => hl d' (mem_cons_of_mem d hd'),
        hd, Nat.ofDigits_cons, length_singleton]
      ring
  exact (hread _ fun d hd => Nat.digits_lt_base (by decide) hd).trans (Nat.ofDigits_digits 10 n)

theorem readDigits_zeros (n : Nat) : readDigits (zeros n) = 0 := by
  induction n with
  | zero => rfl
  | succ n ih =>
    have hsplit : zeros (n + 1) = [digitUnit 0] ++ zeros n := rfl
    rw [hsplit, readDigits_append, ih]
    show 0 * _ + 0 = 0
    rw [Nat.zero_mul]

theorem isDigitUnit_of_mem_decimal {n : Nat} : ∀ u ∈ decimal n, isDigitUnit u = true := by
  intro u hu
  obtain ⟨d, hd, rfl⟩ := mem_map.mp (mem_reverse.mp hu)
  have hlt : d < 10 := Nat.digits_lt_base (by decide) hd
  have hval := val_digitUnit hlt
  simp only [isDigitUnit, Bool.and_eq_true, decide_eq_true_eq]
  omega

theorem Decimal.digits_pos (d : Decimal) : 0 < d.digits :=
  Nat.pos_of_ne_zero fun h => d.last (by rw [h])

theorem Decimal.length_decimal_pos (d : Decimal) : 0 < (decimal d.digits).length := by
  unfold decimal
  rw [length_reverse, length_map, length_pos_iff]
  exact Nat.digits_ne_nil_iff_ne_zero.mpr d.digits_pos.ne'

/-- However it is laid out, a decimal keeps its value. -/
theorem Decimal.value_layout (d : Decimal) : d.layout.value = d.value := by
  -- the digits are there, and the power makes up for where the point is
  have hvalue : ∀ {l : Layout} (shift : Nat), readDigits (l.whole ++ l.fraction) = d.digits * 10 ^ shift →
      (shift : Int) + l.power.getD 0 - l.fraction.length = d.exponent → l.value = d.value := by
    intro l shift hdigits hpower
    unfold Layout.value Decimal.value
    rw [hdigits, ← hpower, Nat.cast_mul, Nat.cast_pow, mul_assoc, Nat.cast_ofNat, ← zpow_natCast,
      ← zpow_add₀ (by norm_num), add_sub_assoc]
  unfold layout
  dsimp only
  split
  next h =>
    refine hvalue d.exponent.toNat ?_ ?_
    · rw [append_nil, readDigits_append, readDigits_decimal, readDigits_zeros, Nat.add_zero]
      simp [zeros]
    · simp only [Option.getD_none, length_nil]
      omega
  next =>
    split
    next hn =>
      refine hvalue 0 ?_ ?_
      · rw [take_append_drop, readDigits_decimal, pow_zero, Nat.mul_one]
      · simp only [Option.getD_none, length_drop]
        omega
    next =>
      split
      next hn =>
        refine hvalue 0 ?_ ?_
        · rw [readDigits_append, readDigits_append, readDigits_decimal, readDigits_zeros]
          show 0 * _ + _ = _
          rw [Nat.zero_mul, Nat.zero_add, Nat.zero_mul, Nat.zero_add, pow_zero, Nat.mul_one]
        · simp only [Option.getD_none, length_append, zeros, length_replicate]
          omega
      next =>
        have hlength := d.length_decimal_pos
        refine hvalue 0 ?_ ?_
        · rw [take_append_drop, readDigits_decimal, pow_zero, Nat.mul_one]
        · simp only [Option.getD_some, length_drop]
          omega

-- ======== taking texts apart

/-- The pieces are digits, and there is one before the point. -/
structure Layout.Ok (l : Layout) : Prop where
  digits : ∀ u ∈ l.whole ++ l.fraction, isDigitUnit u = true
  nonempty : 0 < l.whole.length

theorem Decimal.layout_ok (d : Decimal) : d.layout.Ok := by
  have hlength := d.length_decimal_pos
  have hdigits := isDigitUnit_of_mem_decimal (n := d.digits)
  have hzeros : ∀ n, ∀ u ∈ zeros n, isDigitUnit u = true := by
    intro n u hu
    rw [eq_of_mem_replicate hu]
    rfl
  have hor : ∀ {s t : JsString}, (∀ u ∈ s, isDigitUnit u = true) →
      (∀ u ∈ t, isDigitUnit u = true) → ∀ u ∈ s ++ t, isDigitUnit u = true :=
    fun hs ht u hu => (mem_append.mp hu).elim (hs u) (ht u)
  unfold layout
  dsimp only
  split
  next =>
    refine ⟨?_, ?_⟩
    · rw [append_nil]
      exact hor hdigits (hzeros _)
    · rw [length_append]
      omega
  next =>
    split
    next =>
      refine ⟨by rw [take_append_drop]; exact hdigits, ?_⟩
      rw [length_take]
      omega
    next =>
      split
      next => exact ⟨hor (hzeros 1) (hor (hzeros _) hdigits), Nat.one_pos⟩
      next =>
        refine ⟨by rw [take_append_drop]; exact hdigits, ?_⟩
        rw [length_take]
        omega

theorem powerText_head (power : Option Int) : ∀ u ∈ (powerText power).head?, u = unit 'e' := by
  intro u hu
  cases power with
  | none => cases hu
  | some p => exact (Option.some.inj hu).symm

/-- The text of a power tells it. -/
theorem powerText_inj {p q : Option Int} (h : powerText p = powerText q) : p = q := by
  cases p with
  | none => cases q with
    | none => rfl
    | some q => cases h
  | some p => cases q with
    | none => cases h
    | some q =>
      obtain ⟨hsign, hdigits⟩ := cons.inj (cons.inj h).2
      have habs := congrArg readDigits hdigits
      rw [readDigits_decimal, readDigits_decimal] at habs
      have hneg : p < 0 ↔ q < 0 := by
        split at hsign <;> split at hsign
        · exact ⟨fun _ => ‹_›, fun _ => ‹_›⟩
        · exact absurd hsign (by decide)
        · exact absurd hsign (by decide)
        · exact ⟨fun _ => absurd ‹_› ‹_›, fun _ => absurd ‹_› ‹_›⟩
      congr 1
      omega

variable {l m : Layout}

/-- The pieces of a text can be told. -/
theorem Layout.text_inj (hl : l.Ok) (hm : m.Ok) (h : l.text = m.text) : l = m := by
  have hend : ∀ power, ∀ u ∈ (powerText power).head?, isDigitUnit u = false := by
    intro power u hu
    rw [powerText_head power u hu]
    rfl
  have hpoint : ∀ (s : JsString) power, ∀ u ∈ (fractionText s ++ powerText power).head?,
      isDigitUnit u = false := by
    intro s power u hu
    unfold fractionText at hu
    split at hu
    · exact hend power u hu
    · rw [← Option.some.inj hu]
      rfl
  obtain ⟨hwhole, hrest⟩ := Text.append_inj_of_all
    (fun u hu => hl.digits u (mem_append_left _ hu)) (fun u hu => hm.digits u (mem_append_left _ hu))
    (hpoint _ _) (hpoint _ _) h
  have hnot : ∀ (s : JsString) (p : Option Int), unit '.' :: s ≠ powerText p := by
    intro s p hp
    have hhead := powerText_head p (unit '.') (by rw [← hp]; rfl)
    exact absurd hhead (by decide)
  have hparts : l.fraction = m.fraction ∧ powerText l.power = powerText m.power := by
    unfold fractionText at hrest
    split at hrest <;> split at hrest
    next hnil hnil' => exact ⟨hnil.trans hnil'.symm, hrest⟩
    next => exact absurd hrest.symm (hnot _ _)
    next => exact absurd hrest (hnot _ _)
    next =>
      exact Text.append_inj_of_all (fun u hu => hl.digits u (mem_append_right _ hu))
        (fun u hu => hm.digits u (mem_append_right _ hu)) (hend _) (hend _) (cons.inj hrest).2
  cases l
  cases m
  congr
  · exact hparts.1
  · exact powerText_inj hparts.2

/-- Decimals of one value are one: neither ends in a zero. -/
theorem Decimal.eq_of_value {d e : Decimal} (h : d.value = e.value) : d = e := by
  have hle : ∀ {d e : Decimal}, d.value = e.value → d.exponent ≤ e.exponent →
      d.digits = e.digits ∧ d.exponent = e.exponent := by
    intro d e h hle
    obtain ⟨k, hk⟩ := Int.le.dest hle
    have hdigits : d.digits = e.digits * 10 ^ k := by
      unfold value at h
      rw [← hk, zpow_add₀ (by norm_num), mul_left_comm, mul_comm] at h
      have hcancel := mul_left_cancel₀ (zpow_ne_zero _ (by norm_num)) h
      exact_mod_cast hcancel
    cases k with
    | zero => exact ⟨by rw [hdigits, pow_zero, Nat.mul_one], by omega⟩
    | succ k =>
      refine absurd ?_ d.last
      rw [hdigits, pow_succ, ← mul_assoc]
      exact Nat.mul_mod_left _ _
  obtain ⟨hdigits, hexponent⟩ : d.digits = e.digits ∧ d.exponent = e.exponent := by
    rcases Int.le_total d.exponent e.exponent with hde | hed
    · exact hle h hde
    · exact (hle h.symm hed).imp Eq.symm Eq.symm
  cases d
  cases e
  congr

theorem Decimal.value_pos (d : Decimal) : 0 < d.value := by
  have hdigits : (0 : ℚ) < d.digits := by exact_mod_cast d.digits_pos
  exact mul_pos hdigits (zpow_pos (by norm_num) _)

-- ======== texts and values

section

variable {q r : ℚ} {neg neg' : Bool}

theorem signed_ne_zero (hq : 0 < q) : signed neg q ≠ 0 := by
  cases neg with
  | false => exact hq.ne'
  | true => exact neg_ne_zero.mpr hq.ne'

/-- A sign and a positive value can be told. -/
theorem signed_inj (hq : 0 < q) (hr : 0 < r) (h : signed neg q = signed neg' r) :
    neg = neg' ∧ q = r := by
  cases neg with
  | false =>
    cases neg' with
    | false => exact ⟨rfl, h⟩
    | true =>
      have h' : q = -r := h
      linarith
  | true =>
    cases neg' with
    | false =>
      have h' : -q = r := h
      linarith
    | true => exact ⟨rfl, neg_injective h⟩

end

namespace JsNumeral

/-- A sign is written. -/
def isSigned : JsNumeral → Bool
  | .finite neg _ => neg
  | _ => false

/-- The pieces of a number's text behind its sign. -/
def layout : JsNumeral → Layout
  | .finite _ d => d.layout
  | _ => ⟨[digitUnit 0], [], none⟩

variable {m n : JsNumeral}

theorem layout_ok (n : JsNumeral) : n.layout.Ok := by
  have hzero : (⟨[digitUnit 0], [], none⟩ : Layout).Ok := by
    refine ⟨fun u hu => ?_, Nat.one_pos⟩
    rw [mem_singleton.mp hu]
    rfl
  cases n with
  | finite neg d => exact d.layout_ok
  | zero | infinite => exact hzero

section

variable (hn : n.isFinite = true)
include hn

/-- A text is a sign and its pieces. -/
theorem toText_eq : n.toText = (if n.isSigned then [unit '-'] else []) ++ n.layout.text := by
  cases n with
  | zero => rfl
  | finite neg d => cases neg <;> rfl
  | infinite => cases hn

theorem value_eq : n.value = .inl (signed n.isSigned n.layout.value) := by
  cases n with
  | zero =>
    have hzero : (0 : ℚ) = (0 : Nat) * 10 ^ ((none : Option Int).getD 0 - (0 : Nat)) := by simp
    exact congrArg Sum.inl hzero
  | finite neg d =>
    show Sum.inl (signed neg d.value) = Sum.inl (signed neg d.layout.value)
    rw [d.value_layout]
  | infinite => cases hn

/-- Two finite numbers have one text exactly when they have one value. -/
theorem toText_eq_iff (hm : m.isFinite = true) : m.toText = n.toText ↔ m.value = n.value := by
  constructor
  · intro h
    rw [toText_eq hm, toText_eq hn] at h
    -- digits follow the sign
    have hdigit : ∀ {l : Layout}, l.Ok → ∀ u ∈ l.text.head?, (u == unit '-') = false := by
      intro l hl u hu
      obtain ⟨v, s, hwhole⟩ := exists_cons_of_length_pos hl.nonempty
      have hv := hl.digits v (mem_append_left _ (by rw [hwhole]; exact mem_cons_self))
      rw [Layout.text, hwhole] at hu
      obtain rfl : v = u := Option.some.inj hu
      refine beq_eq_false_iff_ne.mpr fun heq => ?_
      rw [heq] at hv
      cases hv
    have hsign : ∀ b : Bool, ∀ u ∈ (if b then [unit '-'] else []), (u == unit '-') = true := by
      intro b u hu
      cases b with
      | false => cases hu
      | true => exact beq_iff_eq.mpr (mem_singleton.mp hu)
    obtain ⟨hsigned, htext⟩ := Text.append_inj_of_all (hsign _) (hsign _)
      (hdigit m.layout_ok) (hdigit n.layout_ok) h
    have hsame : m.isSigned = n.isSigned := by
      cases hm' : m.isSigned <;> cases hn' : n.isSigned <;> simp [hm', hn'] at hsigned ⊢
    rw [value_eq hm, value_eq hn, hsame, Layout.text_inj m.layout_ok n.layout_ok htext]
  · intro h
    cases m with
    | infinite => cases hm
    | zero =>
      cases n with
      | infinite => cases hn
      | zero => rfl
      | finite neg d => exact absurd (Sum.inl.inj h).symm (signed_ne_zero d.value_pos)
    | finite neg d =>
      cases n with
      | infinite => cases hn
      | zero => exact absurd (Sum.inl.inj h) (signed_ne_zero d.value_pos)
      | finite neg' d' =>
        obtain ⟨rfl, hvalue⟩ := signed_inj d.value_pos d'.value_pos (Sum.inl.inj h)
        rw [Decimal.eq_of_value hvalue]

theorem toText_ne_nil : n.toText ≠ [] := by
  have hlength := n.layout_ok.nonempty
  rw [toText_eq hn, Layout.text]
  intro hnil
  have hwhole := (append_eq_nil_iff.mp (append_eq_nil_iff.mp hnil).2).1
  rw [hwhole] at hlength
  cases hlength

theorem isNumberUnit_toText : ∀ u ∈ n.toText, isNumberUnit u = true := by
  have hdigit : ∀ {s : JsString}, (∀ u ∈ s, isDigitUnit u = true) →
      ∀ u ∈ s, isNumberUnit u = true := by
    intro s hs u hu
    rw [isNumberUnit, hs u hu, Bool.true_or]
  intro u hu
  rw [toText_eq hn, Layout.text, mem_append, mem_append, mem_append] at hu
  rcases hu with hsign | hwhole | hfraction | hpower
  · cases hs : n.isSigned with
    | false => rw [hs] at hsign; cases hsign
    | true =>
      rw [hs] at hsign
      rw [mem_singleton.mp hsign]
      rfl
  · exact hdigit (fun u hu => n.layout_ok.digits u (mem_append_left _ hu)) u hwhole
  · unfold fractionText at hfraction
    split at hfraction
    · cases hfraction
    · rcases mem_cons.mp hfraction with rfl | hu
      · rfl
      · exact hdigit (fun u hu => n.layout_ok.digits u (mem_append_right _ hu)) u hu
  · cases hp : n.layout.power with
    | none => rw [hp] at hpower; cases hpower
    | some p =>
      rw [hp] at hpower
      rcases mem_cons.mp hpower with rfl | hpower
      · rfl
      · rcases mem_cons.mp hpower with rfl | hu
        · split <;> rfl
        · exact hdigit isDigitUnit_of_mem_decimal u hu

end

end JsNumeral

end OpenWA

/-
Percent encoding: `encodeURIComponent` of JavaScript.

# Why it is a code

A character that needs no escape stands for itself; any other is written as
its UTF-8 bytes, each a `%` and two hexadecimal digits. Read byte by byte
this is a prefix code, because `%` is not among the characters that stand
for themselves, so the text can be told from its encoding. No separator
(`:`, `/`, `@`) is left in an encoded text.
-/
import Mathlib.Data.List.Basic
import OpenWA.Lib.Text

namespace OpenWA

open List

variable {b : UInt8} {c : Char} {s : Text} {n : Nat} {b' : UInt8} {x y : Text}

namespace Text

/-- The characters `encodeURIComponent` leaves alone: letters, digits and
`- _ . ! ~ * ' ( )`. -/
def isUnescaped (c : Char) : Bool :=
  c.isAlphanum || ['-', '_', '.', '!', '~', '*', '(', ')'].contains c || c.toNat == 39

/-- A hexadecimal digit, in capitals. -/
def hexDigit (n : Nat) : Char :=
  if n < 10 then Char.ofNat (48 + n) else Char.ofNat (55 + n)

/-- A byte escaped. -/
def percentByte (b : UInt8) : Text := ['%', hexDigit (b.toNat / 16), hexDigit (b.toNat % 16)]

/-- A character as it is, or its bytes escaped. -/
def encodeChar (c : Char) : Text :=
  if isUnescaped c then [c] else (String.utf8EncodeChar c).flatMap percentByte

/-- `encodeURIComponent`. -/
def encodeURIComponent (s : Text) : Text := s.flatMap encodeChar

-- ======== one byte

/-- A byte of the encoding: the character it is, if that stands for itself. -/
def encodeByte (b : UInt8) : Text :=
  if isUnescaped (Char.ofNat b.toNat) then [Char.ofNat b.toNat] else percentByte b

theorem hexDigit_inj {m : Nat} (hm : m < 16) (hn : n < 16) (h : hexDigit m = hexDigit n) :
    m = n := by
  have htable : ∀ i < 16, ∀ j < 16, hexDigit i = hexDigit j → i = j := by decide
  exact htable m hm n hn h

theorem isUnescaped_hexDigit (hn : n < 16) : isUnescaped (hexDigit n) = true := by
  have htable : ∀ i < 16, isUnescaped (hexDigit i) = true := by decide
  exact htable n hn

theorem toNat_ofNat_byte (b : UInt8) : (Char.ofNat b.toNat).toNat = b.toNat := by
  have hlt : b.toNat < 256 := b.toNat_lt
  have hvalid : b.toNat.isValidChar := .inl (by omega)
  unfold Char.ofNat
  rw [dif_pos hvalid]
  rfl

theorem percentByte_append_inj (h : percentByte b ++ x = percentByte b' ++ y) : b = b' ∧ x = y := by
  have hlt : b.toNat < 256 := b.toNat_lt
  have hlt' : b'.toNat < 256 := b'.toNat_lt
  simp only [percentByte, cons_append, nil_append, cons.injEq, true_and] at h
  obtain ⟨hhigh, hlow, hrest⟩ := h
  have hdiv := hexDigit_inj (by omega) (by omega) hhigh
  have hmod := hexDigit_inj (by omega) (by omega) hlow
  refine ⟨UInt8.toNat_inj.mp ?_, hrest⟩
  omega

/-- One byte can be cut from the front in one way. -/
theorem encodeByte_append_inj (h : encodeByte b ++ x = encodeByte b' ++ y) : b = b' ∧ x = y := by
  have hself : isUnescaped '%' = false := by decide
  unfold encodeByte at h
  split at h
  next hb =>
    split at h
    next hb' =>
      injection h with hchar hrest
      have hnat := congrArg Char.toNat hchar
      rw [toNat_ofNat_byte, toNat_ofNat_byte] at hnat
      exact ⟨UInt8.toNat_inj.mp hnat, hrest⟩
    next =>
      injection h with hchar _
      rw [hchar, hself] at hb
      cases hb
  next =>
    split at h
    next hb' =>
      injection h with hchar _
      rw [← hchar, hself] at hb'
      cases hb'
    next => exact percentByte_append_inj h

theorem flatMap_encodeByte_inj {l l' : List UInt8}
    (h : l.flatMap encodeByte = l'.flatMap encodeByte) : l = l' := by
  have hne : ∀ b : UInt8, encodeByte b ≠ [] := by
    intro b
    unfold encodeByte percentByte
    split <;> exact cons_ne_nil _ _
  induction l generalizing l' with
  | nil =>
    cases l' with
    | nil => rfl
    | cons b' l' =>
      exact absurd (append_eq_nil_iff.mp h.symm).1 (hne b')
  | cons b l ih =>
    cases l' with
    | nil =>
      exact absurd (append_eq_nil_iff.mp h).1 (hne b)
    | cons b' l' =>
      obtain ⟨hb, hl⟩ := encodeByte_append_inj h
      rw [hb, ih hl]

-- ======== one character

theorem toNat_lt_of_isUnescaped (h : isUnescaped c = true) : c.toNat < 128 := by
  unfold isUnescaped at h
  rw [Bool.or_eq_true, Bool.or_eq_true] at h
  rcases h with (h | h) | h
  · have hcapital : c.isUpper = true → c.toNat ≤ 90 := fun hup =>
      UInt32.le_iff_toNat_le.mp (of_decide_eq_true hup).2
    have hsmall : c.isLower = true → c.toNat ≤ 122 := by
      intro hlow
      have hrange : (decide (c.val ≥ 'a'.val) && decide (c.val ≤ 'z'.val)) = true := hlow
      rw [Bool.and_eq_true, decide_eq_true_eq, decide_eq_true_eq] at hrange
      exact hrange.2
    have hclass : ((c.isUpper || c.isLower) || c.isDigit) = true := h
    rw [Bool.or_eq_true, Bool.or_eq_true] at hclass
    rcases hclass with (hup | hlow) | hdigit
    · have := hcapital hup
      omega
    · have := hsmall hlow
      omega
    · exact toNat_lt_of_isDigit hdigit
  · have hmem := mem_of_elem_eq_true h
    simp only [mem_cons, not_mem_nil, or_false] at hmem
    rcases hmem with rfl | rfl | rfl | rfl | rfl | rfl | rfl | rfl <;> decide
  · rw [eq_of_beq h]
    decide

theorem utf8_of_lt (hc : c.toNat < 128) : String.utf8EncodeChar c = [UInt8.ofNat c.toNat] := by
  have hval : c.toNat = c.val.toNat := rfl
  unfold String.utf8EncodeChar
  rw [if_pos (by omega), hval]

/-- The bytes of a character past ASCII are past ASCII. -/
theorem le_toNat_of_mem_utf8 (hc : ¬ c.toNat < 128) (hb : b ∈ String.utf8EncodeChar c) :
    128 ≤ b.toNat := by
  have hval : c.toNat = c.val.toNat := rfl
  unfold String.utf8EncodeChar at hb
  rw [if_neg (by omega)] at hb
  split at hb
  next =>
    simp only [mem_cons, not_mem_nil, or_false] at hb
    rcases hb with rfl | rfl <;> rw [UInt8.toNat_ofNat'] <;> omega
  next =>
    split at hb <;>
      simp only [mem_cons, not_mem_nil, or_false] at hb
    · rcases hb with rfl | rfl | rfl <;> rw [UInt8.toNat_ofNat'] <;> omega
    · rcases hb with rfl | rfl | rfl | rfl <;> rw [UInt8.toNat_ofNat'] <;> omega

/-- A character is encoded byte by byte. -/
theorem encodeChar_eq (c : Char) : encodeChar c = (String.utf8EncodeChar c).flatMap encodeByte := by
  unfold encodeChar
  by_cases hc : c.toNat < 128
  · have hback : Char.ofNat (UInt8.ofNat c.toNat).toNat = c := by
      rw [UInt8.toNat_ofNat', Nat.mod_eq_of_lt (by omega), Char.ofNat_toNat]
    rw [utf8_of_lt hc, flatMap_singleton, flatMap_singleton]
    unfold encodeByte
    rw [hback]
  · have hself : isUnescaped c ≠ true := fun h => hc (toNat_lt_of_isUnescaped h)
    rw [if_neg hself]
    refine flatMap_congr ?_
    intro b hb
    unfold encodeByte
    rw [if_neg]
    intro h
    have hlt := toNat_lt_of_isUnescaped h
    have hge := le_toNat_of_mem_utf8 hc hb
    rw [toNat_ofNat_byte] at hlt
    omega

theorem encodeURIComponent_eq (s : Text) :
    encodeURIComponent s = (s.flatMap String.utf8EncodeChar).flatMap encodeByte := by
  rw [flatMap_assoc]
  exact flatMap_congr fun c _ => encodeChar_eq c

-- ======== the text

/-- An encoded text can be decoded. -/
theorem encodeURIComponent_inj {t : Text} (h : encodeURIComponent s = encodeURIComponent t) :
    s = t := by
  rw [encodeURIComponent_eq, encodeURIComponent_eq] at h
  have hbytes := congrArg toByteArray (flatMap_encodeByte_inj h)
  have hstring : String.ofList s = String.ofList t := String.toByteArray_inj.mp hbytes
  exact String.ofList_injective hstring

/-- What an encoded text is made of. -/
theorem mem_encodeURIComponent (h : c ∈ encodeURIComponent s) : isUnescaped c = true ∨ c = '%' := by
  obtain ⟨d, -, hc⟩ := mem_flatMap.mp h
  unfold encodeChar at hc
  split at hc
  next hd =>
    rw [mem_singleton.mp hc]
    exact .inl hd
  next =>
    obtain ⟨b, -, hb⟩ := mem_flatMap.mp hc
    have hlt : b.toNat < 256 := b.toNat_lt
    simp only [percentByte, mem_cons, not_mem_nil, or_false] at hb
    rcases hb with rfl | rfl | rfl
    · exact .inr rfl
    · exact .inl (isUnescaped_hexDigit (by omega))
    · exact .inl (isUnescaped_hexDigit (by omega))

theorem percent_mem_encodeURIComponent (hc : c ∈ s) (hself : isUnescaped c = false) :
    '%' ∈ encodeURIComponent s := by
  refine mem_flatMap.mpr ⟨c, hc, ?_⟩
  unfold encodeChar
  rw [hself]
  obtain ⟨b, rest, hbytes⟩ : ∃ b rest, String.utf8EncodeChar c = b :: rest := by
    unfold String.utf8EncodeChar
    dsimp only
    split
    · exact ⟨_, _, rfl⟩
    · split
      · exact ⟨_, _, rfl⟩
      · split <;> exact ⟨_, _, rfl⟩
  rw [hbytes]
  exact mem_cons_self

end Text

end OpenWA

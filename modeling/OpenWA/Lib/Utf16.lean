/-
JavaScript strings: lists of UTF-16 code units, and the quoting of
`JSON.stringify`.

# Quoting

`QuoteJSONString` writes a code unit as itself or as an escape: the quote,
the backslash and the control characters always, a surrogate when it has no
partner. Whether a surrogate has one depends on its neighbour, so the code
of a unit is not a function of the unit; but each of its two codes can be
read off the front of a text (`readUnit`), which is all that unique
decoding needs (`Encodes`). What is written is well formed, whatever the
string: no surrogate is left alone in it.
-/
import Mathlib.Data.List.Basic
import Mathlib.Tactic.IntervalCases

namespace OpenWA

/-- A UTF-16 code unit. -/
abbrev CodeUnit := Fin 65536

/-- A JavaScript string. -/
abbrev JsString := List CodeUnit

/-- The code unit of a character of the basic plane. -/
def unit (c : Char) : CodeUnit := Fin.ofNat 65536 c.toNat

/-- The code units of a character. -/
def utf16 (c : Char) : JsString :=
  if c.toNat < 0x10000 then [unit c]
  else
    [Fin.ofNat 65536 (0xd800 + (c.toNat - 0x10000) / 0x400),
      Fin.ofNat 65536 (0xdc00 + c.toNat % 0x400)]

/-- A text without characters beyond the basic plane. -/
def units (s : String) : JsString := s.toList.map unit

namespace CodeUnit

/-- The first half of a surrogate pair. -/
def isLead (u : CodeUnit) : Bool := 0xd800 ≤ u.val && u.val ≤ 0xdbff

/-- The second half of a surrogate pair. -/
def isTrail (u : CodeUnit) : Bool := 0xdc00 ≤ u.val && u.val ≤ 0xdfff

/-- Never written as itself: the quote, the backslash and the controls. -/
def isSpecial (u : CodeUnit) : Bool := u.val = 34 || u.val = 92 || u.val < 32

end CodeUnit

open CodeUnit

variable {u : CodeUnit} {s e : JsString}

namespace JsString

-- ======== well formed

/-- Every surrogate has its partner. -/
def wellFormed : JsString → Bool
  | [] => true
  | [u] => !isLead u && !isTrail u
  | u :: v :: rest =>
    if isLead u && isTrail v then wellFormed rest
    else !isLead u && !isTrail u && wellFormed (v :: rest)

-- ======== quoting

/-- A hexadecimal digit. -/
def hexUnit (n : Nat) : CodeUnit := Fin.ofNat 65536 (if n < 10 then 48 + n else 87 + n)

/-- The backslash, and `\u` with four digits. -/
def backslash : CodeUnit := 92

/-- A code unit as `\u` and four digits. -/
def unicodeEscape (u : CodeUnit) : JsString :=
  [backslash, 117, hexUnit (u.val / 4096), hexUnit (u.val / 256 % 16), hexUnit (u.val / 16 % 16),
    hexUnit (u.val % 16)]

/-- The escape of a code unit. -/
def escapeUnit (u : CodeUnit) : JsString :=
  if u.val = 8 then [backslash, 98]
  else if u.val = 9 then [backslash, 116]
  else if u.val = 10 then [backslash, 110]
  else if u.val = 12 then [backslash, 102]
  else if u.val = 13 then [backslash, 114]
  else if u.val = 34 then [backslash, 34]
  else if u.val = 92 then [backslash, 92]
  else unicodeEscape u

/-- A code unit without a partner. -/
def quoteUnit (u : CodeUnit) : JsString :=
  if isSpecial u || isLead u || isTrail u then escapeUnit u else [u]

/-- What stands between the quotes. -/
def escape : JsString → JsString
  | [] => []
  | [u] => quoteUnit u
  | u :: v :: rest =>
    if isLead u && isTrail v then u :: v :: escape rest
    else quoteUnit u ++ escape (v :: rest)

/-- `JSON.stringify` of a string. -/
def quote (s : JsString) : JsString := 34 :: (escape s ++ [34])

/-- `Array.prototype.join(',')`. -/
def join : List JsString → JsString
  | [] => []
  | [s] => s
  | s :: t :: rest => s ++ unit ',' :: join (t :: rest)

-- ======== reading

/-- The value of a hexadecimal digit. -/
def hexValue (u : CodeUnit) : Nat := if u.val < 58 then u.val - 48 else u.val - 87

/-- What follows a backslash, read as one code unit. -/
def readEscape : JsString → Option (CodeUnit × JsString)
  | [] => none
  | c :: rest =>
    if c.val = 117 then
      match rest with
      | a :: b :: d :: e :: rest' =>
        some (Fin.ofNat 65536
          (4096 * hexValue a + 256 * hexValue b + 16 * hexValue d + hexValue e), rest')
      | _ => none
    else if c.val = 98 then some (8, rest)
    else if c.val = 116 then some (9, rest)
    else if c.val = 110 then some (10, rest)
    else if c.val = 102 then some (12, rest)
    else if c.val = 114 then some (13, rest)
    else some (c, rest)

/-- The first code unit of an escaped text and what follows it; nothing at
a closing quote. -/
def readUnit : JsString → Option (CodeUnit × JsString)
  | [] => none
  | c :: rest =>
    if c.val = 34 then none
    else if c.val = 92 then readEscape rest
    else some (c, rest)

theorem hexValue_hexUnit {n : Nat} (hn : n < 16) : hexValue (hexUnit n) = n := by
  interval_cases n <;> rfl

theorem readUnit_unicodeEscape (u : CodeUnit) (x : JsString) :
    readUnit (unicodeEscape u ++ x) = some (u, x) := by
  have hread : readUnit (unicodeEscape u ++ x) = some (Fin.ofNat 65536
      (4096 * hexValue (hexUnit (u.val / 4096)) + 256 * hexValue (hexUnit (u.val / 256 % 16))
        + 16 * hexValue (hexUnit (u.val / 16 % 16)) + hexValue (hexUnit (u.val % 16))), x) := rfl
  rw [hread, hexValue_hexUnit (by omega), hexValue_hexUnit (by omega), hexValue_hexUnit (by omega),
    hexValue_hexUnit (by omega)]
  refine congrArg (fun v => some (v, x)) (Fin.ext ?_)
  show (4096 * (u.val / 4096) + 256 * (u.val / 256 % 16) + 16 * (u.val / 16 % 16) + u.val % 16)
    % 65536 = u.val
  omega

theorem readUnit_escapeUnit (u : CodeUnit) (x : JsString) :
    readUnit (escapeUnit u ++ x) = some (u, x) := by
  have hext : ∀ {v : CodeUnit}, u.val = v.val → some (v, x) = some (u, x) := by
    intro v h
    rw [Fin.ext h]
  unfold escapeUnit
  repeat' split
  all_goals first | exact hext ‹_› | exact readUnit_unicodeEscape u x

theorem readUnit_self (hu : isSpecial u = false) (x : JsString) :
    readUnit (u :: x) = some (u, x) := by
  simp only [isSpecial, Bool.or_eq_false_iff, decide_eq_false_iff_not] at hu
  show (if u.val = 34 then none else if u.val = 92 then readEscape x else some (u, x)) = _
  rw [if_neg hu.1.1, if_neg hu.1.2]

/-- `e` writes `s` unit by unit, each as itself or as its escape. -/
inductive Encodes : JsString → JsString → Prop
  | nil : Encodes [] []
  | self {u : CodeUnit} {s e : JsString} (hu : isSpecial u = false) (h : Encodes s e) :
      Encodes (u :: s) (u :: e)
  | escaped {u : CodeUnit} {s e : JsString} (h : Encodes s e) : Encodes (u :: s) (escapeUnit u ++ e)

theorem encodes_quoteUnit (u : CodeUnit) (h : Encodes s e) :
    Encodes (u :: s) (quoteUnit u ++ e) := by
  unfold quoteUnit
  split
  · exact .escaped h
  · next hu =>
    simp only [Bool.or_eq_true, not_or, Bool.not_eq_true] at hu
    exact .self hu.1.1 h

theorem isSpecial_of_surrogate (h : isLead u = true ∨ isTrail u = true) : isSpecial u = false := by
  simp only [isLead, isTrail, Bool.and_eq_true, decide_eq_true_eq] at h
  simp only [isSpecial, Bool.or_eq_false_iff, decide_eq_false_iff_not]
  omega

theorem encodes_escape : ∀ s : JsString, Encodes s (escape s)
  | [] => .nil
  | [u] => by
      have := encodes_quoteUnit u .nil
      rwa [List.append_nil] at this
  | u :: v :: rest => by
      unfold escape
      split
      next hpair =>
        obtain ⟨hu, hv⟩ := Bool.and_eq_true_iff.mp hpair
        exact .self (isSpecial_of_surrogate (.inl hu))
          (.self (isSpecial_of_surrogate (.inr hv)) (encodes_escape rest))
      next => exact encodes_quoteUnit u (encodes_escape (v :: rest))

/-- The first unit of what is written is the first unit of the string. -/
theorem Encodes.read (h : Encodes (u :: s) e) (x : JsString) :
    ∃ e', Encodes s e' ∧ readUnit (e ++ x) = some (u, e' ++ x) := by
  cases h with
  | self hu h => exact ⟨_, h, readUnit_self hu _⟩
  | escaped h =>
    refine ⟨_, h, ?_⟩
    rw [List.append_assoc]
    exact readUnit_escapeUnit u _

/-- Two codes with a closing quote behind come apart in one way. -/
theorem Encodes.append_inj {t f x y : JsString} (hs : Encodes s e) (ht : Encodes t f)
    (h : e ++ 34 :: x = f ++ 34 :: y) : s = t ∧ x = y := by
  induction s generalizing t e f with
  | nil =>
    cases hs
    cases t with
    | nil =>
      cases ht
      injection h with _ hxy
      exact ⟨rfl, hxy⟩
    | cons v t =>
      obtain ⟨f', -, hread⟩ := ht.read (34 :: y)
      rw [← h] at hread
      cases hread
  | cons u s ih =>
    obtain ⟨e', he', hread⟩ := hs.read (34 :: x)
    rw [h] at hread
    cases t with
    | nil =>
      cases ht
      cases hread
    | cons v t =>
      obtain ⟨f', hf', hread'⟩ := ht.read (34 :: y)
      rw [hread'] at hread
      injection hread with hpair
      injection hpair with huv hrest
      obtain ⟨rfl, hxy⟩ := ih he' hf' hrest.symm
      exact ⟨by rw [huv], hxy⟩

/-- Quoted strings come off the front of a text in one way. -/
theorem quote_append_inj {t x y : JsString} (h : quote s ++ x = quote t ++ y) : s = t ∧ x = y := by
  unfold quote at h
  rw [List.cons_append, List.cons_append, List.append_assoc, List.append_assoc] at h
  injection h with _ h
  exact (encodes_escape s).append_inj (encodes_escape t) h

-- ======== what is written

/-- A text of units outside the surrogates. -/
theorem wellFormed_cons (hu : isLead u = false) (hu' : isTrail u = false) :
    wellFormed (u :: s) = wellFormed s := by
  cases s with
  | nil | cons => simp [wellFormed, hu, hu']

theorem wellFormed_append : ∀ {s t : JsString}, wellFormed s = true → wellFormed t = true →
    wellFormed (s ++ t) = true
  | [], _, _, ht => ht
  | [u], t, hs, ht => by
      simp only [wellFormed, Bool.and_eq_true, Bool.not_eq_true'] at hs
      rw [List.singleton_append, wellFormed_cons hs.1 hs.2]
      exact ht
  | u :: v :: rest, t, hs, ht => by
      unfold wellFormed at hs
      split at hs
      next hpair =>
        show wellFormed (u :: v :: (rest ++ t)) = true
        unfold wellFormed
        rw [if_pos hpair]
        exact wellFormed_append hs ht
      next hpair =>
        simp only [Bool.and_eq_true, Bool.not_eq_true'] at hs
        rw [List.cons_append, wellFormed_cons hs.1.1 hs.1.2]
        exact wellFormed_append hs.2 ht

/-- Text below the surrogates is well formed. -/
theorem wellFormed_of_lt : ∀ {s : JsString}, (∀ u ∈ s, u.val < 0xd800) → wellFormed s = true
  | [], _ => rfl
  | u :: rest, h => by
      have hu := h u List.mem_cons_self
      have hlead : isLead u = false := by
        simp only [isLead, Bool.and_eq_false_iff, decide_eq_false_iff_not]
        omega
      have htrail : isTrail u = false := by
        simp only [isTrail, Bool.and_eq_false_iff, decide_eq_false_iff_not]
        omega
      rw [wellFormed_cons hlead htrail]
      exact wellFormed_of_lt fun v hv => h v (List.mem_cons_of_mem u hv)

theorem hexUnit_lt {n : Nat} (hn : n < 16) : (hexUnit n).val < 0xd800 := by
  interval_cases n <;> decide

theorem wellFormed_escapeUnit (u : CodeUnit) : wellFormed (escapeUnit u) = true := by
  have hunicode : wellFormed (unicodeEscape u) = true := by
    refine wellFormed_of_lt fun v hv => ?_
    simp only [unicodeEscape, List.mem_cons, List.not_mem_nil, or_false] at hv
    rcases hv with rfl | rfl | rfl | rfl | rfl | rfl
    · decide
    · decide
    · exact hexUnit_lt (by omega)
    · exact hexUnit_lt (by omega)
    · exact hexUnit_lt (by omega)
    · exact hexUnit_lt (by omega)
  unfold escapeUnit
  repeat' split
  all_goals first | rfl | exact hunicode

theorem wellFormed_quoteUnit (u : CodeUnit) : wellFormed (quoteUnit u) = true := by
  unfold quoteUnit
  split
  · exact wellFormed_escapeUnit u
  · next hu =>
    simp only [Bool.or_eq_true, not_or, Bool.not_eq_true] at hu
    simp [wellFormed, hu.1.2, hu.2]

theorem wellFormed_escape : ∀ s : JsString, wellFormed (escape s) = true
  | [] => rfl
  | [u] => wellFormed_quoteUnit u
  | u :: v :: rest => by
      unfold escape
      split
      next hpair =>
        unfold wellFormed
        rw [if_pos hpair]
        exact wellFormed_escape rest
      next => exact wellFormed_append (wellFormed_quoteUnit u) (wellFormed_escape (v :: rest))

theorem wellFormed_quote (s : JsString) : wellFormed (quote s) = true := by
  unfold quote
  rw [wellFormed_cons (by decide) (by decide)]
  exact wellFormed_append (wellFormed_escape s) (by decide)

end JsString

end OpenWA

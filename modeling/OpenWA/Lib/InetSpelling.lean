/-
Respelling an address literal: what a change of case, a rewritten dotted
quad and a number written out in digits do to the address a text
spells.

# Three changes of spelling

- Lower case: `IPv6Literal.lower` — hex digits mean the same in either
  case, and nothing else in a literal has one.
- The dotted quad: `Groups.split` separates it from the hex groups in
  front, so that it can be written as two groups instead.
- Digits: `lowGroup_toDigits` and `octet_toDigits` — a number written out
  in base 16 or 10 is a group or an octet that stands for it.
-/
import OpenWA.Lib.Inet

namespace OpenWA.Inet

open Text List

-- ======== lower case

variable {c : Char} {s : Text} {n : Nat} {ss : List Text} {ns : List Nat}

theorem toNat_lt_of_isHexDigit (h : isHexDigit c = true) : c.toNat < 128 := by
  unfold isHexDigit hexDigit? at h
  split at h
  next hd =>
    have : c.toNat ≤ 57 := hd.2
    omega
  next =>
    split at h
    next hd =>
      have : c.toNat ≤ 102 := hd.2
      omega
    next =>
      split at h
      next hd =>
        have : c.toNat ≤ 70 := hd.2
        omega
      next => cases h

/-- A hex digit's value does not depend on its case. -/
theorem hexDigit?_toLower : isHexDigit c = true → hexDigit? c.toLower = hexDigit? c :=
  of_ascii (p := fun c => hexDigit? c.toLower = hexDigit? c) toNat_lt_of_isHexDigit
    (by decide +kernel)

/-- A hex digit that is written in lower case. -/
def isLowHex (c : Char) : Bool := ('0' ≤ c && c ≤ '9') || ('a' ≤ c && c ≤ 'f')

theorem isLowHex_toLower : isHexDigit c = true → isLowHex c.toLower = true :=
  of_ascii (p := fun c => isLowHex c.toLower = true) toNat_lt_of_isHexDigit (by decide +kernel)

theorem isHexDigit_of_isLowHex (h : isLowHex c = true) : isHexDigit c = true := by
  simp only [isLowHex, Bool.or_eq_true, Bool.and_eq_true, decide_eq_true_eq] at h
  unfold isHexDigit hexDigit?
  rcases h with h | h
  · rw [if_pos h]
    rfl
  · split
    · rfl
    · rfl

theorem hexValue_lower (h : ∀ c ∈ s, isHexDigit c = true) :
    hexValue (s.map Char.toLower) = hexValue s := by
  unfold hexValue
  rw [foldl_map]
  apply foldl_ext
  intro n c hc
  rw [hexDigit?_toLower (h c hc)]

/-- A group written in lower case. -/
structure LowGroup (s : Text) (n : Nat) : Prop extends HexGroup s n where
  low : ∀ c ∈ s, isLowHex c = true

theorem HexGroup.lower (h : HexGroup s n) : LowGroup (s.map Char.toLower) n where
  ne_nil := by
    intro hnil
    exact h.ne_nil (map_eq_nil_iff.mp hnil)
  length_le := by
    rw [length_map]
    exact h.length_le
  digits := by
    intro c hc
    obtain ⟨d, hd, rfl⟩ := mem_map.mp hc
    show (hexDigit? d.toLower).isSome = true
    rw [hexDigit?_toLower (h.digits d hd)]
    exact h.digits d hd
  value := (hexValue_lower h.digits).trans h.value
  low := by
    intro c hc
    obtain ⟨d, hd, rfl⟩ := mem_map.mp hc
    exact isLowHex_toLower (h.digits d hd)

theorem lower_groups (h : List.Forall₂ HexGroup ss ns) :
    List.Forall₂ LowGroup (ss.map (map Char.toLower)) ns := by
  induction h with
  | nil => exact List.Forall₂.nil
  | cons h₁ _ ih => exact List.Forall₂.cons h₁.lower ih

theorem hexGroups_of_low (h : List.Forall₂ LowGroup ss ns) :
    List.Forall₂ HexGroup ss ns := h.imp fun _ _ hg => hg.toHexGroup

theorem IPv4Literal.map_toLower (h : IPv4Literal s n) : s.map Char.toLower = s := by
  have hid : s.map Char.toLower = s.map id := by
    apply map_congr_left
    intro c hc
    rcases h.chars c hc with hd | rfl
    · exact toLower_of_isDigit hd
    · rfl
  rw [hid, map_id]

theorem joinColons_lower (ss : List Text) :
    (joinColons ss).map Char.toLower = joinColons (ss.map (map Char.toLower)) := by
  unfold joinColons
  induction ss with
  | nil => rfl
  | cons s rest ih =>
    cases rest with
    | nil => simp only [intercalate_singleton, map_cons, map_nil]
    | cons r rest =>
      simp only [map_cons, intercalate_cons_cons, map_append] at ih ⊢
      rw [ih]
      rfl

theorem Groups.lower (h : Groups ss ns) : Groups (ss.map (map Char.toLower)) ns := by
  induction h with
  | nil => exact Groups.nil
  | hex hhex _ ih => exact Groups.hex hhex.lower.toHexGroup ih
  | quad hq =>
    rw [map_cons, map_nil, hq.map_toLower]
    exact Groups.quad hq

/-- A literal in lower case spells the same address. -/
theorem IPv6Literal.lower {g : List Nat} (h : IPv6Literal s g) :
    IPv6Literal (s.map Char.toLower) g := by
  cases h with
  | full hg hlen =>
    rw [joinColons_lower]
    exact IPv6Literal.full hg.lower hlen
  | compressed hhn htn hle =>
    simp only [map_append, map_cons, joinColons_lower]
    exact IPv6Literal.compressed (hexGroups_of_low (lower_groups hhn)) htn.lower hle

-- ======== the dotted quad

/-- Groups are all hex, or hex up to a dotted quad at the end. -/
theorem Groups.split (h : Groups ss ns) :
    List.Forall₂ HexGroup ss ns
      ∨ ∃ init q ms n, ss = init ++ [q] ∧ ns = ms ++ [n / 65536, n % 65536]
          ∧ List.Forall₂ HexGroup init ms ∧ IPv4Literal q n := by
  induction h with
  | nil => exact .inl List.Forall₂.nil
  | @hex s n ss ns hhex _ ih =>
    rcases ih with hall | ⟨init, q, ms, m, rfl, rfl, hinit, hq⟩
    · exact .inl (List.Forall₂.cons hhex hall)
    · exact .inr ⟨s :: init, q, n :: ms, m, rfl, rfl, List.Forall₂.cons hhex hinit, hq⟩
  | @quad s n hq => exact .inr ⟨[], s, [], n, rfl, rfl, List.Forall₂.nil, hq⟩

/-- Joined pieces with more pieces behind: every piece in front is
closed by a colon. -/
theorem joinColons_append (init : List Text) {rest : List Text}
    (h : rest ≠ []) : joinColons (init ++ rest) = init.flatMap (· ++ [':']) ++ joinColons rest := by
  unfold joinColons
  induction init with
  | nil => rfl
  | cons s init ih =>
    have hne : init ++ rest ≠ [] := by
      intro hnil
      exact h (append_eq_nil_iff.mp hnil).2
    rw [cons_append, intercalate_cons_of_ne_nil hne, ih, flatMap_cons]
    simp only [append_assoc]

theorem forall_mem_of_forall₂ {α β : Type*} {r : α → β → Prop}
    {p : α → Prop} (hp : ∀ a b, r a b → p a) {as : List α} {bs : List β}
    (h : List.Forall₂ r as bs) : ∀ a ∈ as, p a := by
  induction h with
  | nil => intro a ha; cases ha
  | cons h₁ _ ih =>
    intro a ha
    rcases mem_cons.1 ha with rfl | ha'
    · exact hp _ _ h₁
    · exact ih a ha'

-- ======== written numbers

theorem hexDigit?_digitChar {d : Nat} (h : d < 16) : hexDigit? d.digitChar = some d := by
  revert d
  decide

theorem isLowHex_digitChar {d : Nat} (h : d < 16) : isLowHex d.digitChar = true := by
  revert d
  decide

theorem hexValue_append_singleton (s : Text) (c : Char) :
    hexValue (s ++ [c]) = 16 * hexValue s + (hexDigit? c).getD 0 := by
  unfold hexValue
  rw [foldl_append]
  rfl

/-- A number written in base 16 reads back as itself, in lower-case
digits. -/
theorem toDigits_hex (n : Nat) :
    hexValue (Nat.toDigits 16 n) = n
      ∧ ∀ c ∈ Nat.toDigits 16 n, isLowHex c = true ∧ isHexDigit c = true := by
  induction n using Nat.strongRecOn with
  | ind n ih =>
    by_cases hn : n < 16
    · rw [Nat.toDigits_of_lt_base hn]
      have hd := hexDigit?_digitChar hn
      refine ⟨by simp [hexValue, hd], ?_⟩
      intro c hc
      rw [mem_singleton.mp hc]
      exact ⟨isLowHex_digitChar hn, by simp [isHexDigit, hd]⟩
    · have hlast : n % 16 < 16 := Nat.mod_lt _ (by decide)
      have hd := hexDigit?_digitChar hlast
      obtain ⟨hv, hc⟩ := ih (n / 16) (by omega)
      rw [Nat.toDigits_of_base_le (by decide) (by omega)]
      refine ⟨?_, ?_⟩
      · rw [hexValue_append_singleton, hv, hd, Option.getD_some]
        omega
      · intro c hmem
        rcases mem_append.1 hmem with hmem | hmem
        · exact hc c hmem
        · rw [mem_singleton.mp hmem]
          exact ⟨isLowHex_digitChar hlast, by simp [isHexDigit, hd]⟩

/-- A 16-bit number written in base 16 is a group. -/
theorem lowGroup_toDigits (h : n < 65536) : LowGroup (Nat.toDigits 16 n) n where
  ne_nil := Nat.toDigits_ne_nil
  length_le := (Nat.length_toDigits_le_iff (by decide) (by decide)).mpr h
  digits := fun c hc => ((toDigits_hex n).2 c hc).2
  value := (toDigits_hex n).1
  low := fun c hc => ((toDigits_hex n).2 c hc).1

/-- A number below 256 written in base 10 is an octet. -/
theorem octet_toDigits (h : n < 256) : Octet (Nat.toDigits 10 n) n := by
  apply parseOctet_iff.mp
  revert n
  decide +kernel

end OpenWA.Inet

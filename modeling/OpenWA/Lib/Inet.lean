/-
Internet address literals: the textual grammar of IPv4 and IPv6
addresses, the number each literal stands for, and readers that accept
exactly the grammar.

# Grammar and value

`IPv4Literal s n` and `IPv6Literal s g` relate a text to the address it
spells: four dotted decimal octets without leading zeros; eight groups of
one to four hex digits in either case, the last two of which may be
written as a dotted quad, and one run of zero groups of which may be
written `::`. The relation is the specification: it says which texts are
literals and what they mean, and nothing about how to read one.

`parseIPv4` and `parseIPv6` read a text; `parseIPv4_iff` and
`parseIPv6_iff` say they read the grammar, all of it and nothing else.
-/
import Mathlib.Algebra.Order.Ring.Nat
import Mathlib.Data.List.Forall2
import OpenWA.Lib.Text

namespace OpenWA.Inet

open List Option

-- ======== digits

/-- The value of a hex digit of either case. -/
def hexDigit? (c : Char) : Option Nat :=
  if '0' ≤ c ∧ c ≤ '9' then some (c.toNat - 48)
  else if 'a' ≤ c ∧ c ≤ 'f' then some (c.toNat - 87)
  else if 'A' ≤ c ∧ c ≤ 'F' then some (c.toNat - 55)
  else none

/-- Whether a character is a hex digit of either case. -/
def isHexDigit (c : Char) : Bool := (hexDigit? c).isSome

/-- The number a run of hex digits stands for. -/
def hexValue (s : Text) : Nat := s.foldl (fun n c => 16 * n + (hexDigit? c).getD 0) 0

/-- The number a run of decimal digits stands for. -/
def decValue (s : Text) : Nat := s.foldl (fun n c => 10 * n + (c.toNat - 48)) 0

-- ======== grammar

/-- One group of an IPv6 literal: one to four hex digits. -/
structure HexGroup (s : Text) (n : Nat) : Prop where
  ne_nil : s ≠ []
  length_le : s.length ≤ 4
  digits : ∀ c ∈ s, isHexDigit c = true
  value : hexValue s = n

/-- One octet of an IPv4 literal: decimal, no leading zero, at most
255. -/
structure Octet (s : Text) (n : Nat) : Prop where
  ne_nil : s ≠ []
  length_le : s.length ≤ 3
  digits : ∀ c ∈ s, c.isDigit = true
  canonical : s.head? = some '0' → s.length = 1
  value : decValue s = n
  value_le : n ≤ 255

/-- A dotted quad and the 32-bit number it spells. -/
inductive IPv4Literal : Text → Nat → Prop
  | quad {sa sb sc sd : Text} {a b c d : Nat} :
      Octet sa a → Octet sb b → Octet sc c → Octet sd d →
      IPv4Literal (['.'].intercalate [sa, sb, sc, sd]) (((a * 256 + b) * 256 + c) * 256 + d)

/-- Colon-separated pieces and the groups they spell; the last piece may
be a dotted quad, which spells two groups. -/
inductive Groups : List Text → List Nat → Prop
  | nil : Groups [] []
  | hex {s : Text} {n : Nat} {ss : List Text} {ns : List Nat} :
      HexGroup s n → Groups ss ns → Groups (s :: ss) (n :: ns)
  | quad {s : Text} {n : Nat} : IPv4Literal s n → Groups [s] [n / 65536, n % 65536]

/-- Pieces joined by colons. -/
def joinColons (ss : List Text) : Text := [':'].intercalate ss

/-- An IPv6 literal and the eight groups it spells: written in full, or
with one run of zero groups written `::`. -/
inductive IPv6Literal : Text → List Nat → Prop
  | full {ss : List Text} {ns : List Nat} :
      Groups ss ns → ns.length = 8 → IPv6Literal (joinColons ss) ns
  | compressed {hs ts : List Text} {hn tn : List Nat} :
      List.Forall₂ HexGroup hs hn → Groups ts tn →
      hn.length + tn.length ≤ 7 →
      IPv6Literal (joinColons hs ++ ':' :: ':' :: joinColons ts)
        (hn ++ replicate (8 - (hn.length + tn.length)) 0 ++ tn)

-- ======== readers

/-- Read one octet. -/
def parseOctet (s : Text) : Option Nat :=
  if s ≠ [] ∧ s.length ≤ 3 ∧ s.all Char.isDigit = true
      ∧ (s.head? = some '0' → s.length = 1) ∧ decValue s ≤ 255
  then some (decValue s) else none

/-- Read a dotted quad. -/
def parseIPv4 (s : Text) : Option Nat :=
  match s.splitOn '.' with
  | [sa, sb, sc, sd] => do
      let a ← parseOctet sa
      let b ← parseOctet sb
      let c ← parseOctet sc
      let d ← parseOctet sd
      return ((a * 256 + b) * 256 + c) * 256 + d
  | _ => none

/-- Read one hex group. -/
def parseHexGroup (s : Text) : Option Nat :=
  if s ≠ [] ∧ s.length ≤ 4 ∧ s.all isHexDigit = true
  then some (hexValue s) else none

/-- Read colon-separated pieces, the last of which may be a dotted
quad. -/
def parseGroups : List Text → Option (List Nat)
  | [] => some []
  | s :: ss =>
    match parseHexGroup s with
    | some n => (parseGroups ss).map fun ns => n :: ns
    | none =>
      if ss = [] then
        (parseIPv4 s).map fun n => [n / 65536, n % 65536]
      else none

/-- What stands before and after the first `::`. -/
def cutDouble : Text → Option (Text × Text)
  | [] => none
  | [_] => none
  | c :: d :: rest =>
    if c = ':' ∧ d = ':' then some ([], rest)
    else (cutDouble (d :: rest)).map fun p => (c :: p.1, p.2)

/-- The pieces between colons; the empty text has none. -/
def pieces (s : Text) : List Text :=
  if s = [] then [] else s.splitOn ':'

/-- Read an IPv6 literal. -/
def parseIPv6 (s : Text) : Option (List Nat) :=
  match cutDouble s with
  | none => (parseGroups (pieces s)).filter fun ns => ns.length = 8
  | some (h, t) => do
      let hn ← (pieces h).mapM parseHexGroup
      let tn ← parseGroups (pieces t)
      if hn.length + tn.length ≤ 7 then
        some (hn ++ replicate (8 - (hn.length + tn.length)) 0 ++ tn)
      else none

-- ======== subnets

/-- The 128-bit number eight groups stand for. -/
def groupsValue (g : List Nat) : Nat := g.foldl (fun n x => 65536 * n + x) 0

/-- Whether two addresses of `width` bits agree on their first `len`
bits. -/
def sameNet (width len n m : Nat) : Bool := n / 2 ^ (width - len) == m / 2 ^ (width - len)

-- ======== the groups

variable {s t : Text} {n : Nat} {ss : List Text} {ns g : List Nat}

theorem parseHexGroup_iff : parseHexGroup s = some n ↔ HexGroup s n := by
  unfold parseHexGroup
  constructor
  · intro h
    split at h
    next hs =>
      exact ⟨hs.1, hs.2.1, all_eq_true.mp hs.2.2, some.inj h⟩
    next => cases h
  · intro h
    rw [if_pos ⟨h.ne_nil, h.length_le, all_eq_true.mpr h.digits⟩, h.value]

theorem parseOctet_iff : parseOctet s = some n ↔ Octet s n := by
  unfold parseOctet
  constructor
  · intro h
    split at h
    next hs =>
      obtain ⟨h₁, h₂, h₃, h₄, h₅⟩ := hs
      have hv := some.inj h
      exact ⟨h₁, h₂, all_eq_true.mp h₃, h₄, hv, hv ▸ h₅⟩
    next => cases h
  · intro h
    rw [if_pos ⟨h.ne_nil, h.length_le, all_eq_true.mpr h.digits,
      h.canonical, by rw [h.value]; exact h.value_le⟩, h.value]

/-- Digits are not dots. -/
theorem Octet.dot_notMem (h : Octet s n) : '.' ∉ s := by
  intro hmem
  have := h.digits _ hmem
  cases this

/-- Hex digits are not colons. -/
theorem HexGroup.colon_notMem (h : HexGroup s n) : ':' ∉ s := by
  intro hmem
  have := h.digits _ hmem
  cases this

/-- Hex digits are not dots. -/
theorem HexGroup.dot_notMem (h : HexGroup s n) : '.' ∉ s := by
  intro hmem
  have := h.digits _ hmem
  cases this

-- ======== dotted quads

/-- Four octets and their dots come apart again. -/
theorem splitOn_quad {sa sb sc sd : Text} {a b c d : Nat} (ha : Octet sa a) (hb : Octet sb b)
    (hc : Octet sc c) (hd : Octet sd d) :
    (['.'].intercalate [sa, sb, sc, sd]).splitOn '.' = [sa, sb, sc, sd] := by
  refine splitOn_intercalate '.' ?_ (cons_ne_nil _ _)
  simp [ha.dot_notMem, hb.dot_notMem, hc.dot_notMem, hd.dot_notMem]

/-- The parser reads exactly the literals. -/
theorem parseIPv4_iff : parseIPv4 s = some n ↔ IPv4Literal s n := by
  constructor
  · intro h
    unfold parseIPv4 at h
    split at h
    next sa sb sc sd hs =>
      simp only [bind_eq_bind, bind_eq_some_iff,
        parseOctet_iff, Option.pure_def, Option.some.injEq] at h
      obtain ⟨a, ha, b, hb, c, hc, d, hd, rfl⟩ := h
      have htext : s = ['.'].intercalate [sa, sb, sc, sd] := by
        rw [← hs, intercalate_splitOn]
      rw [htext]
      exact IPv4Literal.quad ha hb hc hd
    next => cases h
  · intro h
    cases h with
    | @quad sa sb sc sd a b c d ha hb hc hd =>
      unfold parseIPv4
      rw [splitOn_quad ha hb hc hd]
      simp only [parseOctet_iff.mpr ha, parseOctet_iff.mpr hb,
        parseOctet_iff.mpr hc, parseOctet_iff.mpr hd,
        bind_eq_bind, bind_some, Option.pure_def]

section

variable (h : IPv4Literal s n)
include h

/-- The characters of a dotted quad are digits and dots. -/
theorem IPv4Literal.chars : ∀ c ∈ s, c.isDigit = true ∨ c = '.' := by
  cases h with
  | @quad sa sb sc sd a b c d ha hb hc hd =>
    intro x hx
    simp only [intercalate, intersperse, flatten_cons,
      flatten_nil, mem_append, mem_cons, not_mem_nil, or_false, append_nil] at hx
    rcases hx with hx | rfl | hx | rfl | hx | rfl | hx
    · exact .inl (ha.digits x hx)
    · exact .inr rfl
    · exact .inl (hb.digits x hx)
    · exact .inr rfl
    · exact .inl (hc.digits x hx)
    · exact .inr rfl
    · exact .inl (hd.digits x hx)

theorem IPv4Literal.colon_notMem : ':' ∉ s := by
  intro hmem
  rcases h.chars _ hmem with hd | hd <;> exact absurd hd (by decide)

/-- A dotted quad has a dot, so it is no hex group. -/
theorem IPv4Literal.dot_mem : '.' ∈ s := by
  cases h with
  | quad _ _ _ _ => simp [intercalate]

theorem IPv4Literal.value_lt : n < 2 ^ 32 := by
  cases h with
  | quad ha hb hc hd =>
    have h₁ := ha.value_le
    have h₂ := hb.value_le
    have h₃ := hc.value_le
    have h₄ := hd.value_le
    omega

end

-- ======== groups

theorem parseGroups_iff : ∀ {ns : List Nat}, parseGroups ss = some ns ↔ Groups ss ns := by
  induction ss with
  | nil =>
    intro ns
    constructor
    · intro h
      cases h
      exact Groups.nil
    · intro h
      cases h
      rfl
  | cons s ss ih =>
    intro ns
    simp only [parseGroups]
    cases hp : parseHexGroup s with
    | some n =>
      have hhex := parseHexGroup_iff.mp hp
      constructor
      · intro h
        obtain ⟨ns', hns', rfl⟩ := map_eq_some_iff.mp h
        exact Groups.hex hhex (ih.mp hns')
      · intro h
        cases h with
        | hex h₁ h₂ =>
          simp only [ih.mpr h₂, map_some, some.injEq, cons.injEq, and_true]
          exact hhex.value.symm.trans h₁.value
        | quad h₁ => exact absurd h₁.dot_mem hhex.dot_notMem
    | none =>
      constructor
      · intro h
        simp only at h
        split at h
        next hnil =>
          subst hnil
          obtain ⟨n, hn, rfl⟩ := map_eq_some_iff.mp h
          exact Groups.quad (parseIPv4_iff.mp hn)
        next => cases h
      · intro h
        cases h with
        | hex h₁ _ =>
          rw [parseHexGroup_iff.mpr h₁] at hp
          cases hp
        | quad h₁ =>
          simp only [if_true, parseIPv4_iff.mpr h₁, map_some]

/-- No piece holds a colon. -/
theorem Groups.colon_notMem (h : Groups ss ns) : ∀ s ∈ ss, ':' ∉ s := by
  induction h with
  | nil => intro s hs; cases hs
  | hex hhex _ ih =>
    intro s hs
    rcases mem_cons.1 hs with rfl | hs'
    · exact hhex.colon_notMem
    · exact ih s hs'
  | quad hq =>
    intro s hs
    rw [mem_singleton.mp hs]
    exact hq.colon_notMem

/-- No piece is empty. -/
theorem Groups.nil_notMem (h : Groups ss ns) : [] ∉ ss := by
  induction h with
  | nil => exact not_mem_nil
  | hex hhex _ ih =>
    intro hs
    rcases mem_cons.1 hs with heq | hs'
    · exact hhex.ne_nil heq.symm
    · exact ih hs'
  | quad hq =>
    intro hs
    rw [← mem_singleton.mp hs] at hq
    exact not_mem_nil hq.dot_mem

/-- Hex groups alone are groups. -/
theorem groups_of_forall₂ (h : List.Forall₂ HexGroup ss ns) : Groups ss ns := by
  induction h with
  | nil => exact Groups.nil
  | cons h₁ _ ih => exact Groups.hex h₁ ih

theorem mapM_parseHexGroup_iff :
    ∀ {ns : List Nat}, ss.mapM parseHexGroup = some ns ↔ List.Forall₂ HexGroup ss ns := by
  induction ss with
  | nil =>
    intro ns
    simp only [mapM_nil, Option.pure_def, Option.some.injEq, forall₂_nil_left_iff]
    exact eq_comm
  | cons s ss ih =>
    intro ns
    simp only [mapM_cons, bind_eq_bind,
      bind_eq_some_iff, Option.pure_def, Option.some.injEq,
      forall₂_cons_left_iff, parseHexGroup_iff, ih]
    constructor
    · rintro ⟨n, hn, ns', hns', rfl⟩
      exact ⟨n, ns', hn, hns', rfl⟩
    · rintro ⟨n, ns', hn, hns', rfl⟩
      exact ⟨n, hn, ns', hns', rfl⟩

/-- Every group of a literal's pieces is a 16-bit number. -/
theorem hexValue_lt (s : Text) : hexValue s < 16 ^ s.length := by
  have hdigit : ∀ c, (hexDigit? c).getD 0 < 16 := by
    intro c
    unfold hexDigit?
    split
    next h =>
      have h₁ : c.toNat ≤ 57 := h.2
      simp only [getD_some]
      omega
    next =>
      split
      next h =>
        have h₁ : c.toNat ≤ 102 := h.2
        simp only [getD_some]
        omega
      next =>
        split
        next h =>
          have h₁ : c.toNat ≤ 70 := h.2
          simp only [getD_some]
          omega
        next => decide
  have hfold : ∀ (s : Text) (m : Nat),
      s.foldl (fun n c => 16 * n + (hexDigit? c).getD 0) m < 16 ^ s.length * (m + 1) := by
    intro s
    induction s with
    | nil => intro m; simp
    | cons c rest ih =>
      intro m
      have h₁ := ih (16 * m + (hexDigit? c).getD 0)
      have h₂ := hdigit c
      calc (c :: rest).foldl _ m < 16 ^ rest.length * (16 * m + (hexDigit? c).getD 0 + 1) := h₁
        _ ≤ 16 ^ rest.length * (16 * (m + 1)) := Nat.mul_le_mul_left _ (by omega)
        _ = 16 ^ (c :: rest).length * (m + 1) := by
            rw [length_cons, Nat.pow_succ, Nat.mul_assoc]
  have := hfold s 0
  simpa [hexValue] using this

theorem HexGroup.lt (h : HexGroup s n) : n < 65536 := by
  have h₁ := hexValue_lt s
  rw [h.value] at h₁
  exact Nat.lt_of_lt_of_le h₁ (Nat.pow_le_pow_right (by decide) h.length_le)

theorem Groups.lt (h : Groups ss ns) : ∀ n ∈ ns, n < 65536 := by
  induction h with
  | nil => intro n hn; cases hn
  | hex hhex _ ih =>
    intro n hn
    rcases mem_cons.1 hn with rfl | hn'
    · exact hhex.lt
    · exact ih n hn'
  | quad hq =>
    intro n hn
    have := hq.value_lt
    simp only [mem_cons, not_mem_nil, or_false] at hn
    rcases hn with rfl | rfl
    · omega
    · omega

-- ======== colons and pieces

/-- The pieces of joined pieces are those pieces. -/
theorem pieces_joinColons (h₁ : ∀ s ∈ ss, ':' ∉ s) (h₂ : [] ∉ ss) :
    pieces (joinColons ss) = ss := by
  unfold pieces joinColons
  cases ss with
  | nil => rfl
  | cons s rest =>
    have hne : [':'].intercalate (s :: rest) ≠ [] := by
      intro hnil
      cases rest with
      | nil =>
        simp only [intercalate_singleton] at hnil
        exact h₂ (hnil ▸ mem_cons_self ..)
      | cons r rest => simp [intercalate_cons_cons] at hnil
    rw [if_neg hne]
    exact splitOn_intercalate ':' h₁ (cons_ne_nil _ _)

/-- Joining the pieces of a text gives the text back. -/
theorem joinColons_pieces (s : Text) : joinColons (pieces s) = s := by
  unfold pieces joinColons
  split
  next h => rw [h]; rfl
  next => exact intercalate_splitOn ':'

/-- Joined non-empty pieces neither start nor end with a colon nor hold
two in a row, so the first `::` after them is the one written. -/
theorem cutDouble_append (hs : cutDouble (s ++ [':']) = none) :
    cutDouble (s ++ ':' :: ':' :: t) = some (s, t) := by
  induction s with
  | nil => simp [cutDouble]
  | cons c rest ih =>
    cases rest with
    | nil =>
      have hc : c ≠ ':' := by
        intro hc
        simp [cutDouble, hc] at hs
      simp [cutDouble, hc]
    | cons d rest =>
      simp only [cons_append, cutDouble] at hs ih ⊢
      split at hs
      · cases hs
      next hcd =>
        rw [if_neg hcd, ih (map_eq_none_iff.mp hs)]
        rfl

theorem cutDouble_cons {c d : Char} {rest : Text}
    (h : ¬ (c = ':' ∧ d = ':')) :
    cutDouble (c :: d :: rest) = (cutDouble (d :: rest)).map fun p => (c :: p.1, p.2) := by
  simp only [cutDouble, if_neg h]

/-- A text without colons in front cannot start a `::`. -/
theorem cutDouble_append_of_notMem (hs : ':' ∉ s) (ht : cutDouble t = none) :
    cutDouble (s ++ t) = none := by
  induction s with
  | nil => exact ht
  | cons c rest ih =>
    have hc : c ≠ ':' := fun hc => hs (hc ▸ mem_cons_self ..)
    have ih := ih fun hmem => hs (mem_cons_of_mem _ hmem)
    cases hrest : rest ++ t with
    | nil => rw [cons_append, hrest]; rfl
    | cons d more =>
      rw [cons_append, hrest, cutDouble_cons fun h => hc h.1]
      rw [hrest] at ih
      rw [ih]
      rfl

/-- Joined pieces hold no `::`, not even with a colon after them. -/
theorem cutDouble_joinColons (h₁ : ∀ s ∈ ss, ':' ∉ s) (h₂ : [] ∉ ss) :
    cutDouble (joinColons ss) = none ∧ cutDouble (joinColons ss ++ [':']) = none := by
  induction ss with
  | nil => exact ⟨rfl, rfl⟩
  | cons s rest ih =>
    have hs := h₁ s (mem_cons_self ..)
    have ih := ih (fun x hx => h₁ x (mem_cons_of_mem _ hx)) (fun hx => h₂ (mem_cons_of_mem _ hx))
    cases rest with
    | nil =>
      simp only [joinColons, intercalate_singleton]
      refine ⟨?_, cutDouble_append_of_notMem hs rfl⟩
      have := cutDouble_append_of_notMem hs (t := []) rfl
      rwa [append_nil] at this
    | cons r rest =>
      -- the piece after the colon is not empty, so no second colon
      obtain ⟨c, r', rfl⟩ : ∃ c r', r = c :: r' := by
        cases r with
        | nil => exact absurd (by simp) h₂
        | cons c r' => exact ⟨c, r', rfl⟩
      have hc : c ≠ ':' := by
        intro hc
        exact h₁ (c :: r') (by simp) (by simp [hc])
      have hjoin : ∃ more, joinColons ((c :: r') :: rest) = c :: more := by
        cases rest with
        | nil => exact ⟨r', by simp [joinColons]⟩
        | cons q qs =>
          exact ⟨_, by simp only [joinColons, intercalate_cons_cons, cons_append]; rfl⟩
      obtain ⟨more, hmore⟩ := hjoin
      have hstep : ∀ u, cutDouble (joinColons ((c :: r') :: rest) ++ u)
          = none → cutDouble (joinColons (s :: (c :: r') :: rest) ++ u) = none := by
        intro u hu
        have htext : joinColons (s :: (c :: r') :: rest) ++ u
            = s ++ (':' :: (joinColons ((c :: r') :: rest) ++ u)) := by
          simp [joinColons, intercalate_cons_cons]
        rw [htext]
        refine cutDouble_append_of_notMem hs ?_
        rw [hmore] at hu ⊢
        rw [cons_append] at hu ⊢
        rw [cutDouble_cons fun h => hc h.2, hu]
        rfl
      refine ⟨?_, hstep _ ih.2⟩
      have := hstep [] (by rw [append_nil]; exact ih.1)
      rwa [append_nil] at this

/-- Cutting at `::` loses nothing. -/
theorem eq_of_cutDouble {h : Text} (hs : cutDouble s = some (h, t)) : s = h ++ ':' :: ':' :: t := by
  induction s generalizing h with
  | nil => cases hs
  | cons c rest ih =>
    cases rest with
    | nil => cases hs
    | cons d rest =>
      simp only [cutDouble] at hs
      split at hs
      next hcd =>
        cases hs
        rw [hcd.1, hcd.2]
        rfl
      next =>
        obtain ⟨⟨h', t'⟩, hp, heq⟩ := map_eq_some_iff.mp hs
        cases heq
        rw [ih hp]
        rfl

-- ======== the literal

/-- The reader reads exactly the literals, with their groups. -/
theorem parseIPv6_iff : parseIPv6 s = some g ↔ IPv6Literal s g := by
  constructor
  · intro h
    unfold parseIPv6 at h
    split at h
    next =>
      obtain ⟨hg, hlen⟩ := filter_eq_some_iff.mp h
      rw [← joinColons_pieces s]
      exact IPv6Literal.full (parseGroups_iff.mp hg) (by simpa using hlen)
    next hd tl hcut =>
      simp only [bind_eq_bind, bind_eq_some_iff, mapM_parseHexGroup_iff, parseGroups_iff] at h
      obtain ⟨hn, hhn, tn, htn, hres⟩ := h
      split at hres
      next hle =>
        cases hres
        rw [eq_of_cutDouble hcut, ← joinColons_pieces hd, ← joinColons_pieces tl]
        exact IPv6Literal.compressed hhn htn hle
      next => cases hres
  · intro h
    cases h with
    | full hg hlen =>
      unfold parseIPv6
      rw [(cutDouble_joinColons hg.colon_notMem hg.nil_notMem).1]
      simp only [pieces_joinColons hg.colon_notMem hg.nil_notMem, parseGroups_iff.mpr hg]
      simp [Option.filter, hlen]
    | compressed hhn htn hle =>
      have hhg := groups_of_forall₂ hhn
      unfold parseIPv6
      rw [cutDouble_append (cutDouble_joinColons hhg.colon_notMem hhg.nil_notMem).2]
      simp only [pieces_joinColons hhg.colon_notMem hhg.nil_notMem,
        pieces_joinColons htn.colon_notMem htn.nil_notMem,
        mapM_parseHexGroup_iff.mpr hhn, parseGroups_iff.mpr htn,
        bind_eq_bind, bind_some, if_pos hle]

/-- Joined pieces are made of the pieces' characters and colons. -/
theorem mem_joinColons {c : Char} (h : c ∈ joinColons ss) : c = ':' ∨ ∃ s ∈ ss, c ∈ s := by
  unfold joinColons at h
  induction ss with
  | nil => cases h
  | cons s rest ih =>
    cases rest with
    | nil =>
      rw [intercalate_singleton] at h
      exact .inr ⟨s, mem_cons_self .., h⟩
    | cons r rest =>
      rw [intercalate_cons_cons] at h
      rcases mem_append.1 h with h | h
      · rcases mem_append.1 h with h | h
        · exact .inr ⟨s, mem_cons_self .., h⟩
        · exact .inl (mem_singleton.mp h)
      · rcases ih h with h | ⟨x, hx, hc⟩
        · exact .inl h
        · exact .inr ⟨x, mem_cons_of_mem _ hx, hc⟩

theorem isHexDigit_of_isDigit {c : Char} (h : c.isDigit = true) : isHexDigit c = true := by
  simp only [Char.isDigit, Bool.and_eq_true, decide_eq_true_eq] at h
  have hd : '0' ≤ c ∧ c ≤ '9' := h
  simp only [isHexDigit, hexDigit?, if_pos hd, isSome_some]

/-- The characters of groups are hex digits and dots. -/
theorem Groups.chars (h : Groups ss ns) : ∀ s ∈ ss, ∀ c ∈ s, isHexDigit c = true ∨ c = '.' := by
  induction h with
  | nil => intro s hs; cases hs
  | hex hhex _ ih =>
    intro s hs
    rcases mem_cons.1 hs with rfl | hs'
    · intro c hc
      exact .inl (hhex.digits c hc)
    · exact ih s hs'
  | quad hq =>
    intro s hs c hc
    rw [mem_singleton.mp hs] at hc
    rcases hq.chars c hc with hd | hd
    · exact .inl (isHexDigit_of_isDigit hd)
    · exact .inr hd

/-- The characters of a literal are hex digits, dots and colons. -/
theorem IPv6Literal.chars (h : IPv6Literal s g) :
    ∀ c ∈ s, isHexDigit c = true ∨ c = '.' ∨ c = ':' := by
  have hjoin : ∀ {ss ns}, Groups ss ns → ∀ c ∈ joinColons ss,
      isHexDigit c = true ∨ c = '.' ∨ c = ':' := by
    intro ss ns hg c hc
    rcases mem_joinColons hc with rfl | ⟨s, hs, hc⟩
    · exact .inr (.inr rfl)
    · rcases hg.chars s hs c hc with hd | hd
      · exact .inl hd
      · exact .inr (.inl hd)
  cases h with
  | full hg _ => exact hjoin hg
  | compressed hhn htn _ =>
    intro c hc
    rcases mem_append.1 hc with hc | hc
    · exact hjoin (groups_of_forall₂ hhn) c hc
    · rcases mem_cons.1 hc with rfl | hc
      · exact .inr (.inr rfl)
      · rcases mem_cons.1 hc with rfl | hc
        · exact .inr (.inr rfl)
        · exact hjoin htn c hc

/-- Every literal has a colon. -/
theorem IPv6Literal.colon_mem (h : IPv6Literal s g) : ':' ∈ s := by
  cases h with
  | @full ss ns hg hlen =>
    cases hg with
    | nil | quad => cases hlen
    | hex hhex hrest =>
      cases hrest with
      | nil => cases hlen
      | hex | quad => simp [joinColons, intercalate_cons_cons]
  | compressed => simp

/-- A literal spells eight 16-bit groups. -/
theorem IPv6Literal.groups (h : IPv6Literal s g) : g.length = 8 ∧ ∀ n ∈ g, n < 65536 := by
  cases h with
  | full hg hlen => exact ⟨hlen, hg.lt⟩
  | compressed hhn htn hle =>
    refine ⟨?_, ?_⟩
    · simp only [length_append, length_replicate]
      omega
    · intro n hn
      rcases mem_append.1 hn with hn | hn
      · rcases mem_append.1 hn with hn | hn
        · exact (groups_of_forall₂ hhn).lt n hn
        · rw [eq_of_mem_replicate hn]
          decide
      · exact htn.lt n hn

end OpenWA.Inet

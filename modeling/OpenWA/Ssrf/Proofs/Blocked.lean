/-
`isBlockedAddress` sees numbers: how an IPv6 address is classified
depends on the 128-bit number it is and on nothing about its spelling.

# The specification

`blockedAddress n` is the numeric rule. An address of one of the forms
that embed an IPv4 address — mapped, compatible, translated, 6to4,
NAT64 — is judged by the IPv4 address inside; every other one is allowed
exactly inside 2000::/3. `blockedV4` gives the IPv4 ranges as intervals
of numbers.

# The proof

The source has two ways to an embedded address, one by text
(`mappedTail`) and one by expanded hextets (`embeddedV4`).
`mappedTail_literal` says that the text way, where it answers, answers
with the address the hextets hold; the rest is arithmetic on eight
groups.
-/
import Mathlib.Data.List.TakeWhile
import OpenWA.Ssrf.Proofs.Expand

namespace OpenWA.Ssrf

open Inet Text List

-- ======== the specification

/-- The blocked IPv4 ranges, first and last address. -/
def blockedV4Intervals : List (Nat × Nat) :=
  [ (0x00000000, 0x00ffffff),
    (0x0a000000, 0x0affffff),
    (0x64400000, 0x647fffff),
    (0x7f000000, 0x7fffffff),
    (0xa9fe0000, 0xa9feffff),
    (0xac100000, 0xac1fffff),
    (0xc0000000, 0xc00000ff),
    (0xc0a80000, 0xc0a8ffff),
    (0xc6120000, 0xc613ffff),
    (0xe0000000, 0xefffffff),
    (0xf0000000, 0xffffffff) ]

/-- Whether an IPv4 address lies in a blocked range. -/
def blockedV4 (v : Nat) : Bool := blockedV4Intervals.any fun r => decide (r.1 ≤ v ∧ v ≤ r.2)

/-- Whether an address lies in the net of `len` bits of the given
groups. -/
def inNet (net : List Nat) (len : Nat) (n : Nat) : Bool := sameNet 128 len n (groupsValue net)

/-- IPv4-mapped, ::ffff:0:0/96. -/
def isMapped (n : Nat) : Bool := inNet [0, 0, 0, 0, 0, 0xffff, 0, 0] 96 n

/-- IPv4-compatible, ::/96 without the unspecified address. -/
def isCompatible (n : Nat) : Bool := inNet [0, 0, 0, 0, 0, 0, 0, 0] 96 n && n != 0

/-- IPv4-translated, ::ffff:0:0:0/96. -/
def isTranslated (n : Nat) : Bool := inNet [0, 0, 0, 0, 0xffff, 0, 0, 0] 96 n

/-- NAT64, 64:ff9b::/96 and 64:ff9b:1::/96. -/
def isNat64 (n : Nat) : Bool :=
  inNet [0x64, 0xff9b, 0, 0, 0, 0, 0, 0] 96 n
    || inNet [0x64, 0xff9b, 1, 0, 0, 0, 0, 0] 96 n

/-- 6to4, 2002::/16. -/
def is6to4 (n : Nat) : Bool := inNet [0x2002, 0, 0, 0, 0, 0, 0, 0] 16 n

/-- Global unicast, 2000::/3. -/
def isGlobalUnicast (n : Nat) : Bool := inNet [0x2000, 0, 0, 0, 0, 0, 0, 0] 3 n

/-- The IPv4 address an IPv6 address embeds: the low 32 bits, or for 6to4
the 32 bits behind the first sixteen. -/
def embeddedAddress (n : Nat) : Option Nat :=
  if isMapped n || isCompatible n || isTranslated n || isNat64 n then
    some (n % 2 ^ 32)
  else if is6to4 n then some (n / 2 ^ 80 % 2 ^ 32)
  else none

/-- The numeric rule for IPv6 addresses. -/
def blockedAddress (n : Nat) : Bool :=
  match embeddedAddress n with
  | some v => blockedV4 v
  | none => !isGlobalUnicast n

-- ======== IPv4

variable {s v4 : Text} {g : List Nat}

theorem isIPv4_iff : isIPv4 s = true ↔ ∃ n, IPv4Literal s n := by
  unfold isIPv4
  rw [Option.isSome_iff_exists]
  simp only [parseIPv4_iff]

/-- The table of the source, read by `BlockList`, is the table of
intervals. -/
theorem check4_eq {n : Nat} (h : IPv4Literal s n) : check4 blockedV4Ranges s = blockedV4 n := by
  have hread : blockedV4Ranges.map (fun r => (parseIPv4 r.1.toList, r.2))
      = [ (some 0x00000000, 8), (some 0x0a000000, 8),
          (some 0x64400000, 10), (some 0x7f000000, 8),
          (some 0xa9fe0000, 16), (some 0xac100000, 12),
          (some 0xc0000000, 24), (some 0xc0a80000, 16),
          (some 0xc6120000, 15), (some 0xe0000000, 4), (some 0xf0000000, 4) ] := by
    decide +kernel
  have hcheck : check4 blockedV4Ranges s
      = (blockedV4Ranges.map fun r => (parseIPv4 r.1.toList, r.2)).any
          fun r => r.1.any (sameNet 32 r.2 n) := by
    unfold check4
    rw [parseIPv4_iff.mpr h, any_map]
    rfl
  rw [hcheck, hread, Bool.eq_iff_iff]
  simp only [blockedV4, blockedV4Intervals, sameNet, any_cons,
    Option.any_some, any_nil, Bool.or_false, Bool.or_eq_true, beq_iff_eq, decide_eq_true_eq]
  omega

/-- Two hextets written as a dotted quad spell the 32-bit number they
make. -/
theorem hextetsToV4_literal {hi lo : Nat} (hhi : hi < 65536)
    (hlo : lo < 65536) : IPv4Literal (hextetsToV4 hi lo) (hi * 65536 + lo) := by
  have hbyte : ∀ x, x &&& 0xff = x % 256 := fun x =>
    Nat.and_two_pow_sub_one_eq_mod x 8
  have hhigh : ∀ x, x < 65536 → (x >>> 8) &&& 0xff = x / 256 := by
    intro x hx
    rw [hbyte, Nat.shiftRight_eq_div_pow]
    omega
  have hvalue : hi * 65536 + lo
      = ((hi / 256 * 256 + hi % 256) * 256 + lo / 256) * 256 + lo % 256 := by
    omega
  have hquad : IPv4Literal (['.'].intercalate
      [Nat.toDigits 10 (hi / 256), Nat.toDigits 10 (hi % 256),
        Nat.toDigits 10 (lo / 256), Nat.toDigits 10 (lo % 256)])
      (((hi / 256 * 256 + hi % 256) * 256 + lo / 256) * 256 + lo % 256) :=
    IPv4Literal.quad (octet_toDigits (by omega)) (octet_toDigits (by omega))
      (octet_toDigits (by omega)) (octet_toDigits (by omega))
  rw [hvalue]
  unfold hextetsToV4 toText
  rw [hhigh hi hhi, hhigh lo hlo, hbyte hi, hbyte lo]
  simpa [intercalate] using hquad

-- ======== the recursion

/-- A text without a colon is no IPv6 literal. -/
theorem isIPv6_of_colon_notMem (h : ':' ∉ s) : isIPv6 s = false := by
  cases hp : parseIPv6 (stripZone s) with
  | none => simp only [isIPv6, hp, Option.isSome_none]
  | some g =>
    have hmem := (parseIPv6_iff.mp hp).colon_mem
    exact absurd ((takeWhile_sublist _).subset hmem) h

theorem colon_notMem_toText (n : Nat) : ':' ∉ toText 10 n := by
  intro hmem
  have hd := Nat.isDigit_of_mem_toDigits (by decide) (by decide) hmem
  exact absurd hd (by decide)

theorem colon_notMem_hextetsToV4 (hi lo : Nat) : ':' ∉ hextetsToV4 hi lo := by
  simp [hextetsToV4, colon_notMem_toText]

/-- The two ways the `::ffff:` branch answers. -/
theorem mappedTail_cases (h : mappedTail s = some v4) :
    ∃ tail, s = "::ffff:".toList ++ tail
      ∧ ((matchDotted tail).isSome = true ∧ v4 = tail
        ∨ ∃ hi lo, tail.splitOn ':' = [hi, lo] ∧ isHextet hi = true
            ∧ isHextet lo = true
            ∧ v4 = hextetsToV4 (hexValue hi) (hexValue lo)) := by
  simp only [mappedTail] at h
  split at h
  next hpre =>
    refine ⟨s.drop "::ffff:".length, ?_, ?_⟩
    · obtain ⟨rest, rfl⟩ := isPrefixOf_iff_prefix.mp hpre
      rfl
    · split at h
      next hdot => exact .inl ⟨hdot, (Option.some.inj h).symm⟩
      next =>
        split at h
        next hi lo hsplit =>
          split at h
          next hhex =>
            rw [Bool.and_eq_true] at hhex
            exact .inr ⟨hi, lo, hsplit, hhex.1, hhex.2, (Option.some.inj h).symm⟩
          next => cases h
        next => cases h
  next => cases h

theorem colon_notMem_of_mappedTail (h : mappedTail s = some v4) : ':' ∉ v4 := by
  obtain ⟨tail, -, ⟨hdot, rfl⟩ | ⟨hi, lo, -, -, -, rfl⟩⟩ := mappedTail_cases h
  · intro hmem
    rw [matchDotted_of_colon hmem] at hdot
    cases hdot
  · exact colon_notMem_hextetsToV4 _ _

theorem colon_notMem_of_embeddedV4 (h : embeddedV4 g = some v4) : ':' ∉ v4 := by
  unfold embeddedV4 at h
  split at h
  next =>
    repeat' split at h
    all_goals first
      | (cases h; exact colon_notMem_hextetsToV4 _ _)
      | cases h
  next => cases h

/-- Without a colon `isBlockedAddress` stops at the IPv4 question. -/
theorem isBlockedAddress_of_colon_notMem (h : ':' ∉ s) :
    isBlockedAddress s = if isIPv4 s then check4 blockedV4Ranges s else true := by
  unfold isBlockedAddress judgeAddress
  rw [isIPv6_of_colon_notMem h]
  rfl

/-- The source's recursion: the inner call is a call of
`isBlockedAddress`. -/
theorem isBlockedAddress_eq (ip : Text) :
    isBlockedAddress ip = judgeAddress isBlockedAddress ip := by
  have hagain : ∀ v4, ':' ∉ v4 → isBlockedAddress v4
      = if isIPv4 v4 then check4 blockedV4Ranges v4 else true :=
    fun v4 => isBlockedAddress_of_colon_notMem
  conv_lhs => unfold isBlockedAddress
  unfold judgeAddress
  cases hm : mappedTail (toLowerCase ip) with
  | some v4 => simp only [hm, hagain v4 (colon_notMem_of_mappedTail hm)]
  | none =>
    cases he : (expandIPv6 (toLowerCase ip)).bind embeddedV4 with
    | none => simp only [hm, he]
    | some v4 =>
      obtain ⟨g, -, hg⟩ := Option.bind_eq_some_iff.mp he
      simp only [hm, he, hagain v4 (colon_notMem_of_embeddedV4 hg)]

/-- On the text of an embedded address the inner call asks the table. -/
theorem isBlockedAddress_v4 {n : Nat} (h : IPv4Literal s n) : isBlockedAddress s = blockedV4 n := by
  rw [isBlockedAddress_of_colon_notMem h.colon_notMem, if_pos (isIPv4_iff.mpr ⟨n, h⟩), check4_eq h]

-- ======== IPv6

theorem stripZone_of_literal (h : IPv6Literal s g) : stripZone s = s := by
  unfold stripZone
  rw [takeWhile_eq_self_iff]
  intro c hc
  rcases h.chars c hc with hd | rfl | rfl
  · have hne : c ≠ '%' := by
      intro heq
      rw [heq] at hd
      exact absurd hd (by decide)
    exact decide_eq_true hne
  · rfl
  · rfl

/-- Without a zone id, `net.isIPv6` accepts exactly the literals. -/
theorem isIPv6_of_literal (h : IPv6Literal s g) : isIPv6 s = true := by
  unfold isIPv6
  rw [stripZone_of_literal h, parseIPv6_iff.mpr h]
  rfl

theorem isIPv4_of_literal (h : IPv6Literal s g) : isIPv4 s = false := by
  cases hp : isIPv4 s with
  | false => rfl
  | true =>
    obtain ⟨n, hn⟩ := isIPv4_iff.mp hp
    exact absurd h.colon_mem hn.colon_notMem

/-- Behind `::ffff:` the groups of a literal are those of the rest,
preceded by `ffff` and zeros. -/
theorem groups_of_mapped_text {tail : Text}
    (h : IPv6Literal ("::ffff:".toList ++ tail) g) :
    ∃ tn, Groups (tail.splitOn ':') tn ∧ g = replicate (7 - tn.length) 0 ++ 0xffff :: tn := by
  have hp := parseIPv6_iff.mpr h
  have hcut : cutDouble ("::ffff:".toList ++ tail) = some ([], "ffff:".toList ++ tail) := rfl
  have hpieces : pieces ("ffff:".toList ++ tail) = "ffff".toList :: tail.splitOn ':' := by
    show pieces ("ffff".toList ++ ':' :: tail) = _
    unfold pieces
    rw [if_neg (by simp), splitOn_append_cons_self_of_not_mem (by decide)]
  have hfirst : parseHexGroup "ffff".toList = some 0xffff := by decide
  unfold parseIPv6 at hp
  rw [hcut] at hp
  simp only [hpieces, parseGroups, hfirst, Option.bind_eq_bind,
    Option.bind_eq_some_iff, Option.map_eq_some_iff] at hp
  obtain ⟨hn, hhn, -, ⟨tn, htn, rfl⟩, hres⟩ := hp
  have hnil : hn = [] := (Option.some.inj hhn).symm
  subst hnil
  refine ⟨tn, parseGroups_iff.mp htn, ?_⟩
  split at hres
  next hle =>
    have hgap : 8 - (([] : List Nat).length + (0xffff :: tn).length) = 7 - tn.length := by
      simp only [length_nil, length_cons]
      omega
    rw [hgap] at hres
    exact (Option.some.inj hres).symm
  next => cases hres

theorem hexGroup_of_isHextet (h : isHextet s = true) : HexGroup s (hexValue s) := by
  simp only [isHextet, Bool.and_eq_true, decide_eq_true_eq, all_eq_true] at h
  refine ⟨h.1.1, h.1.2, ?_, rfl⟩
  intro c hc
  exact isHexDigit_of_isLowHex (h.2 c hc)

/-- Where the text branch answers, the literal is an IPv4-mapped address
and the answer spells the address inside. -/
theorem mappedTail_literal (h : IPv6Literal s g) (hm : mappedTail s = some v4) :
    ∃ hi lo, g = [0, 0, 0, 0, 0, 0xffff, hi, lo] ∧ IPv4Literal v4 (hi * 65536 + lo) := by
  obtain ⟨tail, rfl, hcase⟩ := mappedTail_cases hm
  obtain ⟨tn, htn, rfl⟩ := groups_of_mapped_text h
  rcases hcase with ⟨hdot, rfl⟩ | ⟨hi, lo, hsplit, hhi, hlo, rfl⟩
  · -- a dotted quad: the only piece, and no hex group
    have hcolon : ':' ∉ v4 := by
      intro hmem
      rw [matchDotted_of_colon hmem] at hdot
      cases hdot
    rw [splitOn_eq_singleton hcolon] at htn
    cases htn with
    | hex hhex _ =>
      rw [matchDotted_of_dot_notMem hhex.dot_notMem] at hdot
      cases hdot
    | @quad _ n hq =>
      refine ⟨n / 65536, n % 65536, rfl, ?_⟩
      rw [Nat.div_add_mod']
      exact hq
  · rw [hsplit] at htn
    have hgi := hexGroup_of_isHextet hhi
    have hgo := hexGroup_of_isHextet hlo
    have hall : Groups [hi, lo] [hexValue hi, hexValue lo] :=
      Groups.hex hgi (Groups.hex hgo Groups.nil)
    have heq : tn = [hexValue hi, hexValue lo] := by
      have h₁ := parseGroups_iff.mpr htn
      rw [parseGroups_iff.mpr hall] at h₁
      exact (Option.some.inj h₁).symm
    rw [heq]
    exact ⟨hexValue hi, hexValue lo, rfl, hextetsToV4_literal hgi.lt hgo.lt⟩

-- ======== the arithmetic

section Arithmetic

variable {h0 h1 h2 h3 h4 h5 h6 h7 : Nat}

theorem groupsValue_eight :
    groupsValue [h0, h1, h2, h3, h4, h5, h6, h7]
      = 65536 * (65536 * (65536 * (65536 * (65536 * (65536 * (65536 * h0
          + h1) + h2) + h3) + h4) + h5) + h6) + h7 := by
  simp [groupsValue]

theorem groupsValue_eq_zero_iff :
    groupsValue [h0, h1, h2, h3, h4, h5, h6, h7] = 0
      ↔ h0 = 0 ∧ h1 = 0 ∧ h2 = 0 ∧ h3 = 0 ∧ h4 = 0 ∧ h5 = 0 ∧ h6 = 0 ∧ h7 = 0 := by
  rw [groupsValue_eight]
  omega

variable (hg : ∀ x ∈ [h0, h1, h2, h3, h4, h5, h6, h7], x < 65536)

include hg

theorem lt_eight : h0 < 65536 ∧ h1 < 65536 ∧ h2 < 65536 ∧ h3 < 65536
    ∧ h4 < 65536 ∧ h5 < 65536 ∧ h6 < 65536 ∧ h7 < 65536 := by
  simpa only [forall_mem_cons, not_mem_nil, false_implies, implies_true, and_true] using hg

/-- Agreeing on 96 bits is agreeing on the first six groups. -/
theorem inNet_96 {p0 p1 p2 p3 p4 p5 : Nat}
    (hp : ∀ x ∈ [p0, p1, p2, p3, p4, p5], x < 65536) :
    inNet [p0, p1, p2, p3, p4, p5, 0, 0] 96 (groupsValue [h0, h1, h2, h3, h4, h5, h6, h7]) = true
      ↔ h0 = p0 ∧ h1 = p1 ∧ h2 = p2 ∧ h3 = p3 ∧ h4 = p4 ∧ h5 = p5 := by
  have hlt := lt_eight hg
  simp only [forall_mem_cons, not_mem_nil, false_implies, implies_true, and_true] at hp
  unfold inNet sameNet
  rw [groupsValue_eight, groupsValue_eight, beq_iff_eq]
  omega

theorem is6to4_iff :
    is6to4 (groupsValue [h0, h1, h2, h3, h4, h5, h6, h7]) = true ↔ h0 = 0x2002 := by
  have hlt := lt_eight hg
  unfold is6to4 inNet sameNet
  rw [groupsValue_eight, groupsValue_eight, beq_iff_eq]
  omega

theorem isGlobalUnicast_iff :
    isGlobalUnicast (groupsValue [h0, h1, h2, h3, h4, h5, h6, h7]) = true
      ↔ 0x2000 ≤ h0 ∧ h0 < 0x4000 := by
  have hlt := lt_eight hg
  unfold isGlobalUnicast inNet sameNet
  rw [groupsValue_eight, groupsValue_eight, beq_iff_eq]
  omega

theorem isCompatible_iff :
    isCompatible (groupsValue [h0, h1, h2, h3, h4, h5, h6, h7]) = true
      ↔ (h0 = 0 ∧ h1 = 0 ∧ h2 = 0 ∧ h3 = 0 ∧ h4 = 0 ∧ h5 = 0) ∧ (h6 ≠ 0 ∨ h7 ≠ 0) := by
  have hnet := inNet_96 hg (by decide : ∀ x ∈ [0, 0, 0, 0, 0, 0], x < 65536)
  unfold isCompatible
  rw [Bool.and_eq_true, hnet, bne_iff_ne, ne_eq, groupsValue_eq_zero_iff]
  constructor
  · intro ⟨hsix, hne⟩
    refine ⟨hsix, ?_⟩
    by_cases h6z : h6 = 0
    · refine .inr fun h7z => hne ?_
      obtain ⟨z0, z1, z2, z3, z4, z5⟩ := hsix
      exact ⟨z0, z1, z2, z3, z4, z5, h6z, h7z⟩
    · exact .inl h6z
  · intro ⟨hsix, hne⟩
    refine ⟨hsix, fun hall => ?_⟩
    obtain ⟨-, -, -, -, -, -, z6, z7⟩ := hall
    rcases hne with hne | hne
    · exact hne z6
    · exact hne z7

theorem isNat64_iff :
    isNat64 (groupsValue [h0, h1, h2, h3, h4, h5, h6, h7]) = true
      ↔ h0 = 0x64 ∧ h1 = 0xff9b ∧ h2 ≤ 1 ∧ h3 = 0 ∧ h4 = 0 ∧ h5 = 0 := by
  have hwell := inNet_96 hg (by decide : ∀ x ∈ [0x64, 0xff9b, 0, 0, 0, 0], x < 65536)
  have hlocal := inNet_96 hg (by decide : ∀ x ∈ [0x64, 0xff9b, 1, 0, 0, 0], x < 65536)
  unfold isNat64
  rw [Bool.or_eq_true, hwell, hlocal, Nat.le_one_iff_eq_zero_or_eq_one]
  constructor
  · rintro (⟨e0, e1, e2, he⟩ | ⟨e0, e1, e2, he⟩)
    · exact ⟨e0, e1, .inl e2, he⟩
    · exact ⟨e0, e1, .inr e2, he⟩
  · rintro ⟨e0, e1, e2 | e2, he⟩
    · exact .inl ⟨e0, e1, e2, he⟩
    · exact .inr ⟨e0, e1, e2, he⟩

/-- Where the embedded addresses sit. -/
theorem embedded_bits :
    groupsValue [h0, h1, h2, h3, h4, h5, h6, h7] % 2 ^ 32 = h6 * 65536 + h7
      ∧ groupsValue [h0, h1, h2, h3, h4, h5, h6, h7] / 2 ^ 80 % 2 ^ 32 = h1 * 65536 + h2 := by
  have hlt := lt_eight hg
  rw [groupsValue_eight]
  omega

/-- The embedding rule, read on the groups. -/
theorem embeddedAddress_eight :
    embeddedAddress (groupsValue [h0, h1, h2, h3, h4, h5, h6, h7])
      = if (h0 = 0 ∧ h1 = 0 ∧ h2 = 0 ∧ h3 = 0 ∧ h4 = 0 ∧ h5 = 0xffff)
          ∨ ((h0 = 0 ∧ h1 = 0 ∧ h2 = 0 ∧ h3 = 0 ∧ h4 = 0 ∧ h5 = 0) ∧ (h6 ≠ 0 ∨ h7 ≠ 0))
          ∨ (h0 = 0 ∧ h1 = 0 ∧ h2 = 0 ∧ h3 = 0 ∧ h4 = 0xffff ∧ h5 = 0)
          ∨ (h0 = 0x64 ∧ h1 = 0xff9b ∧ h2 ≤ 1 ∧ h3 = 0 ∧ h4 = 0 ∧ h5 = 0)
        then some (h6 * 65536 + h7) else if h0 = 0x2002 then some (h1 * 65536 + h2)
        else none := by
  obtain ⟨hlow, hmid⟩ := embedded_bits hg
  have hmapped := inNet_96 hg (by decide : ∀ x ∈ [0, 0, 0, 0, 0, 0xffff], x < 65536)
  have htranslated := inNet_96 hg (by decide : ∀ x ∈ [0, 0, 0, 0, 0xffff, 0], x < 65536)
  unfold embeddedAddress
  simp only [hlow, hmid, isMapped, isTranslated, Bool.or_eq_true, or_assoc,
    isCompatible_iff hg, isNat64_iff hg, is6to4_iff hg, hmapped, htranslated]

/-- The ladder over hextets finds the embedded address the rule names,
and finds none where there is none. -/
theorem embeddedV4_eight :
    match embeddedV4 [h0, h1, h2, h3, h4, h5, h6, h7] with
    | some v4 => ∃ n, IPv4Literal v4 n
        ∧ embeddedAddress (groupsValue [h0, h1, h2, h3, h4, h5, h6, h7]) = some n
    | none =>
      embeddedAddress (groupsValue [h0, h1, h2, h3, h4, h5, h6, h7]) = none := by
  have hlt := lt_eight hg
  have hlow : IPv4Literal (hextetsToV4 h6 h7) (h6 * 65536 + h7) :=
    hextetsToV4_literal (by omega) (by omega)
  have hmid : IPv4Literal (hextetsToV4 h1 h2) (h1 * 65536 + h2) :=
    hextetsToV4_literal (by omega) (by omega)
  have hor : h6 ||| h7 ≠ 0 ↔ (h6 ≠ 0 ∨ h7 ≠ 0) := by
    rw [ne_eq, Nat.or_eq_zero_iff]
    omega
  rw [embeddedAddress_eight hg]
  simp only [embeddedV4, hor]
  by_cases c1 : h0 = 0x2002
  · rw [if_pos c1]
    exact ⟨_, hmid, by rw [if_neg (by omega), if_pos c1]⟩
  rw [if_neg c1]
  by_cases c2 : h0 = 0x64 ∧ h1 = 0xff9b ∧ h2 ≤ 1 ∧ h3 = 0 ∧ h4 = 0 ∧ h5 = 0
  · rw [if_pos c2]
    exact ⟨_, hlow, if_pos (by omega)⟩
  rw [if_neg c2]
  by_cases c3 : (h0 = 0 ∧ h1 = 0 ∧ h2 = 0 ∧ h3 = 0 ∧ h4 = 0 ∧ h5 = 0) ∧ (h6 ≠ 0 ∨ h7 ≠ 0)
  · rw [if_pos c3]
    exact ⟨_, hlow, if_pos (by omega)⟩
  rw [if_neg c3]
  by_cases c4 : h0 = 0 ∧ h1 = 0 ∧ h2 = 0 ∧ h3 = 0 ∧ h4 = 0xffff ∧ h5 = 0
  · rw [if_pos c4]
    exact ⟨_, hlow, if_pos (by omega)⟩
  rw [if_neg c4]
  by_cases c5 : h0 = 0 ∧ h1 = 0 ∧ h2 = 0 ∧ h3 = 0 ∧ h4 = 0 ∧ h5 = 0xffff
  · rw [if_pos c5]
    exact ⟨_, hlow, if_pos (by omega)⟩
  rw [if_neg c5]
  rw [if_neg (by omega), if_neg c1]

end Arithmetic

/-- Eight groups, named. -/
theorem eq_eight (h : g.length = 8) :
    ∃ h0 h1 h2 h3 h4 h5 h6 h7, g = [h0, h1, h2, h3, h4, h5, h6, h7] := by
  match g, h with
  | [h0, h1, h2, h3, h4, h5, h6, h7], _ =>
    exact ⟨h0, h1, h2, h3, h4, h5, h6, h7, rfl⟩

/-- The reserved ranges lie outside global unicast, so the fallthrough
asks only about global unicast. -/
theorem fallthrough_eq (h : IPv6Literal s g) :
    (check6 blockedV6Ranges s || !check6 globalUnicastV6 s) = !isGlobalUnicast (groupsValue g) := by
  have hread : blockedV6Ranges.map (fun r => (parseIPv6 r.1.toList, r.2))
      = [ (some [0, 0, 0, 0, 0, 0, 0, 0], 128),
          (some [0, 0, 0, 0, 0, 0, 0, 1], 128),
          (some [0, 0, 0, 0, 0, 0, 0, 0], 3),
          (some [0xfc00, 0, 0, 0, 0, 0, 0, 0], 7),
          (some [0xfe80, 0, 0, 0, 0, 0, 0, 0], 10), (some [0xfec0, 0, 0, 0, 0, 0, 0, 0], 10) ] := by
    decide +kernel
  have hglobal : check6 globalUnicastV6 s = isGlobalUnicast (groupsValue g) := by
    have hnet : parseIPv6 "2000::".toList = some [0x2000, 0, 0, 0, 0, 0, 0, 0] := by
      decide +kernel
    unfold check6 globalUnicastV6
    rw [stripZone_of_literal h, parseIPv6_iff.mpr h]
    simp only [any_cons, any_nil, hnet, Bool.or_false, Option.any_some]
    rfl
  have hreserved : check6 blockedV6Ranges s
      = (blockedV6Ranges.map fun r => (parseIPv6 r.1.toList, r.2)).any
          fun r => r.1.any fun m => inNet m r.2 (groupsValue g) := by
    unfold check6
    rw [stripZone_of_literal h, parseIPv6_iff.mpr h, any_map]
    rfl
  rw [hglobal, hreserved, hread]
  obtain ⟨hlen, hlt⟩ := h.groups
  obtain ⟨h0, h1, h2, h3, h4, h5, h6, h7, rfl⟩ := eq_eight hlen
  have hunicast := isGlobalUnicast_iff hlt
  have hbounds := lt_eight hlt
  rw [Bool.eq_iff_iff]
  simp only [any_cons, any_nil, Option.any_some, Bool.or_false,
    Bool.or_eq_true, inNet, sameNet, beq_iff_eq, groupsValue_eight, Bool.not_eq_true',
    Bool.eq_false_iff, ne_eq] at hunicast ⊢
  rw [hunicast]
  omega

-- ======== the theorem

/-- The classification of a literal is that of the number it spells. -/
theorem isBlockedAddress_literal {t : Text} (h : IPv6Literal t g) :
    isBlockedAddress t = blockedAddress (groupsValue g) := by
  have hlower : IPv6Literal (toLowerCase t) g := h.lower
  obtain ⟨hlen, hlt⟩ := h.groups
  rw [isBlockedAddress_eq]
  unfold judgeAddress
  rw [isIPv4_of_literal h, isIPv6_of_literal h]
  simp only [Bool.false_eq_true, if_false, if_true, expandIPv6_lower h, Option.bind_some]
  cases hm : mappedTail (toLowerCase t) with
  | some v4 =>
    obtain ⟨hi, lo, rfl, hv4⟩ := mappedTail_literal hlower hm
    simp only [isBlockedAddress_v4 hv4, blockedAddress,
      embeddedAddress_eight hlt, true_and, true_or, if_true]
  | none =>
    obtain ⟨h0, h1, h2, h3, h4, h5, h6, h7, rfl⟩ := eq_eight hlen
    have hladder := embeddedV4_eight hlt
    cases he : embeddedV4 [h0, h1, h2, h3, h4, h5, h6, h7] with
    | some v4 =>
      rw [he] at hladder
      obtain ⟨n, hv4, hn⟩ := hladder
      simp only [isBlockedAddress_v4 hv4, blockedAddress, hn]
    | none =>
      rw [he] at hladder
      simp only [blockedAddress, hladder]
      exact fallthrough_eq hlower

/-- Address blocking depends on the numeric address only. Every IPv6
literal is expanded to the eight groups it spells and is classified by
the numeric rule, so that two spellings of one address are classified
alike. -/
theorem address_blocking_numeric {t : Text} {g : List Nat}
    (h : IPv6Literal t g) :
    isIPv6 t = true
      ∧ expandIPv6 (toLowerCase t) = some g
      ∧ g.length = 8 ∧ (∀ x ∈ g, x < 65536)
      ∧ isBlockedAddress t = blockedAddress (groupsValue g)
      ∧ ∀ t', IPv6Literal t' g → isBlockedAddress t' = isBlockedAddress t := by
  refine ⟨isIPv6_of_literal h, expandIPv6_lower h, h.groups.1, h.groups.2,
    isBlockedAddress_literal h, ?_⟩
  intro t' h'
  rw [isBlockedAddress_literal h, isBlockedAddress_literal h']

/-- 6to4 around 127.0.0.0, compressed over the embedded address and in
mixed case. -/
theorem address_blocking_numeric_6to4 :
    IPv6Literal "2002:7F00::Ab".toList [0x2002, 0x7f00, 0, 0, 0, 0, 0, 0xab]
      ∧ isBlockedAddress "2002:7F00::Ab".toList
          = blockedAddress (groupsValue [0x2002, 0x7f00, 0, 0, 0, 0, 0, 0xab])
      ∧ isBlockedAddress "2002:7f00:0:0:0:0:0:ab".toList
          = isBlockedAddress "2002:7F00::Ab".toList := by
  have h : IPv6Literal "2002:7F00::Ab".toList
      [0x2002, 0x7f00, 0, 0, 0, 0, 0, 0xab] := parseIPv6_iff.mp (by decide +kernel)
  have h' : IPv6Literal "2002:7f00:0:0:0:0:0:ab".toList
      [0x2002, 0x7f00, 0, 0, 0, 0, 0, 0xab] := parseIPv6_iff.mp (by decide +kernel)
  obtain ⟨-, -, -, -, hblocked, halike⟩ := address_blocking_numeric h
  exact ⟨h, hblocked, halike _ h'⟩

end OpenWA.Ssrf

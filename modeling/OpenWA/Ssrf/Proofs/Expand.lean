/-
`expandIPv6` reads the standard: on the lower-cased text of any IPv6
literal it returns the eight groups the literal spells.

# The two rewrites

The source folds a trailing dotted quad into two hextets and then cuts
the text at `::`. The fold is safe because the quad stands after a colon
and the expression that finds it matches digits and dots only: no match
can start further left (`matchDottedTail_append`), and a literal without
a quad has no dot to match (`matchDottedTail_none`). What is left are
hextets, and `splitDouble` cuts them where `Inet.cutDouble` does.
-/
import OpenWA.Lib.InetSpelling
import OpenWA.Ssrf.Address

namespace OpenWA.Ssrf

open Inet Text List

-- ======== the dotted tail

variable {s q : Text} {n : Nat} {ss : List Text} {ns : List Nat}

/-- What the dotted expression matches is digits and dots. -/
theorem chars_of_matchDotted {caps : List Text} (h : matchDotted s = some caps) :
    ∀ c ∈ s, c.isDigit = true ∨ c = '.' := by
  unfold matchDotted at h
  split at h
  next sa sb sc sd hs =>
    split at h
    next hall =>
      have htext : s = ['.'].intercalate [sa, sb, sc, sd] := by
        rw [← hs, intercalate_splitOn]
      simp only [all_cons, all_nil, Bool.and_true,
        Bool.and_eq_true, isShortDecimal, all_eq_true] at hall
      intro c hc
      rw [htext] at hc
      simp only [intercalate, intersperse, flatten_cons,
        flatten_nil, mem_append, mem_cons, not_mem_nil, or_false, append_nil] at hc
      obtain ⟨⟨-, h₁⟩, ⟨-, h₂⟩, ⟨-, h₃⟩, ⟨-, h₄⟩⟩ := hall
      rcases hc with hc | rfl | hc | rfl | hc | rfl | hc
      · exact .inl (h₁ c hc)
      · exact .inr rfl
      · exact .inl (h₂ c hc)
      · exact .inr rfl
      · exact .inl (h₃ c hc)
      · exact .inr rfl
      · exact .inl (h₄ c hc)
    next => cases h
  next => cases h

/-- A text with a colon is not dotted. -/
theorem matchDotted_of_colon (h : ':' ∈ s) : matchDotted s = none := by
  cases hm : matchDotted s with
  | none => rfl
  | some caps =>
    rcases chars_of_matchDotted hm ':' h with hd | hd
    · exact absurd hd (by decide)
    · exact absurd hd (by decide)

/-- A text without a dot is not dotted. -/
theorem matchDotted_of_dot_notMem (h : '.' ∉ s) : matchDotted s = none := by
  unfold matchDotted
  rw [splitOn_eq_singleton h]

theorem matchDottedTail_none (h : '.' ∉ s) : matchDottedTail s = none := by
  induction s with
  | nil => rfl
  | cons c rest ih =>
    have hrest : '.' ∉ rest := fun hm => h (mem_cons_of_mem _ hm)
    simp only [matchDottedTail, matchDotted_of_dot_notMem h, ih hrest, Option.map_none]

/-- A dotted quad behind a colon is where the tail expression matches. -/
theorem matchDottedTail_append (p : Text) {caps : List Text}
    (hq : matchDotted q = some caps) :
    matchDottedTail (p ++ ':' :: q) = some (p ++ [':'], caps) := by
  have hfound : matchDottedTail q = some ([], caps) := by
    cases q with
    | nil => cases hq
    | cons c rest => simp only [matchDottedTail, hq]
  induction p with
  | nil =>
    have hmiss : matchDotted (':' :: q) = none := matchDotted_of_colon (mem_cons_self ..)
    simp only [nil_append, matchDottedTail, hmiss, hfound, Option.map_some]
  | cons c p ih =>
    have hmiss : matchDotted (c :: (p ++ ':' :: q)) = none := matchDotted_of_colon (by simp)
    simp only [cons_append, matchDottedTail, hmiss, ih, Option.map_some]

theorem isShortDecimal_of_octet (h : Octet s n) : isShortDecimal s = true := by
  simp only [isShortDecimal, Bool.and_eq_true, decide_eq_true_eq, all_eq_true]
  exact ⟨⟨h.ne_nil, h.length_le⟩, h.digits⟩

/-- A dotted quad matches, and its captures are its octets. -/
theorem matchDotted_of_literal (h : IPv4Literal q n) :
    ∃ caps a b c d, matchDotted q = some caps
      ∧ caps.map decValue = [a, b, c, d]
      ∧ (a < 256 ∧ b < 256 ∧ c < 256 ∧ d < 256)
      ∧ n = ((a * 256 + b) * 256 + c) * 256 + d := by
  cases h with
  | @quad sa sb sc sd a b c d ha hb hc hd =>
    have hm : matchDotted (['.'].intercalate [sa, sb, sc, sd]) = some [sa, sb, sc, sd] := by
      unfold matchDotted
      rw [splitOn_quad ha hb hc hd]
      simp only [all_cons, all_nil, Bool.and_true,
        isShortDecimal_of_octet ha, isShortDecimal_of_octet hb,
        isShortDecimal_of_octet hc, isShortDecimal_of_octet hd, if_true]
    refine ⟨_, a, b, c, d, hm, ?_, ?_, rfl⟩
    · simp only [map_cons, map_nil, ha.value, hb.value, hc.value, hd.value]
    · have h₁ := ha.value_le
      have h₂ := hb.value_le
      have h₃ := hc.value_le
      have h₄ := hd.value_le
      omega

theorem shift_or_eq {a b : Nat} (hb : b < 256) : (a <<< 8) ||| b = a * 256 + b := by
  rw [← Nat.shiftLeft_add_eq_or_of_lt (by simpa using hb), Nat.shiftLeft_eq]

/-- The fold rewrites a quad behind a colon to the two hextets it
spells. -/
theorem foldDotted_append (p : Text) (hq : IPv4Literal q n) :
    foldDotted (p ++ ':' :: q)
      = some (p ++ ':' :: joinColons [toText 16 (n / 65536), toText 16 (n % 65536)]) := by
  obtain ⟨caps, a, b, c, d, hm, hcaps, hlt, rfl⟩ := matchDotted_of_literal hq
  have hhi : (((a * 256 + b) * 256 + c) * 256 + d) / 65536 = a * 256 + b := by
    omega
  have hlo : (((a * 256 + b) * 256 + c) * 256 + d) % 65536 = c * 256 + d := by
    omega
  have hany : [a, b, c, d].any (255 < ·) = false := by
    simp only [any_cons, any_nil, Bool.or_false, Bool.or_eq_false_iff, decide_eq_false_iff_not]
    omega
  unfold foldDotted
  rw [matchDottedTail_append p hm]
  simp only [hcaps, hany, hhi, hlo, shift_or_eq hlt.2.1, shift_or_eq hlt.2.2.2]
  simp [joinColons, intercalate]

theorem foldDotted_of_dot_notMem (h : '.' ∉ s) : foldDotted s = some s := by
  unfold foldDotted
  rw [matchDottedTail_none h]

-- ======== the fold

theorem dot_notMem_joinColons (h : ∀ s ∈ ss, '.' ∉ s) : '.' ∉ joinColons ss := by
  unfold joinColons
  induction ss with
  | nil => exact not_mem_nil
  | cons s rest ih =>
    have hs := h s (mem_cons_self ..)
    have ih := ih fun x hx => h x (mem_cons_of_mem _ hx)
    cases rest with
    | nil => simpa only [intercalate_singleton] using hs
    | cons r rest =>
      simp only [intercalate_cons_cons, mem_append, not_or]
      exact ⟨⟨hs, by decide⟩, ih⟩

/-- After the fold every group is a lower-case hextet, whatever the
spelling was. `before` is what stands in front of the groups: it ends in
a colon, or the groups bring one of their own. -/
theorem foldDotted_groups (h : Groups ss ns) {before : Text} (hdot : '.' ∉ before)
    (hcolon : (∃ p, before = p ++ [':']) ∨ (before = [] ∧ 2 < ns.length)) :
    ∃ ss', List.Forall₂ LowGroup ss' ns
      ∧ foldDotted (before ++ joinColons (ss.map (map Char.toLower)))
          = some (before ++ joinColons ss') := by
  rcases h.split with hall | ⟨init, q, ms, n, rfl, rfl, hinit, hq⟩
  · -- no quad: nothing to fold
    have hlow := lower_groups hall
    refine ⟨_, hlow, foldDotted_of_dot_notMem ?_⟩
    intro hmem
    rcases mem_append.1 hmem with hmem | hmem
    · exact hdot hmem
    · exact dot_notMem_joinColons (forall_mem_of_forall₂ (fun _ _ hg => hg.dot_notMem) hlow) hmem
  · have hlow := lower_groups hinit
    have hn := hq.value_lt
    have hhi := lowGroup_toDigits (n := n / 65536) (by omega)
    have hlo := lowGroup_toDigits (n := n % 65536) (by omega)
    refine ⟨init.map (map Char.toLower) ++ [toText 16 (n / 65536), toText 16 (n % 65536)], ?_, ?_⟩
    · exact rel_append hlow (List.Forall₂.cons hhi (List.Forall₂.cons hlo List.Forall₂.nil))
    · -- what stands before the quad ends in a colon
      obtain ⟨p, hp⟩ : ∃ p, before ++ (init.map (map Char.toLower)).flatMap
          (· ++ [':']) = p ++ [':'] := by
        rcases eq_nil_or_concat init with rfl | ⟨front, s, rfl⟩
        · rcases hcolon with ⟨p, rfl⟩ | ⟨-, hlen⟩
          · exact ⟨p, by simp⟩
          · cases hinit
            exact absurd hlen (by simp)
        · exact ⟨before ++ ((front.map (map Char.toLower)).flatMap
            (· ++ [':'])) ++ s.map Char.toLower, by simp⟩
      have hfront : ∀ rest, rest ≠ [] →
          before ++ joinColons (init.map (map Char.toLower) ++ rest)
            = p ++ ':' :: joinColons rest := by
        intro rest hne
        rw [joinColons_append _ hne, ← append_assoc, hp, append_assoc]
        rfl
      rw [map_append, map_cons, map_nil, hq.map_toLower,
        hfront [q] (cons_ne_nil _ _), hfront [_, _] (cons_ne_nil _ _)]
      rw [show joinColons [q] = q by simp [joinColons]]
      exact foldDotted_append p hq

-- ======== the halves

/-- `splitDouble` cuts at the first `::` and goes on behind it. -/
theorem splitDouble_eq (s : Text) :
    splitDouble s = match cutDouble s with
      | none => [s]
      | some (h, t) => h :: splitDouble t := by
  induction s with
  | nil => rfl
  | cons c rest ih =>
    cases rest with
    | nil => rfl
    | cons d rest =>
      by_cases hcd : c = ':' ∧ d = ':'
      · simp only [splitDouble, cutDouble, if_pos hcd]
      · simp only [splitDouble, cutDouble, if_neg hcd, ih]
        cases cutDouble (d :: rest) with
        | none | some => rfl

theorem isHextet_of_lowGroup (h : LowGroup s n) : isHextet s = true := by
  simp only [isHextet, Bool.and_eq_true, decide_eq_true_eq, all_eq_true]
  exact ⟨⟨h.ne_nil, h.length_le⟩, h.low⟩

theorem readHextets_of_low (h : List.Forall₂ LowGroup ss ns) : readHextets ss = some ns := by
  have hall : ss.all isHextet = true := all_eq_true.mpr
      (forall_mem_of_forall₂ (fun _ _ hg => isHextet_of_lowGroup hg) h)
  have hvals : ss.map hexValue = ns := by
    induction h with
    | nil => rfl
    | cons h₁ _ ih =>
      rw [map_cons, h₁.value]
      rw [all_cons, Bool.and_eq_true] at hall
      rw [ih hall.2]
  unfold readHextets
  rw [if_pos hall, hvals]

/-- The two faces of pieces in lower-case hextets: they come apart again
and hold no `::`. -/
theorem joined_low (h : List.Forall₂ LowGroup ss ns) :
    splitHalf (joinColons ss) = ss
      ∧ splitDouble (joinColons ss) = [joinColons ss]
      ∧ cutDouble (joinColons ss ++ [':']) = none := by
  have hg := groups_of_forall₂ (hexGroups_of_low h)
  have hcut := cutDouble_joinColons hg.colon_notMem hg.nil_notMem
  refine ⟨pieces_joinColons hg.colon_notMem hg.nil_notMem, ?_, hcut.2⟩
  rw [splitDouble_eq, hcut.1]

theorem lowGroup_zero : LowGroup ['0'] 0 := lowGroup_toDigits (n := 0) (by decide)

theorem lowGroup_replicate (k : Nat) :
    List.Forall₂ LowGroup (replicate k ['0']) (replicate k 0) := by
  induction k with
  | zero => exact List.Forall₂.nil
  | succ k ih => exact List.Forall₂.cons lowGroup_zero ih

-- ======== the expansion

/-- `expandIPv6` on the lower-cased text of a literal returns the groups
the literal spells. -/
theorem expandIPv6_lower {t : Text} {g : List Nat} (h : IPv6Literal t g) :
    expandIPv6 (toLowerCase t) = some g := by
  cases h with
  | @full ss ns hg hlen =>
    obtain ⟨ss', hlow, hfold⟩ := @foldDotted_groups ss _ hg [] not_mem_nil (.inr ⟨rfl, by omega⟩)
    obtain ⟨hhalf, hdouble, -⟩ := joined_low hlow
    have hlen' : ss'.length = 8 := hlow.length_eq.trans hlen
    unfold expandIPv6 toLowerCase
    rw [joinColons_lower, ← nil_append (joinColons _), hfold]
    simp only [nil_append, hdouble, hhalf, hlen', ne_eq, not_true_eq_false, if_false]
    exact readHextets_of_low hlow
  | @compressed hs ts hn tn hhs hts hle =>
    have hhead := lower_groups hhs
    have hdot : '.' ∉ joinColons (hs.map (map Char.toLower)) ++ [':', ':'] := by
      intro hmem
      rcases mem_append.1 hmem with hmem | hmem
      · exact dot_notMem_joinColons (forall_mem_of_forall₂ (fun _ _ hg => hg.dot_notMem) hhead) hmem
      · exact absurd hmem (by decide)
    obtain ⟨ts', htail, hfold⟩ := foldDotted_groups hts hdot
      (.inl ⟨joinColons (hs.map (map Char.toLower)) ++ [':'], by simp⟩)
    obtain ⟨hhalf, -, hcut⟩ := joined_low hhead
    obtain ⟨hhalf', hdouble, -⟩ := joined_low htail
    have htext : toLowerCase (joinColons hs ++ ':' :: ':' :: joinColons ts)
        = joinColons (hs.map (map Char.toLower)) ++ [':', ':']
          ++ joinColons (ts.map (map Char.toLower)) := by
      unfold toLowerCase
      simp only [map_append, map_cons, joinColons_lower, append_assoc]
      rfl
    have hsplit : splitDouble
        (joinColons (hs.map (map Char.toLower)) ++ [':', ':']
          ++ joinColons ts') = [joinColons (hs.map (map Char.toLower)), joinColons ts'] := by
      rw [append_assoc]
      show splitDouble (_ ++ ':' :: ':' :: joinColons ts') = _
      rw [splitDouble_eq, cutDouble_append hcut]
      simp only [hdouble]
    have hlens : (hs.map (map Char.toLower)).length = hn.length
        ∧ ts'.length = tn.length := ⟨hhead.length_eq, htail.length_eq⟩
    unfold expandIPv6
    rw [htext, hfold]
    simp only [hsplit, hhalf, hhalf', hlens.1, hlens.2, length_append, length_replicate]
    rw [if_neg (by omega), if_neg (by omega)]
    exact readHextets_of_low (rel_append (rel_append hhead (lowGroup_replicate _)) htail)

end OpenWA.Ssrf

/-
Texts as lists of characters, with the string operations of JavaScript
that the modelled code uses: `trim`, `toLowerCase`, `split`.

# What the lemmas are for

Ids are normalised by trimming and lower-casing and then compared. The
lemmas here say when a text is already normal — no blank at either end,
no capital in it — and that a text split at a character comes apart where
it was joined.
-/
import Mathlib.Data.List.TakeWhile

namespace OpenWA

open List

/-- A text, character by character. -/
abbrev Text := List Char

variable {s : Text}

namespace Text

/-- `String.prototype.toLowerCase`, on the ASCII letters: the ids, hosts
and header names it is applied to have no others. -/
def toLowerCase (s : Text) : Text := s.map Char.toLower

/-- An ASCII character that is its own lower case. -/
def isPlain (c : Char) : Bool := c.toNat < 128 && c.toLower == c

/-- White space and line terminators, as `trim` removes them. -/
def isSpace (c : Char) : Bool :=
  [0x9, 0xa, 0xb, 0xc, 0xd, 0x20, 0xa0, 0x1680, 0x2028, 0x2029, 0x202f,
    0x205f, 0x3000, 0xfeff].contains c.toNat
  || (0x2000 ≤ c.toNat && c.toNat ≤ 0x200a)

/-- `String.prototype.trim`. -/
def trim (s : Text) : Text := ((s.dropWhile isSpace).reverse.dropWhile isSpace).reverse

-- ======== lower case

/-- A property of ASCII characters is checked on the 128 of them. -/
theorem ascii_induction {p : Char → Prop} (h : ∀ k < 128, p (Char.ofNat k))
    (hrest : ∀ c : Char, ¬ c.toNat < 128 → p c) (c : Char) : p c := by
  by_cases hc : c.toNat < 128
  · rw [← Char.ofNat_toNat c]
    exact h c.toNat hc
  · exact hrest c hc

variable {c : Char}

/-- What an ASCII class of characters has in common. -/
theorem of_ascii {q p : Char → Prop} (hq : ∀ {c : Char}, q c → c.toNat < 128)
    (h : ∀ k < 128, q (Char.ofNat k) → p (Char.ofNat k)) : q c → p c :=
  ascii_induction (p := fun c => q c → p c) h (fun _ hc hqc => absurd (hq hqc) hc) c

theorem toLower_of_not_ascii (hc : ¬ c.toNat < 128) : c.toLower = c := by
  unfold Char.toLower
  split
  next h =>
    have hle : c.toNat ≤ 90 := h.2
    omega
  next => rfl

theorem toLower_toLower (c : Char) : c.toLower.toLower = c.toLower := by
  refine ascii_induction (p := fun c => c.toLower.toLower = c.toLower) (by decide +kernel) ?_ c
  intro c hc
  rw [toLower_of_not_ascii hc, toLower_of_not_ascii hc]

theorem toLowerCase_append (s t : Text) :
    toLowerCase (s ++ t) = toLowerCase s ++ toLowerCase t := map_append

theorem toNat_lt_of_isDigit (h : c.isDigit = true) : c.toNat < 128 := by
  have : c.toNat ≤ 57 := by
    simp only [Char.isDigit, Bool.and_eq_true, decide_eq_true_eq] at h
    exact h.2
  omega

/-- Decimal digits have no case. -/
theorem toLower_of_isDigit : c.isDigit = true → c.toLower = c :=
  of_ascii (p := fun c => c.toLower = c) toNat_lt_of_isDigit (by decide +kernel)

/-- Lower-casing makes no `@` of anything else. -/
theorem at_mem_toLowerCase (h : '@' ∈ toLowerCase s) : '@' ∈ s := by
  obtain ⟨c, hc, hlow⟩ := mem_map.mp h
  have hat : c.toLower = '@' → c = '@' := by
    refine ascii_induction (p := fun c => c.toLower = '@' → c = '@') (by decide +kernel) ?_ c
    intro c hc hlow
    rwa [toLower_of_not_ascii hc] at hlow
  exact hat hlow ▸ hc

-- ======== trim

/-- A text without a blank at either end is trimmed. -/
theorem trim_of_ends (hfirst : ∀ c, s.head? = some c → isSpace c = false)
    (hlast : ∀ c, s.getLast? = some c → isSpace c = false) : trim s = s := by
  have hkeep : ∀ {t : Text}, (∀ c, t.head? = some c → isSpace c = false) →
      t.dropWhile isSpace = t := by
    intro t ht
    cases t with
    | nil => rfl
    | cons c rest =>
      rw [dropWhile_cons_of_neg]
      rw [ht c rfl]
      exact Bool.false_ne_true
  unfold trim
  rw [hkeep hfirst, hkeep, reverse_reverse]
  intro c hc
  rw [head?_reverse] at hc
  exact hlast c hc

/-- Trimming the end leaves a beginning of what trimming the front
leaves. -/
theorem trim_prefix_dropWhile (s : Text) : trim s <+: s.dropWhile isSpace := by
  have hsuffix := dropWhile_suffix (l := (s.dropWhile isSpace).reverse) isSpace
  have hrev := reverse_prefix.mpr hsuffix
  rwa [reverse_reverse] at hrev

/-- The first character of a trimmed text is no blank. -/
theorem head_trim (h : (trim s).head? = some c) : isSpace c = false := by
  have hdrop : (s.dropWhile isSpace).head? = some c := by
    obtain ⟨rest, hrest⟩ := trim_prefix_dropWhile s
    rw [← hrest, head?_append, h]
    rfl
  have hnot := head?_dropWhile_not isSpace s
  rw [hdrop] at hnot
  exact hnot

theorem trim_trim (s : Text) : trim (trim s) = trim s := by
  refine trim_of_ends (fun c => head_trim) ?_
  intro c hc
  unfold trim at hc
  rw [getLast?_reverse] at hc
  have hnot := head?_dropWhile_not isSpace (s.dropWhile isSpace).reverse
  rw [hc] at hnot
  exact hnot

/-- Only blanks are trimmed. -/
theorem mem_trim (hc : c ∈ s) (hspace : isSpace c = false) : c ∈ trim s := by
  have hdrop : ∀ {t : Text}, c ∈ t → c ∈ t.dropWhile isSpace := by
    intro t ht
    rw [← takeWhile_append_dropWhile (p := isSpace) (l := t)] at ht
    rcases mem_append.mp ht with hfront | hrest
    · have hblank := mem_takeWhile_imp hfront
      rw [hspace] at hblank
      cases hblank
    · exact hrest
  exact mem_reverse.mpr (hdrop (mem_reverse.mpr (hdrop hc)))

/-- No blank becomes one by lower-casing. -/
theorem isSpace_toLower : isSpace c = false → isSpace c.toLower = false := by
  refine ascii_induction (p := fun c => isSpace c = false → isSpace c.toLower = false)
    (by decide +kernel) ?_ c
  intro c hc h
  rwa [toLower_of_not_ascii hc]

/-- What is used of a lower-casing, and true of the one of every script: it
leaves what it has written as it is, with ASCII characters that have no
lower case of their own between, and it brings no blank to the front. -/
structure CaseMap (lower : Text → Text) : Prop where
  fixed : ∀ {s t : Text}, (∀ c ∈ t, c ∈ lower s ∨ isPlain c = true) → lower t = t
  head : ∀ {s : Text}, (∀ c, s.head? = some c → isSpace c = false) →
    ∀ c, (lower s).head? = some c → isSpace c = false

theorem caseMap_toLowerCase : CaseMap toLowerCase where
  fixed := by
    intro s t h
    refine (map_congr_left fun c hc => ?_).trans (map_id t)
    rcases h c hc with hc | hc
    · obtain ⟨d, -, rfl⟩ := mem_map.mp hc
      exact toLower_toLower d
    · rw [isPlain, Bool.and_eq_true, beq_iff_eq] at hc
      exact hc.2
  head := by
    intro s h c hc
    unfold toLowerCase at hc
    rw [head?_map] at hc
    obtain ⟨d, hd, rfl⟩ := Option.map_eq_some_iff.mp hc
    exact isSpace_toLower (h d hd)

/-- A digit is no blank. -/
theorem isSpace_of_isDigit : c.isDigit = true → isSpace c = false :=
  of_ascii (p := fun c => isSpace c = false) toNat_lt_of_isDigit (by decide +kernel)

-- ======== split

variable {p : Text} {a : Char}

/-- No piece holds the separator. -/
theorem notMem_of_mem_splitOn (h : p ∈ s.splitOn a) : a ∉ p := by
  induction s generalizing p with
  | nil =>
    rw [splitOn_nil, mem_singleton] at h
    rw [h]
    exact not_mem_nil
  | cons c rest ih =>
    rw [splitOn_cons_eq_if_modifyHead] at h
    split at h
    · rcases mem_cons.1 h with rfl | h
      · exact not_mem_nil
      · exact ih h
    next hc =>
      cases hr : rest.splitOn a with
      | nil => exact absurd hr (splitOn_ne_nil a rest)
      | cons q qs =>
        rw [hr, modifyHead_cons] at h
        rw [hr] at ih
        rcases mem_cons.1 h with rfl | h
        · intro hmem
          rcases mem_cons.1 hmem with rfl | hmem
          · exact hc (beq_self_eq_true _)
          · exact ih (mem_cons_self ..) hmem
        · exact ih (mem_cons_of_mem _ h)

/-- The first piece is empty only when nothing, or the separator, comes
first. -/
theorem headD_splitOn_ne_nil {rest : Text} (h : c ≠ a) : ((c :: rest).splitOn a).headD [] ≠ [] := by
  rw [splitOn_cons_eq_if_modifyHead, if_neg (by simpa using h)]
  cases hr : rest.splitOn a with
  | nil => exact absurd hr (splitOn_ne_nil a rest)
  | cons q qs =>
    exact cons_ne_nil _ _

/-- The first piece is a beginning of the text. -/
theorem isPrefix_of_splitOn {ps : List Text} (h : s.splitOn a = p :: ps) : p <+: s := by
  have hjoin : [a].intercalate (s.splitOn a) = s := intercalate_splitOn a
  rw [h] at hjoin
  cases ps with
  | nil =>
    rw [intercalate_singleton] at hjoin
    exact ⟨[], by rw [append_nil, hjoin]⟩
  | cons q qs =>
    exact ⟨_, hjoin⟩

/-- Every piece stands in the text. -/
theorem isInfix_of_mem_splitOn (h : p ∈ s.splitOn a) : p <:+: s := by
  have hjoin : ∀ l : List Text, p ∈ l → p <:+: [a].intercalate l := by
    intro l hl
    induction l with
    | nil => cases hl
    | cons x l ih =>
      cases l with
      | nil =>
        rw [intercalate_singleton]
        exact (mem_singleton.mp hl) ▸ infix_rfl
      | cons y l =>
        rcases mem_cons.mp hl with rfl | hl
        · exact (prefix_append _ _).isInfix
        · exact (ih hl).trans ((suffix_append _ _).trans (suffix_append _ _)).isInfix
  have hin := hjoin _ h
  rw [intercalate_splitOn] at hin
  exact hin

-- ======== framing

variable {α : Type}

/-- Lists of one kind of element, up to where another kind starts. -/
theorem append_inj_of_all {p : α → Bool} {a b x y : List α}
    (ha : ∀ c ∈ a, p c = true) (hb : ∀ c ∈ b, p c = true)
    (hx : ∀ c ∈ x.head?, p c = false) (hy : ∀ c ∈ y.head?, p c = false)
    (h : a ++ x = b ++ y) : a = b ∧ x = y := by
  induction a generalizing b with
  | nil =>
    cases b with
    | nil => exact ⟨rfl, h⟩
    | cons d b =>
      have hd := hx d (by rw [show x = d :: (b ++ y) from h]; rfl)
      rw [hb d mem_cons_self] at hd
      cases hd
  | cons d a ih =>
    cases b with
    | nil =>
      have hd := hy d (by rw [← show d :: (a ++ x) = y from h]; rfl)
      rw [ha d mem_cons_self] at hd
      cases hd
    | cons d' b =>
      injection h with hd h
      obtain ⟨hab, hxy⟩ := ih (fun c hc => ha c (mem_cons_of_mem d hc))
        (fun c hc => hb c (mem_cons_of_mem d' hc)) h
      exact ⟨by rw [hd, hab], hxy⟩

/-- A list comes apart at its first separator in one way. -/
theorem append_cons_inj [DecidableEq α] {c : α} {a b x y : List α} (ha : c ∉ a)
    (hb : c ∉ b) (h : a ++ c :: x = b ++ c :: y) : a = b ∧ x = y := by
  have hplain : ∀ {l : List α}, c ∉ l → ∀ d ∈ l, (d != c) = true :=
    fun hl d hd => bne_iff_ne.mpr fun heq => hl (heq ▸ hd)
  have hstop : ∀ z : List α, ∀ d ∈ (c :: z).head?, (d != c) = false := by
    rintro z d ⟨⟩
    exact bne_self_eq_false c
  obtain ⟨hab, hrest⟩ := append_inj_of_all (hplain ha) (hplain hb) (hstop x) (hstop y) h
  exact ⟨hab, (cons.inj hrest).2⟩

/-- What stands behind the last separator of a text stands at the end of what
follows any other one. -/
theorem suffix_of_append_cons_eq {a b x y : Text} (hy : c ∉ y)
    (h : a ++ c :: x = b ++ c :: y) : y <:+ x := by
  have hx : c :: x <:+ a ++ c :: x := suffix_append a (c :: x)
  have hlast : y <:+ a ++ c :: x := by
    rw [h]
    exact (suffix_cons c y).trans (suffix_append b (c :: y))
  rcases suffix_or_suffix_of_suffix hlast hx with hsuffix | hsuffix
  · rcases suffix_cons_iff.mp hsuffix with rfl | hsuffix
    · exact absurd mem_cons_self hy
    · exact hsuffix
  · exact absurd (hsuffix.subset mem_cons_self) hy

/-- A text comes apart at its last separator in one way. -/
theorem append_cons_inj_of_notMem {a b x y : Text} (hx : c ∉ x) (hy : c ∉ y)
    (h : a ++ c :: x = b ++ c :: y) : a = b ∧ x = y := by
  have hxy : x = y := by
    refine (suffix_of_append_cons_eq hx h.symm).eq_of_length_le ?_
    exact (suffix_of_append_cons_eq hy h).length_le
  subst hxy
  exact ⟨append_cancel_right h, rfl⟩

end Text

end OpenWA

/-
The word bound of a query is the most an index can find in it.

# The argument

A tokenizer reads each position as part of a token or not, and has a choice
only outside ASCII. The most tokens come from changing sides at every
position it may choose: a token more and ending inside it is as good as any
token fewer, and of two readings with as many tokens the one that ends
outside a token is no worse. `wordsOf` computes what that reading counts,
a stretch at a time.
-/
import Mathlib.Algebra.Order.BigOperators.Group.List
import Mathlib.Algebra.Order.Group.Nat
import OpenWA.Search.Terms

namespace OpenWA.Search

variable {alnum : CodePoint → Bool}

-- ======== readings

/-- A tokenizer's reading of a word: which positions it takes as part of a
token. -/
def Reads (alnum : CodePoint → Bool) : List CodePoint → List Bool → Prop :=
  List.Forall₂ fun c token =>
    if Scan.runChar alnum c then token = true else c ≤ 0x7f → token = false

/-- The tokens that begin in a reading; `inside` says whether one has just
been read. -/
def begins (inside : Bool) : List Bool → Nat
  | [] => 0
  | token :: rest => (token && !inside).toNat + begins token rest

/-- The maximal runs of token positions. -/
def tokens (reading : List Bool) : Nat := begins false reading

/-- A token that has begun counts for one that is yet to begin. -/
theorem begins_inside (reading : List Bool) :
    begins true reading ≤ begins false reading
      ∧ begins false reading ≤ begins true reading + 1 := by
  cases reading with
  | nil => exact ⟨Nat.le_refl _, Nat.zero_le _⟩
  | cons token rest => cases token <;> simp [begins]; omega

-- ======== the best reading

/-- Change sides wherever there is a choice. -/
def choose (alnum : CodePoint → Bool) (inside : Bool) (c : CodePoint) : Bool :=
  if Scan.runChar alnum c then true else if 0x7f < c then !inside else false

/-- The choices that make the most words. -/
def best (alnum : CodePoint → Bool) (inside : Bool) : List CodePoint → List Bool
  | [] => []
  | c :: rest => choose alnum inside c :: best alnum (choose alnum inside c) rest

/-- The best reading is one a tokenizer may make. -/
theorem reads_best (inside : Bool) (word : List CodePoint) :
    Reads alnum word (best alnum inside word) := by
  induction word generalizing inside with
  | nil => exact .nil
  | cons c rest ih =>
    refine .cons ?_ (ih _)
    unfold choose
    split
    · rfl
    · intro hascii
      rw [if_neg (Nat.not_lt.mpr hascii)]

/-- No reading has more tokens than the best one. -/
theorem begins_le_best {word : List CodePoint} {reading : List Bool} (inside : Bool)
    (h : Reads alnum word reading) :
    begins inside reading ≤ begins inside (best alnum inside word) := by
  induction h generalizing inside with
  | nil => exact Nat.le_refl _
  | @cons c token word reading hc _ ih =>
    have hout := ih false
    have hin := ih true
    have hreading := begins_inside reading
    unfold best choose
    split at hc
    next hrun =>
      rw [hc, if_pos hrun]
      exact Nat.add_le_add_left hin _
    next hrun =>
      rw [if_neg hrun]
      split
      next =>
        -- either side now, against the other one
        cases token <;> cases inside <;> simp only [begins, Bool.not_true, Bool.not_false,
          Bool.and_true, Bool.and_false, Bool.toNat_true, Bool.toNat_false] <;> omega
      next hascii =>
        rw [hc (Nat.not_lt.mp hascii)]
        exact Nat.add_le_add_left hout _

-- ======== the scan counts the best reading

/-- How many tokens the best reading has up to here, and whether it ends in
one: a stretch changes sides at every position. -/
def Scan.count (s : Scan) : Nat :=
  s.words + if s.stretch = 0 then 0 else (s.stretch + 1 - s.afterRun.toNat) / 2

/-- The scan is inside a word. -/
def Scan.inside (s : Scan) : Bool :=
  if s.stretch = 0 then s.inRun else (s.stretch + s.afterRun.toNat) % 2 = 1

/-- Within a stretch there is no run. -/
def Scan.Ok (s : Scan) : Prop := s.stretch ≠ 0 → s.inRun = false

/-- One position read is one choice of the best reading. -/
theorem read_spec (alnum : CodePoint → Bool) {s : Scan} (h : s.Ok) (c : CodePoint) :
    (s.read alnum c).Ok
      ∧ (s.read alnum c).inside = choose alnum s.inside c
      ∧ (s.read alnum c).count = s.count + (choose alnum s.inside c && !s.inside).toNat := by
  have htoNat : ∀ b : Bool, b.toNat = if b then 1 else 0 := by decide
  unfold Scan.read choose
  -- each goal is arithmetic on the stretch and its parity
  split
  · refine ⟨fun hs => ?_, ?_, ?_⟩
    · grind [Scan.close]
    · grind [Scan.close, Scan.inside]
    · grind [Scan.close, Scan.inside, Scan.count, Scan.Ok]
  · split
    · refine ⟨fun hs => rfl, ?_, ?_⟩
      · grind [Scan.inside, Scan.Ok]
      · grind [Scan.inside, Scan.count, Scan.Ok]
    · refine ⟨fun hs => rfl, ?_, ?_⟩
      · grind [Scan.close, Scan.inside]
      · grind [Scan.close, Scan.count]

/-- The scan counts the tokens of the best reading. -/
theorem count_foldl (word : List CodePoint) {s : Scan} (h : s.Ok) :
    (word.foldl (Scan.read alnum) s).count
      = s.count + begins s.inside (best alnum s.inside word) := by
  induction word generalizing s with
  | nil => rfl
  | cons c rest ih =>
    obtain ⟨hok, hinside, hcount⟩ := read_spec alnum h c
    rw [List.foldl_cons, ih hok, hcount, hinside, Nat.add_assoc]
    rfl

theorem words_close (s : Scan) : (s.close false).words = s.count := by
  obtain ⟨words, inRun, stretch, afterRun⟩ := s
  unfold Scan.close Scan.count
  cases afterRun <;> split <;> simp

/-- The words counted are the tokens of the best reading. -/
theorem wordsOf_eq (word : List CodePoint) :
    wordsOf alnum word = tokens (best alnum false word) := by
  unfold wordsOf
  rw [words_close, count_foldl word fun h => absurd rfl h]
  exact Nat.zero_add _

-- ======== the words of a query

/-- A whitespace-separated word of a query: a non-empty piece without
whitespace that whitespace or an end of the query bounds on either side. -/
def WordOf (q word : List CodePoint) : Prop :=
  ∃ before after, q = before ++ word ++ after ∧ word ≠ [] ∧ (∀ c ∈ word, isSpace c = false)
    ∧ (∀ c ∈ before.getLast?, isSpace c = true) ∧ ∀ c ∈ after.head?, isSpace c = true

/-- A word is the first piece of the text that begins with it. -/
theorem splitSpaces_word {word after : List CodePoint} (hword : ∀ c ∈ word, isSpace c = false)
    (hafter : ∀ c ∈ after.head?, isSpace c = true) :
    ∃ pieces, splitSpaces false (word ++ after) = word :: pieces := by
  induction word with
  | nil =>
    cases after with
    | nil => exact ⟨[], rfl⟩
    | cons c after =>
      rw [List.nil_append, splitSpaces, if_pos (hafter c rfl)]
      exact ⟨_, rfl⟩
  | cons c word ih =>
    obtain ⟨pieces, hpieces⟩ := ih fun d hd => hword d (List.mem_cons_of_mem c hd)
    rw [List.cons_append, splitSpaces, hword c List.mem_cons_self, hpieces]
    exact ⟨pieces, rfl⟩

/-- Whatever stands before it, a word is a piece of the split, and not the
first one if a space stands before it that is not in a gap. -/
theorem mem_splitSpaces {word after before : List CodePoint} (hne : word ≠ [])
    (hword : ∀ c ∈ word, isSpace c = false)
    (hbefore : ∀ c ∈ before.getLast?, isSpace c = true)
    (hafter : ∀ c ∈ after.head?, isSpace c = true) (inGap : Bool) :
    word ∈ splitSpaces inGap (before ++ (word ++ after))
      ∧ (before ≠ [] → word ∈ (splitSpaces false (before ++ (word ++ after))).tail) := by
  induction before generalizing inGap with
  | nil =>
    obtain ⟨pieces, hpieces⟩ := splitSpaces_word hword hafter
    obtain ⟨c, rest, rfl⟩ := List.exists_cons_of_ne_nil hne
    refine ⟨?_, fun h => absurd rfl h⟩
    rw [List.nil_append, List.cons_append, splitSpaces, hword c List.mem_cons_self]
    rw [List.cons_append, splitSpaces, hword c List.mem_cons_self] at hpieces
    rw [if_neg Bool.false_ne_true] at hpieces ⊢
    rw [hpieces]
    exact List.mem_cons_self
  | cons c before ih =>
    have hlast : ∀ e ∈ before.getLast?, isSpace e = true := by
      cases before with
      | nil => simp
      | cons d before => simpa only [List.getLast?_cons_cons] using hbefore
    rw [List.cons_append, splitSpaces, splitSpaces]
    by_cases hc : isSpace c = true
    · obtain ⟨hmem, -⟩ := ih hlast true
      rw [if_pos hc, if_pos hc]
      refine ⟨?_, fun _ => hmem⟩
      split
      · exact hmem
      · exact List.mem_cons_of_mem _ hmem
    · -- the piece before a word ends in a space
      have hbefore_ne : before ≠ [] := by
        rintro rfl
        exact hc (hbefore c rfl)
      have htail := (ih hlast false).2 hbefore_ne
      rw [if_neg hc, if_neg hc]
      split
      next hnil =>
        rw [hnil] at htail
        cases htail
      next hcons =>
        rw [hcons] at htail
        exact ⟨List.mem_cons_of_mem _ htail, fun _ => htail⟩

/-- The whitespace `trim` removes is around the words. -/
theorem WordOf.dropWhile {q word : List CodePoint} (h : WordOf q word) :
    WordOf (q.dropWhile isSpace) word := by
  obtain ⟨before, after, rfl, hne, hword, hbefore, hafter⟩ := h
  obtain ⟨c, rest, rfl⟩ := List.exists_cons_of_ne_nil hne
  refine ⟨before.dropWhile isSpace, after, ?_, hne, hword, ?_, hafter⟩
  · induction before with
    | nil => simp [hword c List.mem_cons_self]
    | cons d before ih =>
      by_cases hd : isSpace d = true
      · simp only [List.cons_append, List.dropWhile_cons, hd, if_true]
        exact ih fun e he => by cases before <;> simp_all
      · simp [hd]
  · intro e he
    obtain ⟨gone, hgone⟩ := List.dropWhile_suffix (l := before) isSpace
    have hleft : before.dropWhile isSpace ≠ [] := by
      intro hnil
      rw [hnil] at he
      cases he
    refine hbefore e ?_
    rw [← hgone, List.getLast?_append_of_ne_nil _ hleft]
    exact he

theorem WordOf.reverse {q word : List CodePoint} (h : WordOf q word) :
    WordOf q.reverse word.reverse := by
  obtain ⟨before, after, rfl, hne, hword, hbefore, hafter⟩ := h
  refine ⟨after.reverse, before.reverse, by simp, by simpa using hne, by simpa using hword, ?_, ?_⟩
  · simpa using hafter
  · simpa using hbefore

/-- Every word of a query is one of those counted. -/
theorem WordOf.mem_distinctWords {q word : List CodePoint} (h : WordOf q word) :
    word ∈ distinctWords q := by
  have htrim : WordOf ((q.dropWhile isSpace).rdropWhile isSpace) word := by
    rw [List.rdropWhile, ← word.reverse_reverse]
    exact h.dropWhile.reverse.dropWhile.reverse
  obtain ⟨before, after, hq, hne, hword, hbefore, hafter⟩ := htrim
  rw [distinctWords, List.mem_dedup, hq, List.append_assoc]
  exact (mem_splitSpaces hne hword hbefore hafter false).1

-- ======== the result

/-- **The word bound is sound and tight.** No reading of a word has more
tokens than `wordsOf` says and some reading has as many; so
`searchTermCount` bounds the tokens of the distinct whitespace-separated
words of a query, however each is read. -/
theorem search_words_bound (alnum : CodePoint → Bool) :
    (∀ word, (∀ reading, Reads alnum word reading → tokens reading ≤ wordsOf alnum word)
      ∧ ∃ reading, Reads alnum word reading ∧ tokens reading = wordsOf alnum word)
    ∧ ∀ (q : List CodePoint) (words : List (List CodePoint))
      (reading : List CodePoint → List Bool), words.Nodup →
      (∀ word ∈ words, WordOf q word ∧ Reads alnum word (reading word)) →
      (words.map fun word => tokens (reading word)).sum ≤ searchTermCount alnum q := by
  have hbound : ∀ word reading, Reads alnum word reading → tokens reading ≤ wordsOf alnum word := by
    intro word reading h
    rw [wordsOf_eq]
    exact begins_le_best false h
  refine ⟨fun word => ⟨hbound word, _, reads_best false word, (wordsOf_eq word).symm⟩, ?_⟩
  intro q words reading hnodup hwords
  have hsub : words.Subperm (distinctWords q) :=
    List.subperm_of_subset hnodup fun word hword => (hwords word hword).1.mem_distinctWords
  calc (words.map fun word => tokens (reading word)).sum
      ≤ (words.map fun word =>
          if wordsOf alnum word = 0 then 1 else wordsOf alnum word).sum := by
        refine List.sum_le_sum fun word hword => ?_
        have := hbound word _ (hwords word hword).2
        split <;> omega
    _ ≤ searchTermCount alnum q := by
        obtain ⟨counted, hperm, hsublist⟩ := hsub
        rw [← (hperm.map _).sum_eq]
        exact (hsublist.map _).sum_le_sum fun _ _ => Nat.zero_le _

end OpenWA.Search

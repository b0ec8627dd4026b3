/-
Measuring a template is rendering it: `renderedLength` is the length of
what `renderTemplate` gives, and both read the variables a template
mentions and no others.

# The argument

Rendering and measuring walk over the same matches with the same memo, so
one induction over the pieces carries both, whatever the memo holds: each
match adds its text's length and takes the placeholder's away, and the
pieces together are the body (`flatMap_pieces`). A name is read by its own
placeholders only, which gives the dependency, and after the names are
deleted every placeholder stays as it is.
-/
import Mathlib.Data.List.TakeWhile
import OpenWA.Template.Render

namespace OpenWA.Template

open List

variable {s : JsString} {m : Match} {vars vars' : Vars}

-- ======== the pattern

theorem isSpace_of_isName {u : CodeUnit} (h : isName u = true) : isSpace u = false := by
  simp only [isName, isWord, Bool.or_eq_true, Bool.and_eq_true, decide_eq_true_eq] at h
  rw [Bool.eq_false_iff]
  intro hspace
  simp only [isSpace, Bool.or_eq_true, Bool.and_eq_true, decide_eq_true_eq,
    contains_iff_mem, mem_cons, not_mem_nil, or_false] at hspace
  omega

/-- A run with something else behind it is taken whole. -/
theorem takeWhile_append_stop {p : CodeUnit → Bool} {l r : JsString}
    (hl : ∀ u ∈ l, p u = true) (hr : ∀ u ∈ r.head?, p u = false) :
    (l ++ r).takeWhile p = l ∧ (l ++ r).dropWhile p = r := by
  rw [takeWhile_append_of_pos hl, dropWhile_append_of_pos hl]
  cases r with
  | nil => simp
  | cons u r =>
    have hu := hr u rfl
    simp [hu]

/-- The text of a double-brace placeholder. -/
def doubleText (before name after : JsString) : JsString :=
  [openBrace, openBrace] ++ before ++ name ++ after ++ [closeBrace, closeBrace]

/-- The first alternative matches at the front of a text if the text begins
with a placeholder of this form, which is then the match. -/
theorem matchDouble_iff : matchDouble s = some m ↔
    ∃ before name after rest, (∀ u ∈ before, isSpace u = true) ∧ name ≠ []
      ∧ (∀ u ∈ name, isName u = true) ∧ (∀ u ∈ after, isSpace u = true)
      ∧ s = doubleText before name after ++ rest
      ∧ m = { text := doubleText before name after, double := some name, single := none } := by
  constructor
  · intro h
    unfold matchDouble at h
    split at h
    case isFalse => cases h
    case isTrue hopen =>
      simp only at h
      split at h
      case isFalse => cases h
      case isTrue hclose =>
        obtain ⟨r, rfl⟩ := isPrefixOf_iff_prefix.mp hopen
        obtain ⟨hname, hclose⟩ := hclose
        obtain ⟨rest, hrest⟩ := isPrefixOf_iff_prefix.mp hclose
        have hdrop : ([openBrace, openBrace] ++ r).drop 2 = r := rfl
        rw [hdrop] at h hname hrest
        refine ⟨r.takeWhile isSpace, _, _, rest, fun u hu => mem_takeWhile_imp hu, hname,
          fun u hu => mem_takeWhile_imp hu, fun u hu => mem_takeWhile_imp hu, ?_,
          (Option.some.inj h).symm⟩
        unfold doubleText
        simp only [append_assoc]
        rw [hrest, takeWhile_append_dropWhile, takeWhile_append_dropWhile,
          takeWhile_append_dropWhile]
  · rintro ⟨before, name, after, rest, hbefore, hne, hname, hafter, rfl, rfl⟩
    have hclose : ∀ x : JsString, ∀ u ∈ (closeBrace :: x).head?,
        isSpace u = false ∧ isName u = false := by
      intro x u hu
      cases hu
      decide
    -- the three runs, from the last to the first
    have h₃ := takeWhile_append_stop (r := [closeBrace, closeBrace] ++ rest) hafter
      fun u hu => (hclose _ u hu).1
    have h₂ := takeWhile_append_stop (r := after ++ ([closeBrace, closeBrace] ++ rest)) hname (by
      intro u hu
      cases after with
      | nil => exact (hclose _ u hu).2
      | cons v after =>
        cases hu
        have hspace := hafter u mem_cons_self
        cases hn : isName u with
        | false => rfl
        | true =>
          rw [isSpace_of_isName hn] at hspace
          cases hspace)
    have h₁ := takeWhile_append_stop
      (r := name ++ (after ++ ([closeBrace, closeBrace] ++ rest))) hbefore (by
      intro u hu
      cases name with
      | nil => exact absurd rfl hne
      | cons v name =>
        cases hu
        exact isSpace_of_isName (hname u mem_cons_self))
    unfold matchDouble doubleText
    simp only [append_assoc]
    rw [if_pos (List.isPrefixOf_iff_prefix.mpr (prefix_append _ _))]
    have hdrop : ∀ x : JsString, ([openBrace, openBrace] ++ x).drop 2 = x := fun _ => rfl
    simp only [hdrop, h₁.1, h₁.2, h₂.1, h₂.2, h₃.1, h₃.2]
    rw [if_pos ⟨hne, isPrefixOf_iff_prefix.mpr (prefix_append _ _)⟩]

/-- The second alternative, likewise. -/
theorem matchSingle_iff : matchSingle s = some m ↔
    ∃ name rest, name ≠ [] ∧ (∀ u ∈ name, isWord u = true)
      ∧ s = [openBrace] ++ name ++ [closeBrace] ++ rest
      ∧ m = { text := [openBrace] ++ name ++ [closeBrace],
              double := none, single := some name } := by
  constructor
  · intro h
    unfold matchSingle at h
    split at h
    case isFalse => cases h
    case isTrue hopen =>
      simp only at h
      split at h
      case isFalse => cases h
      case isTrue hclose =>
        obtain ⟨r, rfl⟩ := isPrefixOf_iff_prefix.mp hopen
        obtain ⟨hname, hclose⟩ := hclose
        obtain ⟨rest, hrest⟩ := isPrefixOf_iff_prefix.mp hclose
        have hdrop : ([openBrace] ++ r).drop 1 = r := rfl
        rw [hdrop] at h hname hrest
        refine ⟨r.takeWhile isWord, rest, hname, fun u hu => mem_takeWhile_imp hu, ?_,
          (Option.some.inj h).symm⟩
        simp only [append_assoc]
        rw [hrest, takeWhile_append_dropWhile]
  · rintro ⟨name, rest, hne, hname, rfl, rfl⟩
    have hrun := takeWhile_append_stop (r := [closeBrace] ++ rest) hname (by
      intro u hu
      cases hu
      decide)
    unfold matchSingle
    simp only [append_assoc]
    rw [if_pos (List.isPrefixOf_iff_prefix.mpr (prefix_append _ _))]
    have hdrop : ∀ x : JsString, ([openBrace] ++ x).drop 1 = x := fun _ => rfl
    simp only [hdrop, hrun.1, hrun.2]
    rw [if_pos ⟨hne, isPrefixOf_iff_prefix.mpr (prefix_append _ _)⟩]

/-- A match stands at the front of the text and is not empty. -/
theorem matchAt_spec (h : matchAt s = some m) : m.text ≠ [] ∧ ∃ rest, s = m.text ++ rest := by
  unfold matchAt at h
  cases hdouble : matchDouble s with
  | some m' =>
    rw [hdouble] at h
    cases h
    obtain ⟨before, name, after, rest, -, -, -, -, hs, rfl⟩ := matchDouble_iff.mp hdouble
    exact ⟨cons_ne_nil _ _, rest, hs⟩
  | none =>
    rw [hdouble] at h
    obtain ⟨name, rest, -, -, hs, rfl⟩ := matchSingle_iff.mp h
    exact ⟨cons_ne_nil _ _, rest, hs⟩

/-- The text of a piece. -/
def Piece.text : Piece → JsString
  | .literal u => [u]
  | .placeholder m => m.text

theorem flatMap_scan (skip : Nat) (s : JsString) (hskip : skip ≤ s.length) :
    (scan skip s).flatMap Piece.text = s.drop skip := by
  induction s generalizing skip with
  | nil => cases skip <;> rfl
  | cons u rest ih =>
    cases skip with
    | succ skip => exact ih skip (Nat.le_of_succ_le_succ hskip)
    | zero =>
      unfold scan
      split
      next m hm =>
        obtain ⟨hne, tail, htail⟩ := matchAt_spec hm
        obtain ⟨v, text, htext⟩ := exists_cons_of_ne_nil hne
        rw [htext] at htail
        injection htail with _ hrest
        rw [flatMap_cons, ih (m.text.length - 1) (by simp [htext, hrest])]
        show m.text ++ rest.drop (m.text.length - 1) = u :: rest
        simp_all
      next =>
        rw [flatMap_cons, ih 0 (Nat.zero_le _)]
        rfl

/-- The pieces of a body are the body. -/
theorem flatMap_pieces (body : JsString) : (pieces body).flatMap Piece.text = body :=
  flatMap_scan 0 body (Nat.zero_le _)

-- ======== the length

section Steps

variable {seen seen' : Seen} {text : Option JsString} {e : TemplateRenderError} {n : Int}
  {rest : List Match} {ps : List Piece}

theorem measure_ok (h : substitution vars m.key seen = .ok (text, seen')) :
    measure vars seen n (m :: rest)
      = measure vars seen' (n + ((text.getD m.text).length - m.text.length)) rest := by
  simp only [measure, h, bind, Except.bind]
  cases text with
  | some t => rfl
  | none => simp

theorem measure_error (h : substitution vars m.key seen = .error e) :
    measure vars seen n (m :: rest) = .error e := by
  simp only [measure, h, bind, Except.bind]

theorem renderPieces_ok (h : substitution vars m.key seen = .ok (text, seen')) :
    renderPieces vars seen (.placeholder m :: ps)
      = (renderPieces vars seen' ps).map (text.getD m.text ++ ·) := by
  simp only [renderPieces, h, bind, Except.bind]
  cases renderPieces vars seen' ps <;> rfl

theorem renderPieces_error (h : substitution vars m.key seen = .error e) :
    renderPieces vars seen (.placeholder m :: ps) = .error e := by
  simp only [renderPieces, h, bind, Except.bind]

end Steps

/-- Measuring goes along with rendering, whatever the memo holds. -/
theorem measure_eq (vars : Vars) (seen : Seen) (n : Int) (ps : List Piece) :
    measure vars seen (n + (ps.flatMap Piece.text).length) (ps.filterMap Piece.matched)
      = (renderPieces vars seen ps).map fun t => n + t.length := by
  induction ps generalizing seen n with
  | nil => simp [measure, renderPieces, Except.map]
  | cons p ps ih =>
    cases p with
    | literal u =>
      have hlen : n + ((Piece.literal u :: ps).flatMap Piece.text).length
          = (n + 1) + (ps.flatMap Piece.text).length := by
        simp [Piece.text]
        omega
      rw [hlen]
      show measure vars seen _ (ps.filterMap Piece.matched)
        = ((renderPieces vars seen ps).map (u :: ·)).map _
      rw [ih]
      cases renderPieces vars seen ps with
      | error e => rfl
      | ok t =>
        simp [Except.map]
        omega
    | placeholder m =>
      have hlen : n + ((Piece.placeholder m :: ps).flatMap Piece.text).length
          = n + m.text.length + (ps.flatMap Piece.text).length := by
        simp [Piece.text]
        omega
      rw [hlen]
      show measure vars seen _ (m :: ps.filterMap Piece.matched) = _
      cases hsub : substitution vars m.key seen with
      | error e => rw [measure_error hsub, renderPieces_error hsub]; rfl
      | ok r =>
        have hmove : n + m.text.length + (ps.flatMap Piece.text).length
            + ((r.1.getD m.text).length - m.text.length)
            = n + (r.1.getD m.text).length + (ps.flatMap Piece.text).length := by
          omega
        rw [measure_ok hsub, renderPieces_ok hsub, hmove, ih]
        cases renderPieces vars r.2 ps with
        | error e => rfl
        | ok t =>
          simp [Except.map]
          omega

/-- The length computed is the length of the text. -/
theorem renderedLength_eq (body : JsString) (vars : Vars) :
    renderedLength body vars = (renderTemplate body vars).map fun t => (t.length : Int) := by
  unfold renderedLength renderTemplate
  split
  · rfl
  · have h := measure_eq vars [] 0 (pieces body)
    rw [flatMap_pieces, zero_add] at h
    rw [matchAll, h]
    simp only [zero_add]

-- ======== the dependency

/-- The names a list of pieces mentions. -/
def mentioned (ps : List Piece) : List JsString := (ps.filterMap Piece.matched).filterMap Match.key

theorem mentioned_placeholder {ps : List Piece} {k : JsString} (hk : m.key = some k) :
    mentioned (.placeholder m :: ps) = k :: mentioned ps := by
  simp [mentioned, Piece.matched, hk]

theorem substitution_congr {key : Option JsString} (h : ∀ k ∈ key, vars k = vars' k) (seen : Seen) :
    substitution vars key seen = substitution vars' key seen := by
  cases key with
  | none => rfl
  | some k =>
    have htext : textOf vars k = textOf vars' k := by
      unfold textOf
      rw [h k rfl]
    simp only [substitution, htext]

/-- Only the names mentioned are read. -/
theorem renderPieces_congr (seen : Seen) (ps : List Piece)
    (h : ∀ k ∈ mentioned ps, vars k = vars' k) :
    renderPieces vars seen ps = renderPieces vars' seen ps := by
  induction ps generalizing seen with
  | nil => rfl
  | cons p ps ih =>
    cases p with
    | literal u =>
      show (renderPieces vars seen ps).map _ = (renderPieces vars' seen ps).map _
      rw [ih seen h]
    | placeholder m =>
      have hrest : ∀ k ∈ mentioned ps, vars k = vars' k := by
        intro k hk
        refine h k ?_
        cases hm : m.key with
        | none => simpa [mentioned, Piece.matched, hm] using hk
        | some k' =>
          rw [mentioned_placeholder hm]
          exact mem_cons_of_mem k' hk
      have hkey : ∀ k ∈ m.key, vars k = vars' k := by
        intro k hk
        refine h k ?_
        rw [mentioned_placeholder hk]
        exact mem_cons_self
      have hsub := substitution_congr hkey seen
      cases hres : substitution vars m.key seen with
      | error e => rw [renderPieces_error hres, renderPieces_error (hsub ▸ hres)]
      | ok r => rw [renderPieces_ok hres, renderPieces_ok (hsub ▸ hres), ih r.2 hrest]

/-- A render reads the variables it names only. -/
theorem renderTemplate_congr {body : JsString}
    (h : ∀ k ∈ templateVariableNames body, vars k = vars' k) :
    renderTemplate body vars = renderTemplate body vars' := by
  unfold renderTemplate
  split
  · rfl
  · exact renderPieces_congr [] (pieces body) h

/-- Without any variable every placeholder stays as it is. -/
theorem renderPieces_none (seen : Seen) (hseen : ∀ p ∈ seen, p.2 = none) (ps : List Piece) :
    renderPieces (fun _ => none) seen ps = .ok (ps.flatMap Piece.text) := by
  induction ps generalizing seen with
  | nil => rfl
  | cons p ps ih =>
    cases p with
    | literal u =>
      show (renderPieces (fun _ => none) seen ps).map _ = _
      rw [ih seen hseen]
      rfl
    | placeholder m =>
      have hsub : ∃ seen', substitution (fun _ => none) m.key seen = .ok (none, seen')
          ∧ ∀ p ∈ seen', p.2 = none := by
        cases hk : m.key with
        | none => exact ⟨seen, rfl, hseen⟩
        | some k =>
          unfold substitution
          cases hlookup : seen.lookup k with
          | none =>
            refine ⟨(k, none) :: seen, by simp [hlookup, textOf, Except.map], ?_⟩
            intro p hp
            rcases mem_cons.mp hp with rfl | hp
            · rfl
            · exact hseen p hp
          | some text =>
            obtain ⟨l₁, l₂, hl, -⟩ := lookup_eq_some_iff.mp hlookup
            have htext : text = none := hseen (k, text) (by rw [hl]; simp)
            exact ⟨seen, by simp [hlookup, htext], hseen⟩
      obtain ⟨seen', hres, hseen'⟩ := hsub
      rw [renderPieces_ok hres, ih seen' hseen']
      rfl

theorem renderTemplate_none (body : JsString) : renderTemplate body (fun _ => none) = .ok body := by
  unfold renderTemplate
  split
  · rfl
  · rw [renderPieces_none [] (by simp), flatMap_pieces]

/-- A body whose names are all absent renders to itself. -/
theorem renderTemplate_absent {body : JsString}
    (h : ∀ k ∈ templateVariableNames body, vars k = none) : renderTemplate body vars = .ok body :=
  (renderTemplate_congr h).trans (renderTemplate_none body)

-- ======== stored batches

/-- Stripping one media item takes names away and touches no other item. -/
theorem stripMedia_spec (m : BatchMessage) (key : MediaKey) :
    (∀ k, k ≠ key → (stripMedia m key).content k = m.content k)
    ∧ (∀ vars, m.vars = some vars → ∃ vars', (stripMedia m key).vars = some vars'
        ∧ (∀ n, vars n = none → vars' n = none)
        ∧ ∀ s, m.content key = .object (some (.string s)) →
          ∀ n ∈ templateVariableNames s, vars' n = none) := by
  unfold stripMedia
  split
  next base64 hmedia =>
    refine ⟨fun k hk => if_neg hk, fun vars hvars => ?_⟩
    cases base64 with
    | other =>
      refine ⟨vars, hvars, fun _ h => h, fun s hs => ?_⟩
      rw [hmedia] at hs
      cases hs
    | string t =>
      refine ⟨vars.deleteAll (templateVariableNames t), by simp [hvars], ?_, ?_⟩
      · intro n hn
        unfold Vars.deleteAll
        split
        · rfl
        · exact hn
      · intro s hs n hn
        rw [hmedia] at hs
        cases hs
        unfold Vars.deleteAll
        rw [if_pos (by simpa using hn)]
  next hnot =>
    refine ⟨fun _ _ => rfl, fun vars hvars => ⟨vars, hvars, fun _ h => h, fun s hs => ?_⟩⟩
    exact absurd hs (hnot _)

/-- After all items are stripped, the names of every template a media item
was taken from are gone. -/
theorem stripped_names (m : BatchMessage) (keys : List MediaKey) (hkeys : keys.Nodup)
    {vars : Vars} (hvars : m.vars = some vars) :
    ∃ vars', (keys.foldl stripMedia m).vars = some vars'
      ∧ (∀ n, vars n = none → vars' n = none)
      ∧ ∀ key ∈ keys, ∀ s, m.content key = .object (some (.string s)) →
        ∀ n ∈ templateVariableNames s, vars' n = none := by
  induction keys generalizing m vars with
  | nil => exact ⟨vars, hvars, fun _ h => h, fun _ hkey => by cases hkey⟩
  | cons key keys ih =>
    obtain ⟨hnot, hnodup⟩ := nodup_cons.mp hkeys
    obtain ⟨hcontent, hstrip⟩ := stripMedia_spec m key
    obtain ⟨vars₁, hvars₁, hkept₁, hgone₁⟩ := hstrip vars hvars
    obtain ⟨vars₂, hvars₂, hkept₂, hgone₂⟩ := ih (stripMedia m key) hnodup hvars₁
    refine ⟨vars₂, hvars₂, fun n hn => hkept₂ n (hkept₁ n hn), fun key' hkey' s hs n hn => ?_⟩
    rcases mem_cons.mp hkey' with rfl | hkey'
    · exact hkept₂ n (hgone₁ s hs n hn)
    · refine hgone₂ key' hkey' s ?_ n hn
      rw [hcontent key' fun heq => hnot (heq ▸ hkey')]
      exact hs

-- ======== the result

/-- `renderedLength` is the length of `renderTemplate`, error for error; the
rendering depends on the variables the template names and on no others;
deleted, they leave the template as it is, and `stripBatchMediaPayloads`
deletes them for every template a media item was taken from. -/
theorem template_length_and_dependency (body : JsString) (vars : Vars) :
    renderedLength body vars = (renderTemplate body vars).map (fun t => (t.length : Int))
    ∧ (∀ vars', (∀ k ∈ templateVariableNames body, vars k = vars' k) →
        renderTemplate body vars = renderTemplate body vars')
    ∧ renderTemplate body (vars.deleteAll (templateVariableNames body)) = .ok body
    ∧ (∀ m key, m.content key = .object (some (.string body)) → m.vars = some vars →
        ∃ m' vars', stripBatchMediaPayloads [m] = [m'] ∧ m'.vars = some vars'
          ∧ renderTemplate body vars' = .ok body) := by
  refine ⟨renderedLength_eq body vars, fun vars' h => renderTemplate_congr h, ?_, ?_⟩
  · refine renderTemplate_absent fun k hk => ?_
    unfold Vars.deleteAll
    rw [if_pos (by simpa using hk)]
  · intro m key hmedia hvars
    obtain ⟨vars', hvars', -, hgone⟩ := stripped_names m
      [.image, .video, .audio, .document] (by decide) hvars
    refine ⟨_, vars', rfl, hvars', renderTemplate_absent (hgone key ?_ body hmedia)⟩
    cases key <;> simp

end OpenWA.Template

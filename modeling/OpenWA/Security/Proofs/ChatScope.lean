/-
One relation behind both paths of the chat fence: the guard and the list
filter admit an id exactly when it names a chat of the allowlist.

# The two expansions

The guard expands the requested chat through the table and looks for it
among the listed chats; the list filter expands the listed chats and
looks for the chat of each row. `chatIdAllowed_iff` and
`chatScopeAllows_iff` give both the same answer, `LidTable.Same` between
a listed chat and the one asked for: a lid has one phone, so going from a
lid to its phone and from a phone to its lids meet.
-/
import OpenWA.Security.Proofs.Chats

namespace OpenWA.Security

open Text Identity List

-- ======== the table

/-- The pairs of a table, as a relation between chats. -/
inductive LidTable.Pairs (t : LidTable) : Chat → Chat → Prop
  | toPhone {l p : Text} : (l, p) ∈ t.rows → t.Pairs (.lid l) (.user p)
  | toLid {l p : Text} : (l, p) ∈ t.rows → t.Pairs (.user p) (.lid l)

/-- Two chats are the same to the fence: equal, or a lid and the phone
the table pairs it with. -/
def LidTable.Same (t : LidTable) (a b : Chat) : Prop := a = b ∨ t.Pairs a b

variable {t : LidTable} {a : Chat}

theorem LidTable.Pairs.symm {b : Chat} (h : t.Pairs a b) : t.Pairs b a := by
  cases h with
  | toPhone hrow => exact .toLid hrow
  | toLid hrow => exact .toPhone hrow

theorem LidTable.Same.symm {b : Chat} (h : t.Same a b) : t.Same b a := by
  rcases h with heq | hpairs
  · exact .inl heq.symm
  · exact .inr hpairs.symm

/-- A lid has one phone. -/
theorem LidTable.phoneFor_iff (t : LidTable) {l p : Text} :
    t.phoneFor l = some p ↔ (l, p) ∈ t.rows := by
  constructor
  · intro h
    obtain ⟨before, after, hrows, -⟩ := lookup_eq_some_iff.mp h
    rw [hrows]
    exact mem_append_right _ (mem_cons_self ..)
  · intro h
    obtain ⟨before, after, hrows⟩ := append_of_mem h
    refine lookup_eq_some_iff.mpr ⟨before, after, hrows, ?_⟩
    intro r hr
    have hunique := t.unique
    rw [hrows, map_append, map_cons, nodup_append] at hunique
    have hne := hunique.2.2 r.1 (mem_map_of_mem hr) l (mem_cons_self ..)
    rw [bne_iff_ne]
    exact hne.symm

theorem LidTable.mem_lidsFor (t : LidTable) {l p : Text} : l ∈ t.lidsFor p ↔ (l, p) ∈ t.rows := by
  unfold LidTable.lidsFor
  rw [mem_map]
  constructor
  · intro ⟨r, hr, hl⟩
    obtain ⟨hr, hp⟩ := mem_filter.mp hr
    rw [decide_eq_true_eq] at hp
    rw [← hl, ← hp]
    exact hr
  · intro h
    exact ⟨(l, p), mem_filter.mpr ⟨h, decide_eq_true rfl⟩, rfl⟩

variable {f : Text}

/-- The forms of a resolved phone are those of a user. -/
theorem mem_resolvedForms {phone : Option Text} :
    f ∈ resolvedForms phone ↔ ∃ p, phone = some p ∧ p ≠ [] ∧ f ∈ (Chat.user p).forms := by
  constructor
  · intro h
    cases phone with
    | none => cases h
    | some p =>
      cases p with
      | nil => cases h
      | cons c rest => exact ⟨c :: rest, rfl, cons_ne_nil _ _, h⟩
  · intro ⟨p, hp, hne, hf⟩
    subst hp
    cases p with
    | nil => exact absurd rfl hne
    | cons c rest => exact hf

-- ======== the paths

/-- The entries a fence is built from. -/
def entriesOf (allowedChats : Option (List Text)) : List Text :=
  (normalizeChatAllowList allowedChats).getD []

/-- The chats an allowlist names. -/
def Listed (allowedChats : Option (List Text)) (a : Chat) : Prop :=
  ∃ e ∈ entriesOf allowedChats, chatOf e = some a

variable {allowedChats : Option (List Text)}

/-- The literal forms of an allowlist are the forms of its chats. -/
theorem mem_flatMap_addressForms :
    f ∈ (entriesOf allowedChats).flatMap addressForms
      ↔ ∃ a, Listed allowedChats a ∧ f ∈ a.forms := by
  rw [mem_flatMap]
  constructor
  · intro ⟨e, he, hf⟩
    rw [addressForms_eq] at hf
    cases hc : chatOf e with
    | none => rw [hc] at hf; cases hf
    | some a =>
      rw [hc] at hf
      exact ⟨a, ⟨e, he, hc⟩, hf⟩
  · intro ⟨a, ⟨e, he, hc⟩, hf⟩
    refine ⟨e, he, ?_⟩
    rw [addressForms_eq, hc]
    exact hf

theorem isPart_of_listed (h : Listed allowedChats a) : IsPart a.part := by
  obtain ⟨e, -, hc⟩ := h
  exact isPart_of_chatOf hc

/-- Every chat has a form. -/
theorem exists_form (a : Chat) : ∃ f, f ∈ a.forms := by
  cases a with
  | user | lid | group => exact ⟨_, mem_cons_self ..⟩

/-- The user parts of one kind among the entries are the listed chats of
that kind. -/
theorem mem_partsOfKind :
    a.part ∈ partsOfKind a.kind (entriesOf allowedChats) ↔ Listed allowedChats a := by
  simp only [partsOfKind, mem_map, mem_filter, decide_eq_true_eq]
  constructor
  · intro ⟨parsed, ⟨⟨e, he, hparse⟩, hkind⟩, hpart⟩
    subst hparse
    exact ⟨e, he, chatOf_eq_some_iff.mpr ⟨hkind, hpart⟩⟩
  · intro ⟨e, he, hc⟩
    obtain ⟨hkind, hpart⟩ := chatOf_eq_some_iff.mp hc
    exact ⟨parseWaId e, ⟨⟨e, he, rfl⟩, hkind⟩, hpart⟩

section Paths

variable {t : LidTable} {allowedChats : Option (List Text)} {id f : Text}
  {a b : Chat}

/-- The guard looks for the forms of the requested chat, of the chats the
table pairs it with, and for the id as it came. -/
theorem mem_candidates (hb : chatOf id = some b)
    (h : f ∈ resolveJidCandidates id (some t.directory)) :
    f ∈ b.forms ∨ (∃ a, t.Pairs b a ∧ f ∈ a.forms) ∨ f = id := by
  obtain ⟨hkind, hpart⟩ := chatOf_eq_some_iff.mp hb
  simp only [resolveJidCandidates, hkind, hpart, LidTable.directory,
    Option.bind_some, Option.map_some, Option.getD_some] at h
  cases b with
  | group g => exact .inl h
  | lid l =>
    rcases mem_cons.1 h with rfl | h
    · exact .inl (mem_cons_self ..)
    · obtain ⟨p, hp, -, hf⟩ := mem_resolvedForms.mp h
      exact .inr (.inl ⟨.user p, .toPhone (t.phoneFor_iff.mp hp), hf⟩)
  | user p =>
    rcases mem_append.1 h with h | h
    · rcases mem_cons.1 h with rfl | h
      · exact .inr (.inr rfl)
      · exact .inl h
    · obtain ⟨l, hl, rfl⟩ := mem_map.mp h
      exact .inr (.inl ⟨.lid l, .toLid (t.mem_lidsFor.mp hl), mem_cons_self ..⟩)

/-- The forms of the requested chat are among the candidates. -/
theorem forms_mem_candidates (hb : chatOf id = some b) (hf : f ∈ b.forms) :
    f ∈ resolveJidCandidates id (some t.directory) := by
  obtain ⟨hkind, hpart⟩ := chatOf_eq_some_iff.mp hb
  simp only [resolveJidCandidates, hkind, hpart]
  cases b with
  | group g => exact hf
  | lid l =>
    rw [mem_singleton.mp hf]
    exact mem_cons_self ..
  | user p =>
    exact mem_append_left _ (mem_cons_of_mem _ hf)

/-- So are the forms of the chats it is paired with. -/
theorem paired_mem_candidates (hb : chatOf id = some b)
    (hpairs : t.Pairs b a) (hne : a.part ≠ []) (hf : f ∈ a.forms) :
    f ∈ resolveJidCandidates id (some t.directory) := by
  obtain ⟨hkind, hpart⟩ := chatOf_eq_some_iff.mp hb
  simp only [resolveJidCandidates, hkind, hpart, LidTable.directory,
    Option.bind_some, Option.map_some, Option.getD_some]
  cases hpairs with
  | @toPhone l p hrow =>
    apply mem_cons_of_mem
    exact mem_resolvedForms.mpr ⟨p, t.phoneFor_iff.mpr hrow, hne, hf⟩
  | @toLid l p hrow =>
    apply mem_append_right
    rw [mem_singleton.mp hf]
    exact mem_map_of_mem (t.mem_lidsFor.mpr hrow)

/-- An id that names no chat is its own only candidate. -/
theorem candidates_of_none (hat : '@' ∈ id) (hnone : chatOf id = none) :
    resolveJidCandidates id (some t.directory) = [id] := by
  simp only [chatOf] at hnone
  simp only [resolveJidCandidates]
  cases hkind : (parseWaId id).kind with
  | user | lid | group => rw [hkind] at hnone; cases hnone
  | status | newsletter | broadcast => rfl
  | unknown => simp only [hat, and_self, if_true]

/-- The guard admits an id exactly when it names a chat that is the same
as a listed one. -/
theorem chatIdAllowed_iff (hat : '@' ∈ id)
    (hres : isChatScopeRestricted allowedChats = true) :
    chatIdAllowed (buildChatScope allowedChats) id (some t.directory) = true
      ↔ ∃ b, chatOf id = some b ∧ ∃ a, Listed allowedChats a ∧ t.Same a b := by
  simp only [buildChatScope, hres, if_true, chatIdAllowed, any_eq_true, contains_iff_mem]
  show (∃ f ∈ _, f ∈ (entriesOf allowedChats).flatMap addressForms) ↔ _
  simp only [mem_flatMap_addressForms]
  constructor
  · intro ⟨f, hcand, a, hlisted, hf⟩
    have hfa : chatOf f = some a := chatOf_of_mem_forms (isPart_of_listed hlisted) hf
    cases hb : chatOf id with
    | none =>
      rw [candidates_of_none hat hb, mem_singleton] at hcand
      rw [hcand, hb] at hfa
      cases hfa
    | some b =>
      refine ⟨b, rfl, a, hlisted, ?_⟩
      rcases mem_candidates hb hcand with hfb | ⟨a', hpairs, hfa'⟩ | rfl
      · exact .inl (eq_of_mem_forms hf hfb)
      · rw [eq_of_mem_forms hf hfa']
        exact .inr hpairs.symm
      · rw [hfa] at hb
        exact .inl (Option.some.inj hb)
  · intro ⟨b, hb, a, hlisted, hsame⟩
    obtain ⟨f, hf⟩ := exists_form a
    refine ⟨f, ?_, a, hlisted, hf⟩
    rcases hsame with rfl | hpairs
    · exact forms_mem_candidates hb hf
    · exact paired_mem_candidates hb hpairs.symm (isPart_of_listed hlisted).ne_nil hf

/-- What the expanded allowlist holds: the forms of listed chats and of
the chats the table pairs them with. -/
theorem mem_expanded (hres : isChatScopeRestricted allowedChats = true) :
    ∃ allowed,
      buildExpandedChatScope allowedChats (some t.batched) = some allowed
      ∧ ∀ f, f ∈ allowed ↔ ∃ a, Listed allowedChats a
          ∧ (f ∈ a.forms ∨ ∃ b, t.Pairs a b ∧ f ∈ b.forms ∧ (b.kind = .user → b.part ≠ [])) := by
  have hbuild : buildExpandedChatScope allowedChats (some t.batched)
      = some ((entriesOf allowedChats).flatMap addressForms
        ++ (t.batched.phonesForLids
            (partsOfKind .lid (entriesOf allowedChats))).flatMap (fun r => resolvedForms r.2)
        ++ (t.batched.lidsForPhones
            (partsOfKind .user (entriesOf allowedChats))).flatMap
              (fun r => r.2.map (· ++ "@lid".toList))) := by
    simp only [buildExpandedChatScope, buildChatScope, hres, if_true]
    rfl
  refine ⟨_, hbuild, ?_⟩
  intro f
  rw [mem_append, mem_append, mem_flatMap_addressForms]
  simp only [LidTable.batched, mem_flatMap, mem_map]
  constructor
  · rintro ((⟨a, hlisted, hf⟩ | ⟨r, ⟨l, hl, rfl⟩, hf⟩)
      | ⟨r, ⟨p, hp, rfl⟩, l, hl, rfl⟩)
    · exact ⟨a, hlisted, .inl hf⟩
    · obtain ⟨p, hp, hne, hf⟩ := mem_resolvedForms.mp hf
      exact ⟨.lid l, mem_partsOfKind.mp hl, .inr ⟨.user p,
        .toPhone (t.phoneFor_iff.mp hp), hf, fun _ => hne⟩⟩
    · exact ⟨.user p, mem_partsOfKind.mp hp, .inr ⟨.lid l,
        .toLid (t.mem_lidsFor.mp hl), mem_cons_self .., by simp [Chat.kind]⟩⟩
  · intro h
    obtain ⟨a, hlisted, hcase⟩ := h
    rcases hcase with hf | ⟨b, hpairs, hf, hne⟩
    · exact .inl (.inl ⟨a, hlisted, hf⟩)
    · cases hpairs with
      | @toPhone l p hrow =>
        refine .inl (.inr ⟨_, ⟨l, mem_partsOfKind.mpr hlisted, rfl⟩, ?_⟩)
        exact mem_resolvedForms.mpr ⟨p, t.phoneFor_iff.mpr hrow, hne rfl, hf⟩
      | @toLid l p hrow =>
        refine .inr ⟨_, ⟨p, mem_partsOfKind.mpr hlisted, rfl⟩, l, t.mem_lidsFor.mpr hrow, ?_⟩
        exact (mem_singleton.mp hf).symm

/-- The list filter admits an id exactly when the guard does. -/
theorem chatScopeAllows_iff
    (hres : isChatScopeRestricted allowedChats = true) :
    chatScopeAllows (buildExpandedChatScope allowedChats (some t.batched)) id = true
      ↔ ∃ b, chatOf id = some b ∧ ∃ a, Listed allowedChats a ∧ t.Same a b := by
  obtain ⟨allowed, hscope, hmem⟩ := mem_expanded (t := t) hres
  rw [hscope]
  simp only [chatScopeAllows, any_eq_true, contains_iff_mem, hmem, addressForms_eq]
  constructor
  · intro ⟨f, hf, a, hlisted, hcase⟩
    cases hb : chatOf id with
    | none => rw [hb] at hf; cases hf
    | some b =>
      rw [hb] at hf
      refine ⟨b, rfl, a, hlisted, ?_⟩
      rcases hcase with hfa | ⟨b', hpairs, hfb', -⟩
      · exact .inl (eq_of_mem_forms hfa hf)
      · rw [eq_of_mem_forms hf hfb']
        exact .inr hpairs
  · intro ⟨b, hb, a, hlisted, hsame⟩
    obtain ⟨f, hf⟩ := exists_form b
    refine ⟨f, by rw [hb]; exact hf, a, hlisted, ?_⟩
    rcases hsame with rfl | hpairs
    · exact .inl hf
    · exact .inr ⟨b, hpairs, hf, fun _ => (isPart_of_chatOf hb).ne_nil⟩

end Paths

-- ======== same spelling

/-- An entry and an id name the same chat: equal in the neutral dialect,
which folds the user dialects, the device and the case, or one a lid and
the other the phone the table pairs it with. -/
def SameChat (t : LidTable) (entry id : Text) : Prop :=
  toNeutralJid entry = toNeutralJid id
  ∨ ((parseWaId entry).kind = .lid ∧ (parseWaId id).kind = .user
      ∧ ((parseWaId entry).userPart, (parseWaId id).userPart) ∈ t.rows)
  ∨ ((parseWaId entry).kind = .user ∧ (parseWaId id).kind = .lid
      ∧ ((parseWaId id).userPart, (parseWaId entry).userPart) ∈ t.rows)

variable {id : Text}

/-- An entry names the chat of an id, itself or through the table. -/
theorem sameChat_iff {entry : Text}
    (ha : chatOf entry = some a) : SameChat t entry id ↔ ∃ b, chatOf id = some b ∧ t.Same a b := by
  obtain ⟨hkind, hpart⟩ := chatOf_eq_some_iff.mp ha
  constructor
  · intro h
    rcases h with heq | ⟨hl, hu, hrow⟩ | ⟨hu, hl, hrow⟩
    · have hmem := a.neutral_mem_forms
      rw [← toNeutralJid_eq ha, heq] at hmem
      exact ⟨a, chatOf_of_neutral (isPart_of_chatOf ha) hmem, .inl rfl⟩
    · have ha' : chatOf entry = some (.lid (parseWaId entry).userPart) :=
        chatOf_eq_some_iff.mpr ⟨hl, rfl⟩
      have hb : chatOf id = some (.user (parseWaId id).userPart) := chatOf_eq_some_iff.mpr ⟨hu, rfl⟩
      rw [ha] at ha'
      rw [Option.some.inj ha']
      exact ⟨_, hb, .inr (.toPhone hrow)⟩
    · have ha' : chatOf entry = some (.user (parseWaId entry).userPart) :=
        chatOf_eq_some_iff.mpr ⟨hu, rfl⟩
      have hb : chatOf id = some (.lid (parseWaId id).userPart) := chatOf_eq_some_iff.mpr ⟨hl, rfl⟩
      rw [ha] at ha'
      rw [Option.some.inj ha']
      exact ⟨_, hb, .inr (.toLid hrow)⟩
  · intro ⟨b, hb, hsame⟩
    obtain ⟨hkind', hpart'⟩ := chatOf_eq_some_iff.mp hb
    rcases hsame with rfl | hpairs
    · exact .inl (by rw [toNeutralJid_eq ha, toNeutralJid_eq hb])
    · cases hpairs with
      | toPhone hrow =>
        refine .inr (.inl ⟨hkind, hkind', ?_⟩)
        rw [hpart, hpart']
        exact hrow
      | toLid hrow =>
        refine .inr (.inr ⟨hkind, hkind', ?_⟩)
        rw [hpart, hpart']
        exact hrow

variable {l : List Text}

/-- The entries of an allowlist, spelled out. -/
theorem mem_entriesOf {e : Text} :
    e ∈ entriesOf (some l) ↔ ∃ x ∈ l, trim x ≠ [] ∧ e = qualify (trim x) := by
  have hmem : e ∈ (((l.map trim).filter (· ≠ [])).map qualify).eraseDups
      ↔ ∃ x ∈ l, trim x ≠ [] ∧ e = qualify (trim x) := by
    rw [mem_eraseDups, mem_map]
    constructor
    · intro ⟨y, hy, he⟩
      obtain ⟨hy, hne⟩ := mem_filter.mp hy
      obtain ⟨x, hx, rfl⟩ := mem_map.mp hy
      exact ⟨x, hx, of_decide_eq_true hne, he.symm⟩
    · intro ⟨x, hx, hne, he⟩
      exact ⟨trim x, mem_filter.mpr ⟨mem_map_of_mem hx, decide_eq_true hne⟩, he.symm⟩
  unfold entriesOf normalizeChatAllowList
  simp only
  split
  next hnil =>
    rw [hnil] at hmem
    exact hmem
  next => exact hmem

-- ======== the theorem

/-- A list keeps the rows whose id the scope admits. -/
theorem mem_filterByChatScope {α : Type} {scope : ChatScope}
    {items : List α} {chatIdOf : α → Option Text} {item : α}
    (hitem : item ∈ items) (hid : chatIdOf item = some id) :
    item ∈ filterByChatScope scope items chatIdOf ↔ chatScopeAllows scope id = true := by
  cases scope with
  | none => exact ⟨fun _ => rfl, fun _ => hitem⟩
  | some allowed =>
    simp only [filterByChatScope, mem_filter, hitem, true_and, hid, Option.any_some]

theorem restricted_iff : isChatScopeRestricted (some l) = true ↔ l ≠ [] := by
  unfold isChatScopeRestricted
  rw [Option.getD_some, decide_eq_true_eq, gt_iff_lt, length_pos_iff]

/-- The guard, over the entries. -/
theorem chatIdAllowed_iff_entry
    (hat : '@' ∈ id) (hne : l ≠ []) :
    chatIdAllowed (buildChatScope (some l)) id (some t.directory) = true
      ↔ ∃ e ∈ entriesOf (some l), (chatOf e).isSome = true ∧ SameChat t e id := by
  rw [chatIdAllowed_iff hat (restricted_iff.mpr hne)]
  constructor
  · intro ⟨b, hb, a, ⟨e, he, ha⟩, hsame⟩
    refine ⟨e, he, ?_, (sameChat_iff ha).mpr ⟨b, hb, hsame⟩⟩
    rw [ha]
    rfl
  · intro ⟨e, he, hsome, hsame⟩
    obtain ⟨a, ha⟩ := Option.isSome_iff_exists.mp hsome
    obtain ⟨b, hb, hsame⟩ := (sameChat_iff ha).mp hsame
    exact ⟨b, hb, a, ⟨e, he, ha⟩, hsame⟩

/-- The guard, over an allowlist of entries that may be stored. -/
theorem chatIdAllowed_iff_stored (hat : '@' ∈ id) (hne : l ≠ [])
    (hstored : ∀ e ∈ l, isChatId e = true) :
    chatIdAllowed (buildChatScope (some l)) id (some t.directory) = true
      ↔ ∃ e ∈ l, SameChat t (qualify e) id := by
  rw [chatIdAllowed_iff_entry hat hne]
  constructor
  · intro ⟨e, he, _, hsame⟩
    obtain ⟨x, hx, _, rfl⟩ := mem_entriesOf.mp he
    rw [(chatOf_of_isChatId (hstored x hx)).1] at hsame
    exact ⟨x, hx, hsame⟩
  · intro ⟨x, hx, hsame⟩
    obtain ⟨htrim, hnil, a, ha⟩ := chatOf_of_isChatId (hstored x hx)
    refine ⟨qualify x, mem_entriesOf.mpr ⟨x, hx, ?_, ?_⟩, ?_, hsame⟩
    · rw [htrim]
      exact hnil
    · rw [htrim]
    · rw [ha]
      rfl

/-- The fence around one chat. -/
theorem chatIdAllowed_singleton {b : Chat}
    (ha : IsPart a.part) (hb : IsPart b.part) :
    chatIdAllowed (buildChatScope (some [a.neutral])) b.neutral
        (some t.directory) = true ↔ t.Same a b := by
  have hchat : ∀ {c : Chat}, IsPart c.part → chatOf c.neutral = some c :=
    fun hc => chatOf_of_mem_forms hc (Chat.neutral_mem_forms _)
  rw [chatIdAllowed_iff b.at_mem_neutral (restricted_iff.mpr (cons_ne_nil _ _))]
  obtain ⟨htrim, hqual⟩ := Chat.qualify_trim_neutral ha
  constructor
  · intro ⟨b', hb', a', ⟨e, he, ha'⟩, hsame⟩
    obtain ⟨x, hx, -, rfl⟩ := mem_entriesOf.mp he
    rw [mem_singleton.mp hx, htrim, hqual, hchat ha] at ha'
    rw [hchat hb] at hb'
    cases ha'
    cases hb'
    exact hsame
  · intro hsame
    refine ⟨b, hchat hb, a, ⟨a.neutral, mem_entriesOf.mpr ⟨a.neutral,
      mem_singleton.mpr rfl, ?_, ?_⟩, hchat ha⟩, hsame⟩
    · rw [htrim]
      exact ne_nil_of_mem a.at_mem_neutral
    · rw [htrim, hqual]

/-- Chats of different kinds are the same only by the table. -/
theorem not_same_digits {d : Text} (h : t.phoneFor d ≠ some d) : ¬ t.Same (.lid d) (.user d) := by
  intro hsame
  rcases hsame with heq | hpairs
  · cases heq
  · cases hpairs with
    | toPhone hrow => exact h (t.phoneFor_iff.mpr hrow)

/-- One relation for guards and lists. Whatever the allowlist and the
table, the guard admits an id exactly when a list keeps a row with it. An
allowlist that is not empty admits exactly the ids that name the same
chat as one of its entries; an entry that names no chat admits nothing,
and those that may be stored all name one. The digits of a lid admit no
phone number, nor the other way round. -/
theorem chat_scope_agreement (t : LidTable) (allowedChats : List Text)
    (id : Text) (hat : '@' ∈ id) :
    (∀ {α : Type} (items : List α) (chatIdOf : α → Option Text) (item : α),
      item ∈ items → chatIdOf item = some id →
      (item ∈ filterByChatScope (buildExpandedChatScope (some allowedChats) (some t.batched))
          items chatIdOf
        ↔ chatIdAllowed (buildChatScope (some allowedChats)) id (some t.directory) = true))
    ∧ (allowedChats ≠ [] →
        (chatIdAllowed (buildChatScope (some allowedChats)) id (some t.directory) = true
          ↔ ∃ e ∈ entriesOf (some allowedChats), (chatOf e).isSome = true ∧ SameChat t e id))
    ∧ (allowedChats ≠ [] → (∀ e ∈ allowedChats, isChatId e = true) →
        (chatIdAllowed (buildChatScope (some allowedChats)) id (some t.directory) = true
          ↔ ∃ e ∈ allowedChats, SameChat t (qualify e) id))
    ∧ (∀ d, isNumericId d = true → t.phoneFor d ≠ some d →
        chatIdAllowed (buildChatScope (some [d ++ "@lid".toList]))
            (d ++ "@c.us".toList) (some t.directory) = false
        ∧ chatIdAllowed (buildChatScope (some [d ++ "@c.us".toList]))
            (d ++ "@lid".toList) (some t.directory) = false) := by
  refine ⟨?_, chatIdAllowed_iff_entry hat, chatIdAllowed_iff_stored hat, ?_⟩
  · intro α items chatIdOf item hitem hid
    rw [mem_filterByChatScope hitem hid]
    by_cases hne : allowedChats = []
    · rw [hne]
      exact Iff.rfl
    · have hres := restricted_iff.mpr hne
      rw [chatScopeAllows_iff hres, chatIdAllowed_iff hat hres]
  · intro d hd hphone
    have hpart := isPart_of_numeric caseMap_toLowerCase hd
    have hnot := not_same_digits hphone
    refine ⟨Bool.eq_false_iff.mpr ?_, Bool.eq_false_iff.mpr ?_⟩
    · intro hok
      exact hnot ((@chatIdAllowed_singleton t (.lid d) (.user d) hpart hpart).mp hok)
    · intro hok
      exact hnot (LidTable.Same.symm ((@chatIdAllowed_singleton t (.user d)
        (.lid d) hpart hpart).mp hok))

/-- A table of one pair, a fence around its phone and a group. -/
def oneLid : LidTable where
  rows := [("777000111".toList, "6281234567".toList)]
  unique := by decide

/-- The lid of a listed phone, in capitals and from a device: both paths
admit it. -/
theorem chat_scope_agreement_lid :
    (filterByChatScope (buildExpandedChatScope (some ["6281234567".toList, "12036@g.us".toList])
        (some oneLid.batched)) ["777000111:4@LID".toList] some
      = ["777000111:4@LID".toList])
    ∧ chatIdAllowed (buildChatScope
        (some ["6281234567".toList, "12036@g.us".toList]))
        "777000111:4@LID".toList (some oneLid.directory) = true
    ∧ ("777000111:4@LID".toList ∈ filterByChatScope (buildExpandedChatScope
        (some ["6281234567".toList, "12036@g.us".toList])
        (some oneLid.batched)) ["777000111:4@LID".toList] some
      ↔ chatIdAllowed (buildChatScope
        (some ["6281234567".toList, "12036@g.us".toList]))
        "777000111:4@LID".toList (some oneLid.directory) = true) :=
  ⟨by decide +kernel, by decide +kernel,
    (chat_scope_agreement oneLid ["6281234567".toList, "12036@g.us".toList] "777000111:4@LID".toList
      (by decide)).1 _ _ _ (mem_singleton.mpr rfl) rfl⟩

end OpenWA.Security

/-
The chats behind ids: which chat an id names, and in which forms a chat
is stored.

# Reading and writing

`chatOf` reads an id as the chat it names — a phone, a lid, a group — or
as none; `Chat.forms` writes a chat in all its stored forms,
`Chat.neutral` in the neutral dialect. Forms tell chats apart
(`eq_of_mem_forms`) and read back as the chat they were written for
(`chatOf_of_mem_forms`), so that spelling drops out of every question
about ids. `chatOf_of_isChatId`: what may be stored in an allowlist names
a chat.
-/
import OpenWA.Identity.Proofs.Neutral
import OpenWA.Security.ChatScope

namespace OpenWA.Security

open Text Identity List

-- ======== chats

/-- A chat the fence can name. -/
inductive Chat where
  | user (phone : Text)
  | lid (lid : Text)
  | group (id : Text)
  deriving DecidableEq

/-- The chat an id names, if it names one. -/
def chatOf (jid : Text) : Option Chat :=
  let parsed := parseWaId jid
  match parsed.kind with
  | .user => some (.user parsed.userPart)
  | .lid => some (.lid parsed.userPart)
  | .group => some (.group parsed.userPart)
  | _ => none

/-- The stored forms of a chat. -/
def Chat.forms : Chat → List Text
  | .user p => userForms p
  | .lid l => [l ++ "@lid".toList]
  | .group g => [g ++ "@g.us".toList]

/-- The part of a chat's forms before the `@`. -/
def Chat.part : Chat → Text
  | .user p => p
  | .lid l => l
  | .group g => g

/-- The kind of the ids that name a chat. -/
def Chat.kind : Chat → WaIdKind
  | .user _ => .user
  | .lid _ => .lid
  | .group _ => .group

variable {jid d f p address domain : Text} {a : Chat}

theorem chatOf_eq_some_iff :
    chatOf jid = some a ↔ (parseWaId jid).kind = a.kind ∧ (parseWaId jid).userPart = a.part := by
  simp only [chatOf]
  cases hkind : (parseWaId jid).kind with
  | user | lid | group => cases a <;> simp [Chat.kind, Chat.part]
  | status | newsletter | broadcast | unknown => cases a <;> simp [Chat.kind]

theorem addressForms_eq (id : Text) : addressForms id = ((chatOf id).map Chat.forms).getD [] := by
  simp only [addressForms, chatOf]
  cases (parseWaId id).kind with
  | user | lid | group | status | newsletter | broadcast | unknown => rfl

/-- The last four characters of a text, backwards. They tell the dialects
apart. -/
def tag (s : Text) : Text := s.reverse.take 4

theorem tag_append (p : Text) (hd : 4 ≤ d.length) : tag (p ++ d) = tag d := by
  unfold tag
  rw [reverse_append, take_append_of_le_length]
  rw [length_reverse]
  exact hd

/-- A form is a chat's part and the ending of one of the four dialects;
the ending tells the kind. -/
inductive Ends : Chat → Text → Prop
  | cus (p : Text) : Ends (.user p) (p ++ "@c.us".toList)
  | net (p : Text) : Ends (.user p) (p ++ "@s.whatsapp.net".toList)
  | lid (l : Text) : Ends (.lid l) (l ++ "@lid".toList)
  | gus (g : Text) : Ends (.group g) (g ++ "@g.us".toList)

theorem ends_iff : f ∈ a.forms ↔ Ends a f := by
  constructor
  · intro h
    cases a with
    | user p =>
      simp only [Chat.forms, userForms, mem_cons, not_mem_nil, or_false] at h
      rcases h with rfl | rfl
      · exact Ends.cus p
      · exact Ends.net p
    | lid l =>
      rw [mem_singleton.mp h]
      exact Ends.lid l
    | group g =>
      rw [mem_singleton.mp h]
      exact Ends.gus g
  · intro h
    cases h with
    | cus p => exact mem_cons_self ..
    | net p => exact mem_cons_of_mem _ (mem_cons_self ..)
    | lid | gus => exact mem_singleton.mpr rfl

/-- Texts with different endings differ. -/
theorem append_ne_of_tag {q e : Text} (hd : 4 ≤ d.length) (he : 4 ≤ e.length)
    (hne : tag d ≠ tag e) : p ++ d ≠ q ++ e := by
  intro h
  apply hne
  rw [← tag_append p hd, ← tag_append q he, h]

/-- No text is a form of two chats. -/
theorem eq_of_mem_forms {b : Chat} (ha : f ∈ a.forms) (hb : f ∈ b.forms) : a = b := by
  rw [ends_iff] at ha hb
  generalize hf : f = f' at hb
  -- one dialect: the parts are equal; two dialects: the endings differ
  cases ha <;> cases hb
  all_goals first
    | rw [append_cancel_right hf]
    | exact absurd hf (append_ne_of_tag (by decide) (by decide) (by decide))

-- ======== reading

/-- The user part of an id that names a chat is a part. -/
theorem isPart_of_chatOf (h : chatOf jid = some a) : IsPart a.part := by
  simp only [chatOf] at h
  rcases parseWaId_cases caseMap_toLowerCase jid with hkind | ⟨hpart, -⟩
  · rw [hkind] at h
    cases h
  · split at h
    all_goals cases h
    all_goals exact hpart

theorem chatOf_form (hp : IsPart a.part) (hd : isDomain d = true) (hne : d ≠ "broadcast".toList)
    (hk : domainKinds.lookup d = some a.kind) : chatOf (a.part ++ '@' :: d) = some a := by
  rw [chatOf_eq_some_iff, parseWaId_form hp hd (.inl hne), hk]
  exact ⟨rfl, rfl⟩

/-- The forms of a chat name the chat. -/
theorem chatOf_of_mem_forms (hp : IsPart a.part) (hf : f ∈ a.forms) : chatOf f = some a := by
  rw [ends_iff] at hf
  cases hf with
  | cus | net | lid | gus => exact chatOf_form hp (by decide) (by decide) rfl

-- ======== neutral dialect

/-- A chat in the neutral dialect. -/
def Chat.neutral : Chat → Text
  | .user p => p ++ "@c.us".toList
  | .lid l => l ++ "@lid".toList
  | .group g => g ++ "@g.us".toList

theorem Chat.neutral_mem_forms (a : Chat) : a.neutral ∈ a.forms := by
  cases a with
  | user | lid | group => exact mem_cons_self ..

/-- The empty text names no chat. -/
theorem ne_nil_of_chatOf (h : chatOf jid = some a) : jid ≠ [] := by
  intro hnil
  have hnone : chatOf [] = none := by decide
  rw [hnil, hnone] at h
  cases h

/-- An id that names a chat is rewritten to the chat's neutral form. -/
theorem toNeutralJid_eq (h : chatOf jid = some a) : toNeutralJid jid = a.neutral := by
  obtain ⟨hkind, hpart⟩ := chatOf_eq_some_iff.mp h
  simp only [toNeutralJid, if_neg (ne_nil_of_chatOf h), hkind, hpart]
  cases a with
  | user | lid | group => rfl

/-- A channel or a broadcast list is no form of a chat. -/
theorem notMem_forms_of_tag (hd : 4 ≤ d.length)
    (hne : ∀ e ∈ ["@c.us".toList, "@s.whatsapp.net".toList, "@lid".toList, "@g.us".toList],
      tag d ≠ tag e) : p ++ d ∉ a.forms := by
  intro h
  rw [ends_iff] at h
  generalize hf : p ++ d = f at h
  cases h with
  | cus | net | lid | gus => exact append_ne_of_tag hd (by decide) (hne _ (by simp)) hf

/-- Only ids that name a chat have a chat's neutral spelling. -/
theorem chatOf_of_neutral (hp : IsPart a.part) (h : toNeutralJid jid ∈ a.forms) :
    chatOf jid = some a := by
  cases hb : chatOf jid with
  | some b =>
    rw [toNeutralJid_eq hb] at h
    rw [eq_of_mem_forms h b.neutral_mem_forms]
  | none =>
    have hback := chatOf_of_mem_forms hp h
    have hnil : jid ≠ [] := by
      intro hnil
      rw [hnil] at hback
      exact ne_nil_of_chatOf hback rfl
    simp only [toNeutralJid, if_neg hnil] at h hback
    have hb' := hb
    simp only [chatOf] at hb'
    cases hkind : (parseWaId jid).kind with
    | user | lid | group => rw [hkind] at hb'; cases hb'
    | status =>
      have hnone : chatOf "status@broadcast".toList = none := by decide
      rw [hkind] at hback
      exact absurd (hnone.symm.trans hback) (by simp)
    | newsletter | broadcast =>
      rw [hkind] at h
      exact absurd h (notMem_forms_of_tag (by decide) (by decide))
    | unknown =>
      rw [hkind] at hback
      exact absurd (hb.symm.trans hback) (by simp)

theorem Chat.at_mem_neutral (a : Chat) : '@' ∈ a.neutral := by
  cases a with
  | user | lid | group => exact mem_append_right _ (by decide)

/-- A neutral id is stored as it is. -/
theorem Chat.qualify_trim_neutral (ha : IsPart a.part) :
    trim a.neutral = a.neutral ∧ qualify a.neutral = a.neutral := by
  refine ⟨?_, ?_⟩
  · cases a with
    | user | lid | group => exact trim_form ha (by decide)
  · unfold qualify
    rw [if_neg]
    intro hnum
    rw [isNumericId, Bool.and_eq_true, all_eq_true] at hnum
    exact absurd (hnum.2 '@' a.at_mem_neutral) (by decide)

-- ======== stored entries

/-- A number without a domain is qualified to a user. -/
theorem chatOf_numeric (h : isNumericId p = true) : chatOf (p ++ "@c.us".toList) = some (.user p) :=
  chatOf_of_mem_forms (a := .user p) (isPart_of_numeric caseMap_toLowerCase h) (mem_cons_self ..)

/-- What a text with one `@` is read as. -/
theorem kind_of_split (hsplit : (toLowerCase (trim jid)).splitOn '@' = [address, domain])
    (hlocal : (address.splitOn ':').headD [] ≠ [])
    (hdomain : domain ≠ "broadcast".toList) :
    (parseWaId jid).kind = (domainKinds.lookup domain).getD .unknown := by
  have hne : toLowerCase (trim jid) ≠ "status@broadcast".toList := by
    intro heq
    rw [heq] at hsplit
    exact hdomain (pieces_of_status hsplit).2
  simp only [parseWaId, if_neg hne, hsplit, if_neg hlocal]

/-- A user part that may be stored starts with a digit. -/
theorem head_of_userPart {user : Text}
    (h : isGroupUserPart user = true ∨ isNumericId user = true) :
    ∃ c rest, user = c :: rest ∧ c.isDigit = true := by
  cases user with
  | nil => exact absurd h (by decide)
  | cons c rest =>
    refine ⟨c, rest, rfl, ?_⟩
    have hhead : ∀ {a : Text}, a <+: c :: rest → a ≠ [] →
        (∀ d ∈ a, d.isDigit = true) → c.isDigit = true := by
      intro a ha hne hdigits
      obtain ⟨d, a, rfl⟩ := exists_cons_of_ne_nil hne
      rw [← (cons_prefix_cons.mp ha).1]
      exact hdigits d (mem_cons_self ..)
    rcases h with h | h
    · unfold isGroupUserPart at h
      split at h
      next a hsplit =>
        simp only [Bool.and_eq_true, decide_eq_true_eq, all_eq_true] at h
        exact hhead (isPrefix_of_splitOn hsplit) h.1 h.2
      next a b hsplit =>
        simp only [Bool.and_eq_true, decide_eq_true_eq, all_eq_true] at h
        exact hhead (isPrefix_of_splitOn hsplit) h.1.1 h.1.2
      next => cases h
    · rw [isNumericId, Bool.and_eq_true, all_eq_true] at h
      exact h.2 c (mem_cons_self ..)

/-- Whatever may be stored in an allowlist names a chat. -/
theorem chatOf_of_isChatId {e : Text} (h : isChatId e = true) :
    trim e = e ∧ e ≠ [] ∧ ∃ a, chatOf (qualify e) = some a := by
  simp only [isChatId] at h
  split at h
  · cases h
  next hclean =>
    have htrim : trim e = e := by
      by_cases heq : trim e = e
      · exact heq
      · exact absurd (.inr (.inl heq)) hclean
    have hne : e ≠ [] := by
      intro hnil
      exact hclean (.inl (htrim.trans hnil))
    refine ⟨htrim, hne, ?_⟩
    rw [htrim] at h
    unfold qualify
    split
    next hnum => exact ⟨_, chatOf_numeric hnum⟩
    next hnum =>
      rw [if_neg hnum] at h
      split at h
      next address domain hsplit =>
        -- the user part starts with a digit, so neither it nor the
        -- lower-cased address is empty before a colon
        have hdigit : ∃ c rest, address = c :: rest ∧ c.isDigit = true := by
          have huser : isGroupUserPart ((address.splitOn ':').headD []) = true
              ∨ isNumericId ((address.splitOn ':').headD []) = true := by
            split at h
            · exact .inl h
            · split at h
              · exact .inr h
              · cases h
          obtain ⟨c, rest, huser, hc⟩ := head_of_userPart huser
          cases hparts : address.splitOn ':' with
          | nil => exact absurd hparts (splitOn_ne_nil ':' address)
          | cons p ps =>
            rw [hparts] at huser
            have hp : p = c :: rest := huser
            obtain ⟨more, hmore⟩ := isPrefix_of_splitOn hparts
            rw [hp] at hmore
            exact ⟨c, rest ++ more, hmore.symm, hc⟩
        obtain ⟨c, rest, rfl, hc⟩ := hdigit
        have hlocal : ((toLowerCase (c :: rest)).splitOn ':').headD [] ≠ [] := by
          show ((c.toLower :: toLowerCase rest).splitOn ':').headD [] ≠ []
          rw [toLower_of_isDigit hc]
          apply headD_splitOn_ne_nil
          intro heq
          rw [heq] at hc
          exact absurd hc (by decide)
        have htext : e = (c :: rest) ++ '@' :: domain := by
          have hjoin : ['@'].intercalate (e.splitOn '@') = e := intercalate_splitOn '@'
          rw [hsplit] at hjoin
          rw [← hjoin]
          simp [intercalate]
        have hlow : (toLowerCase (trim e)).splitOn '@'
            = [toLowerCase (c :: rest), toLowerCase domain] := by
          have hat₁ : '@' ∉ toLowerCase (c :: rest) := by
            intro hmem
            exact notMem_of_mem_splitOn (hsplit ▸ mem_cons_self ..) (at_mem_toLowerCase hmem)
          have hat₂ : '@' ∉ toLowerCase domain := by
            intro hmem
            exact notMem_of_mem_splitOn (hsplit ▸ mem_cons_of_mem _
              (mem_cons_self ..)) (at_mem_toLowerCase hmem)
          rw [htrim, htext, toLowerCase_append]
          show (toLowerCase (c :: rest) ++ '@' :: toLowerCase domain).splitOn '@' = _
          rw [splitOn_append_cons_self_of_not_mem hat₁, splitOn_eq_singleton hat₂]
        have hdomain : toLowerCase domain = "g.us".toList
            ∨ toLowerCase domain = "c.us".toList
            ∨ toLowerCase domain = "s.whatsapp.net".toList
            ∨ toLowerCase domain = "lid".toList := by
          split at h
          next hg => exact .inl hg
          next =>
            split at h
            next hd => exact .inr hd
            next => cases h
        rcases hdomain with hd | hd | hd | hd
        all_goals
          rw [hd] at hlow
          have hkind := kind_of_split hlow hlocal (by decide)
          simp only [chatOf, hkind]
          exact ⟨_, rfl⟩
      next => cases h

end OpenWA.Security

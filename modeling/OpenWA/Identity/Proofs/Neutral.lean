/-
One entity, one spelling: `toNeutralJid` and `toParticipantWid` write an id
in a form that is read back as the id was.

# What is lower case

`parseWaId` lower-cases what it reads, in any script. The results hold for
every lower-casing with the properties of `CaseMap`; nothing else of it is
used, since all that is written again is a beginning of a lower-cased text
and an ASCII domain.
-/
import OpenWA.Identity.WaId

namespace OpenWA.Identity

open Text List

/-- The neutral domain of the ids of a kind. -/
def WaIdKind.domain : WaIdKind → Text
  | .user => "c.us".toList
  | .group => "g.us".toList
  | .lid => "lid".toList
  | .newsletter => "newsletter".toList
  | .status | .broadcast | .unknown => "broadcast".toList

variable {lower : Text → Text} {jid p address d : Text}

-- ======== parts and domains

/-- What `parseWaId` can return as the user part of an id of a known kind. -/
structure IsPart (p : Text) (lower : Text → Text := toLowerCase) : Prop where
  ne_nil : p ≠ []
  at_notMem : '@' ∉ p
  colon_notMem : ':' ∉ p
  fixed : ∀ t : Text, t.all isPlain = true → lower (p ++ t) = p ++ t
  head : ∀ c, p.head? = some c → isSpace c = false

/-- The first piece of a lower-cased, trimmed id, up to `@` and `:`. -/
theorem isPart_of_split (hl : CaseMap lower) (h : (lower (trim jid)).splitOn '@' = [address, d])
    (hne : (address.splitOn ':').headD [] ≠ []) :
    IsPart ((address.splitOn ':').headD []) lower := by
  cases hparts : address.splitOn ':' with
  | nil => exact absurd hparts (splitOn_ne_nil ':' address)
  | cons p ps =>
    rw [hparts] at hne
    have hpa : p <+: address := isPrefix_of_splitOn hparts
    have hpl : p <+: lower (trim jid) := hpa.trans (isPrefix_of_splitOn h)
    have hat : '@' ∉ address := notMem_of_mem_splitOn (h ▸ mem_cons_self ..)
    refine ⟨hne, ?_, ?_, ?_, ?_⟩
    · exact fun hmem => hat (hpa.subset hmem)
    · exact notMem_of_mem_splitOn (hparts ▸ mem_cons_self ..)
    · intro t ht
      refine hl.fixed (s := trim jid) fun c hc => ?_
      rcases mem_append.mp hc with hc | hc
      · exact .inl (hpl.subset hc)
      · exact .inr (all_eq_true.mp ht c hc)
    · intro c hc
      obtain ⟨rest, hrest⟩ := hpl
      refine hl.head (s := trim jid) (fun d => head_trim) c ?_
      rw [← hrest, head?_append, show p.head? = some c from hc]
      rfl

/-- A run of plain characters is a part. -/
theorem isPart_of_all (hl : CaseMap lower) (hne : p ≠ [])
    (h : ∀ c ∈ p, isPlain c = true ∧ isSpace c = false ∧ c ≠ '@' ∧ c ≠ ':') :
    IsPart p lower where
  ne_nil := hne
  at_notMem := fun hmem => (h _ hmem).2.2.1 rfl
  colon_notMem := fun hmem => (h _ hmem).2.2.2 rfl
  fixed := by
    intro t ht
    refine hl.fixed (s := []) fun c hc => .inr ?_
    rcases mem_append.mp hc with hc | hc
    · exact (h c hc).1
    · exact all_eq_true.mp ht c hc
  head := fun c hc => (h c (mem_of_mem_head? hc)).2.1

theorem isPart_of_digits (hl : CaseMap lower) (hne : p ≠ [])
    (h : ∀ c ∈ p, c.isDigit = true) : IsPart p lower := by
  refine isPart_of_all hl hne fun c hc => ?_
  exact of_ascii (p := fun c => isPlain c = true ∧ isSpace c = false ∧ c ≠ '@' ∧ c ≠ ':')
    toNat_lt_of_isDigit (by decide +kernel) (h c hc)

theorem isPart_of_numeric (hl : CaseMap lower) (h : isNumericId p = true) : IsPart p lower := by
  rw [isNumericId, Bool.and_eq_true, all_eq_true, decide_eq_true_eq] at h
  have hne : p ≠ [] := by
    intro hnil
    rw [hnil] at h
    exact absurd h.1 (by decide)
  exact isPart_of_digits hl hne h.2

/-- What can stand behind a part: a domain in lower case. -/
def isDomain (d : Text) : Bool := d.all isPlain && !d.contains '@' && d.getLast?.any (!isSpace ·)

/-- A part and a domain have no blank at either end. -/
theorem trim_form (hp : IsPart p lower) (hd : isDomain d = true) :
    trim (p ++ '@' :: d) = p ++ '@' :: d := by
  obtain ⟨c, rest, rfl⟩ := exists_cons_of_ne_nil hp.ne_nil
  apply trim_of_ends
  · intro e he
    exact hp.head e he
  · intro e he
    rw [isDomain, Bool.and_eq_true] at hd
    rw [getLast?_append, getLast?_cons] at he
    cases hlast : d.getLast? with
    | none => simp [hlast] at hd
    | some f =>
      rw [hlast] at he hd
      cases he
      simpa using hd.2

theorem pieces_of_status (h : "status@broadcast".toList.splitOn '@' = [address, d]) :
    address = "status".toList ∧ d = "broadcast".toList := by
  have hpieces : "status@broadcast".toList.splitOn '@' = ["status".toList, "broadcast".toList] := by
    decide
  cases h
  exact ⟨rfl, rfl⟩

/-- A part and a domain read back as they were written. -/
theorem parseWaId_form (hp : IsPart p lower) (hd : isDomain d = true)
    (hstatus : d ≠ "broadcast".toList ∨ p ≠ "status".toList) :
    parseWaId (p ++ '@' :: d) lower
      = { kind := (domainKinds.lookup d).getD .unknown, userPart := p } := by
  have htrim := trim_form hp hd
  simp only [isDomain, Bool.and_eq_true] at hd
  have hsplit : (p ++ '@' :: d).splitOn '@' = [p, d] := by
    rw [splitOn_append_cons_self_of_not_mem hp.at_notMem, splitOn_eq_singleton]
    simpa using hd.1.2
  have hlower : lower (p ++ '@' :: d) = p ++ '@' :: d :=
    hp.fixed _ (by rw [all_cons, hd.1.1]; decide)
  have hne : p ++ '@' :: d ≠ "status@broadcast".toList := by
    intro heq
    rw [heq] at hsplit
    obtain ⟨haddress, hdomain⟩ := pieces_of_status hsplit
    exact hstatus.elim (· hdomain) (· haddress)
  have hcolon : p.splitOn ':' = [p] := splitOn_eq_singleton hp.colon_notMem
  unfold parseWaId
  rw [htrim, hlower]
  simp only [if_neg hne, hsplit, hcolon, headD_cons, if_neg hp.ne_nil]
  rfl

-- ======== reading

/-- Of a known kind is what has a part. -/
theorem parseWaId_cases (hl : CaseMap lower) (jid : Text) :
    (parseWaId jid lower).kind = .unknown ∨ (IsPart (parseWaId jid lower).userPart lower
      ∧ ((parseWaId jid lower).kind = .status →
        (parseWaId jid lower).userPart = "status".toList)) := by
  simp only [parseWaId]
  split
  · refine .inr ⟨isPart_of_all hl (by decide) ?_, fun _ => rfl⟩
    have hall : "status".toList.all (fun c => isPlain c ∧ isSpace c = false ∧ c ≠ '@' ∧ c ≠ ':') :=
      by decide
    exact fun c hc => of_decide_eq_true (all_eq_true.mp hall c hc)
  · split
    · exact .inl rfl
    next address d hsplit =>
      split
      · exact .inl rfl
      next hne =>
        refine .inr ⟨isPart_of_split hl hsplit hne, fun hk => ?_⟩
        simp only [domainKinds, lookup_cons, lookup_nil] at hk
        repeat' split at hk
        all_goals cases hk
    · exact .inl rfl

variable {k : WaIdKind} {x y : Text} {resolve : Text → Option Text}

/-- A part with a neutral domain reads back; a list `status` is the status. -/
theorem parseWaId_neutral (hp : IsPart p lower) (hk : k ≠ .unknown)
    (hstatus : k = .status → p = "status".toList) :
    ∃ k', (k' = k ∨ k' = .status ∧ k = .broadcast)
      ∧ parseWaId (p ++ '@' :: k.domain) lower = { kind := k', userPart := p } := by
  have hd : isDomain k.domain = true := by cases k <;> decide
  by_cases hs : k.domain ≠ "broadcast".toList ∨ p ≠ "status".toList
  · refine ⟨k, .inl rfl, (parseWaId_form hp hd hs).trans ?_⟩
    cases k with
    | status => exact absurd (hstatus rfl) (hs.resolve_left (· rfl))
    | unknown => exact absurd rfl hk
    | _ => rfl
  · obtain ⟨hb, hs⟩ := not_or.mp hs
    rw [not_not] at hb hs
    refine ⟨.status, ?_, ?_⟩
    · cases k with
      | status => exact .inl rfl
      | broadcast => exact .inr ⟨rfl, rfl⟩
      | unknown => exact absurd rfl hk
      | _ => exact absurd hb (by decide)
    · have htrim := trim_form hp hd
      have hlower := hp.fixed ('@' :: k.domain) (by cases k <;> decide)
      rw [hb, hs] at htrim hlower ⊢
      simp only [parseWaId, htrim, hlower]
      rfl

/-- The neutral form of an id of a known kind. -/
theorem toNeutralJid_eq (hl : CaseMap lower) (hk : (parseWaId x lower).kind ≠ .unknown) :
    toNeutralJid x resolve lower
      = if (parseWaId x lower).kind = .lid ∧ (resolve x).getD [] ≠ []
        then (resolve x).getD [] ++ '@' :: WaIdKind.user.domain
        else (parseWaId x lower).userPart ++ '@' :: (parseWaId x lower).kind.domain := by
  have hne : x ≠ [] := by
    rintro rfl
    have hlower : lower (trim []) = [] := hl.fixed (s := []) fun _ hc => absurd hc not_mem_nil
    refine hk ?_
    simp only [parseWaId, hlower]
    rfl
  have hstatus := ((parseWaId_cases hl x).resolve_left hk).2
  simp only [toNeutralJid, if_neg hne]
  cases hkind : (parseWaId x lower).kind with
  | lid => rcases resolve x with - | - | ⟨c, rest⟩ <;> rfl
  | status => rw [hstatus hkind]; rfl
  | unknown => exact absurd hkind hk
  | user | group | newsletter | broadcast => rfl

/-- The neutral spelling of an id that is neutral already. -/
theorem toNeutralJid_neutral (hl : CaseMap lower) (hp : IsPart p lower) (hk : k ≠ .unknown)
    (hstatus : k = .status → p = "status".toList) :
    toNeutralJid (p ++ '@' :: k.domain) resolve lower
      = if k = .lid ∧ (resolve (p ++ '@' :: k.domain)).getD [] ≠ []
        then (resolve (p ++ '@' :: k.domain)).getD [] ++ '@' :: WaIdKind.user.domain
        else p ++ '@' :: k.domain := by
  obtain ⟨k', hk', hparse⟩ := parseWaId_neutral hp hk hstatus
  rcases hk' with rfl | ⟨rfl, rfl⟩
  · rw [toNeutralJid_eq hl (by rwa [hparse]), hparse]
  · rw [toNeutralJid_eq hl (by rw [hparse]; simp), hparse]
    rfl

/-- Normalising twice is normalising once, unless a lid without a phone has
one in its neutral spelling. -/
theorem toNeutralJid_idem_iff (hl : CaseMap lower)
    (hdigits : ∀ z d, resolve z = some d → ∀ c ∈ d, c.isDigit = true) :
    toNeutralJid (toNeutralJid x resolve lower) resolve lower = toNeutralJid x resolve lower
      ↔ ((parseWaId x lower).kind = .lid → (resolve x).getD [] = [] →
        (resolve ((parseWaId x lower).userPart ++ "@lid".toList)).getD [] = []) := by
  rw [show "@lid".toList = '@' :: WaIdKind.lid.domain from rfl]
  by_cases hk : (parseWaId x lower).kind = .unknown
  · have hx : toNeutralJid x resolve lower = x := by
      simp only [toNeutralJid, hk, ite_self]
    simp [hx, hk]
  obtain ⟨hp, hstatus⟩ := (parseWaId_cases hl x).resolve_left hk
  rw [toNeutralJid_eq hl hk]
  split
  next hphone =>
    refine iff_of_true ?_ fun _ hnone => absurd hnone hphone.2
    have hpart : IsPart ((resolve x).getD []) lower := by
      cases hr : resolve x with
      | none => exact absurd (by rw [hr]; rfl) hphone.2
      | some d => exact isPart_of_digits hl (by rw [hr] at hphone; exact hphone.2) (hdigits x d hr)
    rw [toNeutralJid_neutral hl hpart (by simp) (by simp), if_neg (by simp)]
  next hphone =>
    rw [toNeutralJid_neutral hl hp hk hstatus]
    split
    next hlater =>
      obtain ⟨hlid, hsome⟩ := hlater
      have hnone : (resolve x).getD [] = [] := not_not.mp fun h => hphone ⟨hlid, h⟩
      rw [hlid] at hsome ⊢
      refine iff_of_false (fun heq => ?_) fun himp => hsome (himp rfl hnone)
      have hdomain := (append_cons_inj_of_notMem (by decide) (by decide) heq).2
      exact absurd hdomain (by decide)
    next hnever =>
      refine iff_of_true rfl fun hlid _ => ?_
      rw [hlid] at hnever
      simpa using hnever

-- ======== participants

theorem parseWaId_trim (x : Text) : parseWaId (trim x) lower = parseWaId x lower := by
  unfold parseWaId
  rw [trim_trim]

theorem isIndividualWid_iff : isIndividualWid x lower = true
    ↔ ((parseWaId x lower).kind = .user ∨ (parseWaId x lower).kind = .lid)
      ∧ isNumericId (parseWaId x lower).userPart = true := by
  simp [isIndividualWid, parseWaId_trim]

/-- An individual is written in the neutral form, its lid unresolved. -/
theorem toParticipantWid_eq (hl : CaseMap lower) (h : isIndividualWid x lower = true) :
    toParticipantWid x lower
      = (parseWaId x lower).userPart ++ '@' :: (parseWaId x lower).kind.domain := by
  obtain ⟨hk, -⟩ := isIndividualWid_iff.mp h
  have hknown : (parseWaId x lower).kind ≠ .unknown := by
    rcases hk with hk | hk <;> simp [hk]
  have hnum : ¬ isNumericId (trim x) = true := by
    intro hnum
    have hp := isPart_of_numeric hl hnum
    have hlower := hp.fixed [] rfl
    rw [append_nil] at hlower
    have hne : trim x ≠ "status@broadcast".toList := fun heq => hp.at_notMem (heq ▸ by decide)
    refine hknown ?_
    simp only [parseWaId, hlower, if_neg hne, splitOn_eq_singleton hp.at_notMem]
  have hind : isIndividualWid (trim x) lower = true := by
    rwa [isIndividualWid_iff, parseWaId_trim, ← isIndividualWid_iff]
  simp only [toParticipantWid, if_neg hnum, if_pos hind]
  rw [toNeutralJid_eq hl (by rwa [parseWaId_trim]), parseWaId_trim]
  exact if_neg fun hphone => hphone.2 rfl

/-- A number with a domain is a participant as it is. -/
theorem toParticipantWid_neutral (hl : CaseMap lower) (hnum : isNumericId p = true)
    (hk : k = .user ∨ k = .lid) :
    toParticipantWid (p ++ '@' :: k.domain) lower = p ++ '@' :: k.domain := by
  have hparse : parseWaId (p ++ '@' :: k.domain) lower = { kind := k, userPart := p } := by
    refine (parseWaId_form (isPart_of_numeric hl hnum) ?_ (.inl ?_)).trans ?_
    all_goals rcases hk with rfl | rfl
    all_goals first | decide | rfl
  rw [toParticipantWid_eq hl (isIndividualWid_iff.mpr (by rw [hparse]; exact ⟨hk, hnum⟩)), hparse]

theorem toParticipantWid_idem (hl : CaseMap lower) (x : Text) :
    toParticipantWid (toParticipantWid x lower) lower = toParticipantWid x lower := by
  by_cases hind : isIndividualWid x lower = true
  · obtain ⟨hk, hnum⟩ := isIndividualWid_iff.mp hind
    rw [toParticipantWid_eq hl hind]
    exact toParticipantWid_neutral hl hnum hk
  by_cases hnum : isNumericId (trim x) = true
  · have hx : toParticipantWid x lower = trim x ++ '@' :: WaIdKind.user.domain := by
      simp only [toParticipantWid, if_pos hnum]
      rfl
    rw [hx]
    exact toParticipantWid_neutral hl hnum (.inl rfl)
  · have hind' : ¬ isIndividualWid (trim x) lower = true := by
      simpa [isIndividualWid, trim_trim] using hind
    simp only [toParticipantWid, if_neg hnum, if_neg hind', trim_trim]

-- ======== the result

/-- Normalising twice is normalising once, unless the resolver that knows no
phone for a lid knows one for its neutral spelling. Ids of one known kind and
user part have one neutral form, when the resolver tells no two lids of them
apart. `toParticipantWid` is idempotent, and on an individual it is
`toNeutralJid` without the resolver. -/
theorem neutral_spelling (hl : CaseMap lower)
    (hdigits : ∀ z d, resolve z = some d → ∀ c ∈ d, c.isDigit = true) :
    (∀ x, toNeutralJid (toNeutralJid x resolve lower) resolve lower = toNeutralJid x resolve lower
        ↔ ((parseWaId x lower).kind = .lid → (resolve x).getD [] = [] →
          (resolve ((parseWaId x lower).userPart ++ "@lid".toList)).getD [] = []))
    ∧ (∀ x y, (parseWaId x lower).kind ≠ .unknown →
        (parseWaId x lower).kind = (parseWaId y lower).kind →
        (parseWaId x lower).userPart = (parseWaId y lower).userPart →
        ((parseWaId x lower).kind = .lid → resolve x = resolve y) →
        toNeutralJid x resolve lower = toNeutralJid y resolve lower)
    ∧ (∀ x, toParticipantWid (toParticipantWid x lower) lower = toParticipantWid x lower)
    ∧ ∀ x, isIndividualWid x lower = true →
        ((parseWaId x lower).kind = .user ∨ (resolve x).getD [] = []) →
        toParticipantWid x lower = toNeutralJid x resolve lower := by
  refine ⟨fun x => toNeutralJid_idem_iff hl hdigits, fun x y hk hkind hpart hlid => ?_,
    toParticipantWid_idem hl, fun x hind hphone => ?_⟩
  · rw [toNeutralJid_eq hl hk, toNeutralJid_eq hl (hkind ▸ hk), ← hkind, ← hpart]
    by_cases h : (parseWaId x lower).kind = .lid
    · rw [hlid h]
    · rw [if_neg (h ·.1), if_neg (h ·.1)]
  · obtain ⟨hk, -⟩ := isIndividualWid_iff.mp hind
    rw [toParticipantWid_eq hl hind, toNeutralJid_eq hl (by rcases hk with hk | hk <;> simp [hk]),
      if_neg]
    rintro ⟨hlid, hsome⟩
    simp [hlid, hsome] at hphone

/-- A lid with a device, the phone of which is known in every spelling. -/
theorem neutral_spelling_hosted :
    toNeutralJid (toNeutralJid "71:2@HOSTED.lid".toList fun _ => some "62812".toList)
        (fun _ => some "62812".toList) = "62812@c.us".toList := by
  have hdigits : ∀ (_ : Text) d, some "62812".toList = some d → ∀ c ∈ d, c.isDigit = true := by
    rintro _ d ⟨⟩
    exact all_eq_true.mp (by decide)
  refine (((neutral_spelling caseMap_toLowerCase hdigits).1 _).mpr ?_).trans (by decide)
  intro _ h
  cases h

/-- A resolver asked by the letter answers for the neutral spelling of a lid
and not for another; an id of no known kind keeps its device; and a user of
three digits is no participant. -/
theorem spelling_kept :
    (∃ resolve : Text → Option Text, (∀ z d, resolve z = some d → ∀ c ∈ d, c.isDigit = true)
      ∧ toNeutralJid (toNeutralJid "71:2@lid".toList resolve) resolve
        ≠ toNeutralJid "71:2@lid".toList resolve)
    ∧ (parseWaId "7@x".toList).kind = (parseWaId "7:2@x".toList).kind
    ∧ (parseWaId "7@x".toList).userPart = (parseWaId "7:2@x".toList).userPart
    ∧ toNeutralJid "7@x".toList ≠ toNeutralJid "7:2@x".toList
    ∧ (parseWaId "628:2@c.us".toList).kind = .user
    ∧ toParticipantWid "628:2@c.us".toList ≠ toNeutralJid "628:2@c.us".toList := by
  refine ⟨⟨fun z => if z = "71@lid".toList then some "62812".toList else none, ?_, by decide⟩,
    by decide, by decide, by decide, by decide, by decide⟩
  intro z d hd
  dsimp only at hd
  split at hd
  · cases hd
    exact all_eq_true.mp (by decide)
  · cases hd

end OpenWA.Identity

/-
Which events reach the client, by the rooms alone.

# Two expansions, one relation

The guard of the REST surface expands the id it is asked about and looks for
its forms among the literal ids of the allowlist. The gateway puts the
client in a room per literal id, expands the id of the event and broadcasts
to the rooms of its forms. A form in both is a chat in both
(`literal_mem_idsForFilter`), so a delivery reaches the client exactly when
it subscribed to the event and the guard admits the chat
(`reaches_chatRooms`).
-/
import OpenWA.Events.Proofs.Names
import OpenWA.Security.Proofs.ChatScope

namespace OpenWA.Events

open Text Security List

-- ======== the chat

theorem at_mem_of_mem_forms {f : Text} {a : Chat} (h : f ∈ a.forms) : '@' ∈ f := by
  cases ends_iff.mp h <;> exact mem_append_right _ (by decide)

variable {id : Text} {e : Emission}

theorem qualify_of_at (hat : '@' ∈ id) : qualify id = id := by
  unfold qualify
  rw [if_neg]
  intro hnumeric
  unfold Identity.isNumericId at hnumeric
  rw [Bool.and_eq_true, all_eq_true] at hnumeric
  exact absurd (hnumeric.2 '@' hat) (by decide)

/-- The chat of a one-entry allowlist is the chat of its entry. -/
theorem listed_singleton (hat : '@' ∈ id) {a : Chat} :
    Listed (some [id]) a ↔ chatOf id = some a := by
  have htrim : chatOf (trim id) = chatOf id := by
    unfold chatOf Identity.parseWaId
    rw [trim_trim]
  have hmem : '@' ∈ trim id := mem_trim hat (by decide)
  constructor
  · intro ⟨e, he, ha⟩
    obtain ⟨x, hx, -, rfl⟩ := mem_entriesOf.mp he
    rw [mem_singleton.mp hx, qualify_of_at hmem, htrim] at ha
    exact ha
  · intro ha
    refine ⟨trim id, mem_entriesOf.mpr ⟨id, mem_singleton.mpr rfl, ?_, ?_⟩, ?_⟩
    · exact ne_nil_of_mem hmem
    · rw [qualify_of_at hmem]
    · rw [htrim]
      exact ha

variable {S : Setting}

/-- The literals of a key are the spellings of its chats. -/
theorem mem_literals {f : Text} :
    f ∈ literals S.key ↔ ∃ a, Listed S.key.allowedChats a ∧ f ∈ a.forms := by
  unfold literals buildChatScope
  rw [if_pos S.restricted]
  exact mem_flatMap_addressForms

/-- Some form of the chat is a literal id of the allowlist exactly when the
guard admits the chat. -/
theorem literal_mem_idsForFilter (hat : '@' ∈ id) :
    (∃ f ∈ literals S.key, f ∈ idsForFilter S.table id)
      ↔ chatIdAllowed (buildChatScope S.key.allowedChats) id (some S.table.directory) = true := by
  obtain ⟨ids, hids, hmem⟩ := mem_expanded (t := S.table) (restricted_iff.mpr (cons_ne_nil id []))
  have hfilter : idsForFilter S.table id = ids := by
    unfold idsForFilter
    rw [hids]
    rfl
  rw [hfilter, chatIdAllowed_iff hat S.restricted]
  constructor
  · intro ⟨f, hlit, hf⟩
    obtain ⟨a, ha, hfa⟩ := mem_literals.mp hlit
    obtain ⟨b, hb, hcase⟩ := (hmem f).mp hf
    refine ⟨b, (listed_singleton hat).mp hb, a, ha, ?_⟩
    rcases hcase with hfb | ⟨b', hpairs, hfb', -⟩
    · exact .inl (eq_of_mem_forms hfa hfb)
    · rw [eq_of_mem_forms hfa hfb']
      exact .inr hpairs.symm
  · intro ⟨b, hb, a, ha, hsame⟩
    obtain ⟨f, hf⟩ := exists_form a
    refine ⟨f, mem_literals.mpr ⟨a, ha, hf⟩, (hmem f).mpr ⟨b, (listed_singleton hat).mpr hb, ?_⟩⟩
    rcases hsame with rfl | hpairs
    · exact .inl hf
    · exact .inr ⟨a, hpairs.symm, hf, fun _ => (isPart_of_listed ha).ne_nil⟩

-- ======== the rooms

/-- The client subscribed to an event: by its name or by the wildcard, for
its session or for all of them. -/
def Setting.Subscribed (S : Setting) (e : Emission) : Prop :=
  ∃ s event, (s, event) ∈ S.granted ∧ (s = e.sessionId ∨ s = star)
    ∧ (event = e.event ∨ (event = star ∧ e.event ∉ wildcardExcludedEvents))

/-- The rooms of a broadcast, by their session and their event. -/
theorem mem_chatRooms {ids : List Text} {room : Text} :
    room ∈ chatRooms e ids ↔ ∃ id ∈ ids, ∃ s event, room = chatRoom s event id
      ∧ (s = e.sessionId ∨ s = star)
      ∧ (event = e.event ∨ (event = star ∧ e.event ∉ wildcardExcludedEvents)) := by
  unfold chatRooms
  rw [mem_flatMap]
  refine exists_congr fun id => and_congr_right fun _ => ?_
  by_cases hexcluded : e.event ∈ wildcardExcludedEvents
  · rw [if_pos (contains_iff_mem.mpr hexcluded)]
    simp only [mem_cons, not_mem_nil, or_false]
    constructor
    · rintro (rfl | rfl)
      · exact ⟨_, _, rfl, .inl rfl, .inl rfl⟩
      · exact ⟨_, _, rfl, .inr rfl, .inl rfl⟩
    · rintro ⟨s, event, rfl, hs, rfl | ⟨-, hnot⟩⟩
      · rcases hs with rfl | rfl
        · exact .inl rfl
        · exact .inr rfl
      · exact absurd hexcluded hnot
  · rw [if_neg (fun h => hexcluded (contains_iff_mem.mp h))]
    simp only [cons_append, nil_append, mem_cons, not_mem_nil, or_false]
    constructor
    · rintro (rfl | rfl | rfl | rfl)
      · exact ⟨_, _, rfl, .inl rfl, .inl rfl⟩
      · exact ⟨_, _, rfl, .inr rfl, .inl rfl⟩
      · exact ⟨_, _, rfl, .inl rfl, .inr ⟨rfl, hexcluded⟩⟩
      · exact ⟨_, _, rfl, .inr rfl, .inr ⟨rfl, hexcluded⟩⟩
    · rintro ⟨s, event, rfl, rfl | rfl, rfl | ⟨rfl, -⟩⟩
      · exact .inl rfl
      · exact .inr (.inr (.inl rfl))
      · exact .inr (.inl rfl)
      · exact .inr (.inr (.inr rfl))

theorem reaches_iff {rooms held : List Text} :
    reaches rooms none held = true ↔ ∃ room ∈ rooms, room ∈ held := by
  unfold reaches
  simp [any_eq_true]

/-- The second broadcast reaches the client exactly when it subscribed and
the guard admits the chat. -/
theorem reaches_chatRooms (he : e.event ∈ chatEvents) (hat : '@' ∈ id) :
    reaches (chatRooms e (idsForFilter S.table id)) none S.rooms = true
      ↔ S.Subscribed e ∧ chatIdAllowed (buildChatScope S.key.allowedChats) id
          (some S.table.directory) = true := by
  rw [reaches_iff, ← literal_mem_idsForFilter hat]
  constructor
  · intro ⟨room, hroom, hheld⟩
    obtain ⟨f, hf, s, event, rfl, hs, hevent⟩ := mem_chatRooms.mp hroom
    obtain ⟨g, hg, c, hc, hsame⟩ := (S.holds.rooms (isSubscription_chatRoom s event f)).mp hheld
    have hname : IsEventName event := by
      rcases hevent with rfl | ⟨rfl, -⟩
      · exact .inr he
      · exact .inl rfl
    obtain ⟨rfl, rfl, rfl⟩ := chatRoom_inj hname.colon_notMem
      (S.holds.named g hg).2.colon_notMem hsame
    exact ⟨⟨g.1, g.2, hg, hs, hevent⟩, f, hc, hf⟩
  · intro ⟨⟨s, event, hg, hs, hevent⟩, f, hlit, hf⟩
    refine ⟨chatRoom s event f, mem_chatRooms.mpr ⟨f, hf, s, event, rfl, hs, hevent⟩, ?_⟩
    exact (S.holds.rooms (isSubscription_chatRoom s event f)).mpr ⟨(s, event), hg, f, hlit, rfl⟩

/-- The first broadcast never reaches the client. -/
theorem reaches_plainRooms (he : '%' ∉ e.event) (exceptRoom : Option Text) :
    reaches (plainRooms e) exceptRoom S.rooms = false := by
  have hnamed : ∀ s event, '%' ∉ event → buildRoomName s event ∉ S.rooms := by
    intro s event hevent hheld
    obtain ⟨g, -, c, hc, hsame⟩ := (S.holds.rooms (isSubscription_buildRoomName s event)).mp hheld
    obtain ⟨a, -, hform⟩ := mem_literals.mp hc
    exact hevent (percent_mem_of_chatRoom (at_mem_of_mem_forms hform) hsame)
  have hstar : '%' ∉ star := by decide
  have hnone : ∀ room ∈ plainRooms e, room ∉ S.rooms := by
    intro room hroom
    unfold plainRooms at hroom
    split at hroom <;>
      simp only [cons_append, nil_append, mem_cons, not_mem_nil, or_false] at hroom
    · rcases hroom with rfl | rfl
      · exact hnamed _ _ he
      · exact hnamed _ _ he
    · rcases hroom with rfl | rfl | rfl | rfl
      · exact hnamed _ _ he
      · exact hnamed _ _ he
      · exact hnamed _ _ hstar
      · exact hnamed _ _ hstar
  unfold reaches
  rw [Bool.and_eq_false_iff]
  refine .inl (any_eq_false.mpr ?_)
  intro room hroom
  rw [contains_iff_mem]
  exact hnone room hroom

end OpenWA.Events

/-
The rooms a client with an allowlist holds, and what their names say.

# Names can be read back

The id behind `:chat:` is percent-encoded, so it holds no colon, and the
names of the chat events hold none either: a chat room tells its session,
its event and its chat (`chatRoom_inj`), whatever the session id. The first
broadcast of an event goes to rooms that end in the event's name. Those are
chat rooms only if the name itself holds an encoded id, which takes a `%`
(`plainRooms_notMem`).
-/
import OpenWA.Events.Gateway
import OpenWA.Events.Subscriptions

namespace OpenWA.Events

open Text Security List

-- ======== the names

theorem colon_notMem_encodeURIComponent (s : Text) : ':' ∉ encodeURIComponent s := by
  intro h
  rcases mem_encodeURIComponent h with hself | hpercent
  · exact absurd hself (by decide)
  · exact absurd hpercent (by decide)

/-- What may stand for the event in a room: no colon. -/
def IsEventName (event : Text) : Prop := event = star ∨ event ∈ chatEvents

theorem IsEventName.colon_notMem {event : Text} (h : IsEventName event) : ':' ∉ event := by
  rcases h with rfl | h
  · decide
  · have hall : ∀ e ∈ chatEvents, ':' ∉ e := by decide
    exact hall event h

variable {s s' e c : Text} {events : List Text} {e' room r : Text} {rooms : List Text}

/-- A room tells its session, event and chat. -/
theorem chatRoom_inj {c' : Text} (he : ':' ∉ e) (he' : ':' ∉ e')
    (h : chatRoom s e c = chatRoom s' e' c') : s = s' ∧ e = e' ∧ c = c' := by
  have hsplit : ∀ t f d : Text, chatRoom t f d
      = ((("session:".toList ++ t) ++ ':' :: f) ++ ":chat".toList)
        ++ ':' :: encodeURIComponent d := by
    intro t f d
    unfold chatRoom buildRoomName
    simp only [append_assoc]
    rfl
  rw [hsplit, hsplit] at h
  obtain ⟨hfront, hcode⟩ := append_cons_inj_of_notMem (colon_notMem_encodeURIComponent c)
    (colon_notMem_encodeURIComponent c') h
  obtain ⟨hsession, hevent⟩ := append_cons_inj_of_notMem he he' (append_cancel_right hfront)
  exact ⟨append_cancel_left hsession, hevent, encodeURIComponent_inj hcode⟩

/-- A chat room is the room of an event only under a name with a `%`. -/
theorem percent_mem_of_chatRoom (hc : '@' ∈ c) (h : buildRoomName s e = chatRoom s' e' c) :
    '%' ∈ e := by
  have hsuffix : encodeURIComponent c <:+ e := by
    refine suffix_of_append_cons_eq (colon_notMem_encodeURIComponent c) (c := ':')
      (a := "session:".toList ++ s) (b := buildRoomName s' e' ++ ":chat".toList) ?_
    unfold chatRoom at h
    unfold buildRoomName at h ⊢
    rw [h]
    simp only [append_assoc]
    rfl
  exact hsuffix.subset (percent_mem_encodeURIComponent hc (by decide))

theorem isSubscription_chatRoom (s e c : Text) : isSubscription (chatRoom s e c) = true := by
  unfold isSubscription chatRoom buildRoomName
  rw [List.isPrefixOf_iff_prefix]
  exact prefix_append _ _

theorem isSubscription_buildRoomName (s e : Text) : isSubscription (buildRoomName s e) = true := by
  unfold isSubscription buildRoomName
  rw [List.isPrefixOf_iff_prefix, append_assoc]
  exact prefix_append _ _

theorem colon_notMem_of_isSessionSelector (h : isSessionSelector s = true) : ':' ∉ s := by
  unfold isSessionSelector at h
  rw [Bool.or_eq_true, decide_eq_true_eq, Bool.and_eq_true] at h
  rcases h with rfl | ⟨-, hsafe⟩
  · decide
  · unfold isSafeSessionName at hsafe
    rw [Bool.and_eq_true, all_eq_true] at hsafe
    intro hmem
    exact absurd (hsafe.2 ':' hmem) (by decide)

theorem prefix_buildRoomName (s e : Text) : sessionPrefix s <+: buildRoomName s e :=
  ⟨e, append_assoc _ _ _⟩

theorem prefix_chatRoom (s e c : Text) : sessionPrefix s <+: chatRoom s e c := by
  unfold chatRoom
  rw [append_assoc]
  exact (prefix_buildRoomName s e).trans (prefix_append _ _)

/-- A room names its session. -/
theorem eq_of_sessionPrefix (hs : isSessionSelector s = true) (hs' : isSessionSelector s' = true)
    (h : sessionPrefix s <+: room) (h' : sessionPrefix s' <+: room) : s = s' := by
  obtain ⟨rest, rfl⟩ := h
  obtain ⟨rest', h'⟩ := h'
  unfold sessionPrefix at h'
  simp only [append_assoc, append_cancel_left_eq] at h'
  exact (append_cons_inj (colon_notMem_of_isSessionSelector hs')
    (colon_notMem_of_isSessionSelector hs) h').1.symm

/-- The rooms an unsubscribe leaves are those of its session. -/
theorem covers_chatRoom (hs : isSessionSelector s = true) (hs' : isSessionSelector s' = true) :
    covers s (chatRoom s' e c) = (decide (s' = s) || decide (s = star)) := by
  have hprefix : (sessionPrefix s).isPrefixOf (chatRoom s' e c) = decide (s' = s) := by
    rw [Bool.eq_iff_iff, List.isPrefixOf_iff_prefix, decide_eq_true_eq]
    constructor
    · exact eq_of_sessionPrefix hs' hs (prefix_chatRoom s' e c)
    · rintro rfl
      exact prefix_chatRoom s' e c
  rw [covers, hprefix, isSubscription_chatRoom, Bool.and_true]

theorem handleUnsubscribe_of_isSessionSelector (held : List Text)
    (h : isSessionSelector s = true) :
    handleUnsubscribe held s = (.unsubscribed s, held.filter fun room => !covers s room) := by
  have hempty : s ≠ [] := by
    rintro rfl
    exact absurd h (by decide)
  unfold handleUnsubscribe
  rw [if_neg hempty, if_neg (by simp [h])]
  rfl

theorem handleUnsubscribe_error (held : List Text) (h : ¬isSessionSelector s = true) :
    ∃ code message, handleUnsubscribe held s = (.error code message, held) := by
  unfold handleUnsubscribe
  split
  · exact ⟨_, _, rfl⟩
  · rw [if_pos (by simp [h])]
    exact ⟨_, _, rfl⟩

-- ======== the held rooms

/-- The literal ids of the key's allowlist. -/
def literals (key : ApiKey) : List Text := (buildChatScope key.allowedChats).getD []

/-- The subscription rooms a client holds are those of what it was granted. -/
structure Holds (key : ApiKey) (held : List Text) (granted : List (Text × Text)) : Prop where
  rooms : ∀ {room}, isSubscription room = true →
    (room ∈ held ↔ ∃ g ∈ granted, ∃ c ∈ literals key, room = chatRoom g.1 g.2 c)
  named : ∀ g ∈ granted, isSessionSelector g.1 = true ∧ IsEventName g.2

variable {key : ApiKey} {held : List Text} {granted : List (Text × Text)}

theorem mem_join : r ∈ join rooms room ↔ r ∈ rooms ∨ r = room := by
  unfold join
  split
  next hmem =>
    constructor
    · exact .inl
    · rintro (h | rfl)
      · exact h
      · exact contains_iff_mem.mp hmem
  next => rw [mem_append, mem_singleton]

theorem mem_foldl_join : r ∈ rooms.foldl join held ↔ r ∈ held ∨ r ∈ rooms := by
  induction rooms generalizing held with
  | nil => simp
  | cons room rooms ih => rw [foldl_cons, ih, mem_join, mem_cons, or_assoc]

/-- The room of the QR fence is not a subscription. -/
theorem filter_syncQrAccess (held : List Text) (role : Auth.ApiKeyRole) :
    (syncQrAccess held role).filter isSubscription = held.filter isSubscription := by
  have hqr : isSubscription qrDeniedRoom = false := by decide
  unfold syncQrAccess
  split
  · unfold leave
    rw [filter_filter]
    refine filter_congr fun room _ => ?_
    by_cases h : room = qrDeniedRoom
    · rw [h, hqr, Bool.false_and]
    · simp [h]
  · unfold join
    split
    · rfl
    · simp [hqr]

theorem Holds.syncQrAccess (h : Holds key held granted) :
    Holds key (syncQrAccess held key.role) granted := by
  refine ⟨?_, h.named⟩
  intro room hroom
  have hiff : room ∈ (Events.syncQrAccess held key.role).filter isSubscription
      ↔ room ∈ held.filter isSubscription := by rw [filter_syncQrAccess]
  simpa [mem_filter, hroom, ← h.rooms hroom] using hiff

theorem mem_permittedEvents (hres : isChatScopeRestricted key.allowedChats = true)
    (h : e ∈ permittedEvents key events) : IsEventName e := by
  unfold permittedEvents at h
  rw [if_pos hres, mem_filter, Bool.or_eq_true, decide_eq_true_eq, contains_iff_mem] at h
  exact h.2

theorem mem_roomsOf (hres : isChatScopeRestricted key.allowedChats = true) {sessionId : Text} :
    room ∈ roomsOf key sessionId events
      ↔ ∃ e ∈ events, ∃ c ∈ literals key, room = chatRoom sessionId e c := by
  obtain ⟨allowed, hallowed⟩ : ∃ allowed, buildChatScope key.allowedChats = some allowed := by
    unfold buildChatScope
    rw [if_pos hres]
    exact ⟨_, rfl⟩
  have hlit : literals key = allowed := by
    unfold literals
    rw [hallowed]
    rfl
  unfold roomsOf subscriberChats
  rw [hallowed, hlit]
  simp only [Option.map_some, mem_flatMap, mem_map, mem_eraseDups, eq_comm (a := room)]

theorem tooManyChats_error {refusal : Reply} (h : tooManyChats key events = some refusal) :
    ∃ code message, refusal = .error code message := by
  unfold tooManyChats at h
  split at h
  next => cases h
  next =>
    split at h
    · exact ⟨_, _, (Option.some.inj h).symm⟩
    · cases h

/-- A subscribe is refused, or it joins the rooms of the events it grants. -/
theorem handleSubscribe_cases (key : ApiKey) (held : List Text) (sessionId : Text)
    (events : List Text) (cancelled : Bool) :
    (∃ code message, (handleSubscribe key held sessionId events cancelled).1 = .error code message
      ∧ ((handleSubscribe key held sessionId events cancelled).2 = held
        ∨ (handleSubscribe key held sessionId events cancelled).2
          = Events.syncQrAccess held key.role))
    ∨ (isSessionSelector sessionId = true ∧ cancelled = false
      ∧ ((Events.syncQrAccess held key.role).filter isSubscription).length
        + ((roomsOf key sessionId (permittedEvents key events)).filter fun room =>
            !(Events.syncQrAccess held key.role).contains room).length ≤ maxRoomsPerSocket
      ∧ handleSubscribe key held sessionId events cancelled
        = (.subscribed sessionId (permittedEvents key events),
          (roomsOf key sessionId (permittedEvents key events)).foldl join
            (Events.syncQrAccess held key.role))) := by
  unfold handleSubscribe
  by_cases hempty : sessionId = []
  · rw [if_pos hempty]
    exact .inl ⟨_, _, rfl, .inl rfl⟩
  · rw [if_neg hempty]
    by_cases hselector : isSessionSelector sessionId = true
    · rw [if_neg (by simp [hselector])]
      dsimp only
      -- each refusal from here on leaves the rooms the role was checked with
      repeat'
        split
        try exact .inl ⟨_, _, rfl, .inr rfl⟩
      next refusal hrefusal =>
        obtain ⟨code, message, rfl⟩ := tooManyChats_error hrefusal
        exact .inl ⟨_, _, rfl, .inr rfl⟩
      next hlimit hcancelled =>
        exact .inr ⟨hselector, Bool.eq_false_iff.mpr hcancelled, Nat.le_of_not_gt hlimit, rfl⟩
    · rw [if_pos (by simp [hselector])]
      exact .inl ⟨_, _, rfl, .inl rfl⟩

/-- A subscribe grants what its rooms say. -/
theorem Holds.handleSubscribe (hres : isChatScopeRestricted key.allowedChats = true)
    (h : Holds key held granted) (sessionId : Text) (events : List Text) (cancelled : Bool) :
    Holds key (handleSubscribe key held sessionId events cancelled).2
      (grant granted (handleSubscribe key held sessionId events cancelled).1) := by
  rcases handleSubscribe_cases key held sessionId events cancelled with
    ⟨code, message, hreply, hheld⟩ | ⟨hselector, -, -, hresult⟩
  · rw [hreply]
    rcases hheld with hheld | hheld
    · rw [hheld]
      exact h
    · rw [hheld]
      exact h.syncQrAccess
  · rw [hresult]
    refine ⟨?_, ?_⟩
    · intro room hroom
      rw [mem_foldl_join, h.syncQrAccess.rooms hroom, mem_roomsOf hres]
      constructor
      · rintro (⟨g, hg, c, hc, rfl⟩ | ⟨e, he, c, hc, rfl⟩)
        · exact ⟨g, mem_append_left _ hg, c, hc, rfl⟩
        · exact ⟨(sessionId, e), mem_append_right _ (mem_map_of_mem he), c, hc, rfl⟩
      · rintro ⟨g, hg, c, hc, rfl⟩
        rcases mem_append.mp hg with hg | hg
        · exact .inl ⟨g, hg, c, hc, rfl⟩
        · obtain ⟨e, he, rfl⟩ := mem_map.mp hg
          exact .inr ⟨e, he, c, hc, rfl⟩
    · intro g hg
      rcases mem_append.mp hg with hg | hg
      · exact h.named g hg
      · obtain ⟨e, he, rfl⟩ := mem_map.mp hg
        exact ⟨hselector, mem_permittedEvents hres he⟩

theorem Holds.handleUnsubscribe (h : Holds key held granted) (sessionId : Text) :
    Holds key (handleUnsubscribe held sessionId).2
      (grant granted (handleUnsubscribe held sessionId).1) := by
  by_cases hselector : isSessionSelector sessionId = true
  · rw [handleUnsubscribe_of_isSessionSelector held hselector]
    have hkeep (g : Text × Text) (hg : g ∈ granted) (c : Text) :
        covers sessionId (chatRoom g.1 g.2 c)
          = (decide (g.1 = sessionId) || decide (sessionId = star)) :=
      covers_chatRoom hselector (h.named g hg).1
    refine ⟨?_, ?_⟩
    · intro room hroom
      dsimp only [grant]
      rw [mem_filter, h.rooms hroom]
      constructor
      · rintro ⟨⟨g, hg, c, hc, rfl⟩, hleft⟩
        rw [hkeep g hg] at hleft
        exact ⟨g, mem_filter.mpr ⟨hg, hleft⟩, c, hc, rfl⟩
      · rintro ⟨g, hg, c, hc, rfl⟩
        obtain ⟨hg, hleft⟩ := mem_filter.mp hg
        rw [hkeep g hg]
        exact ⟨⟨g, hg, c, hc, rfl⟩, hleft⟩
    · intro g hg
      exact h.named g (mem_filter.mp hg).1
  · obtain ⟨code, message, hresult⟩ := handleUnsubscribe_error held hselector
    rw [hresult]
    exact h

theorem Holds.handleFrame (hres : isChatScopeRestricted key.allowedChats = true)
    (h : Holds key held granted) (frame : Frame) :
    Holds key (handleFrame key held frame).2 (grant granted (handleFrame key held frame).1) := by
  cases frame with
  | subscribe sessionId events cancelled => exact h.handleSubscribe hres sessionId events cancelled
  | unsubscribe sessionId => exact h.handleUnsubscribe sessionId

/-- The rooms held are those granted, frame after frame. -/
theorem Holds.heldAfter (hres : isChatScopeRestricted key.allowedChats = true)
    (frames : List Frame) (h : Holds key held granted) :
    Holds key (heldAfter key held frames) (grantedAfter key held granted frames) := by
  induction frames generalizing held granted with
  | nil => exact h
  | cons frame frames ih => exact ih (h.handleFrame hres frame)

/-- The rooms of the client, and what it was told. -/
theorem Setting.holds (S : Setting) : Holds S.key S.rooms S.granted := by
  refine Holds.heldAfter S.restricted S.frames ⟨?_, by simp⟩
  intro room hroom
  rw [mem_singleton]
  constructor
  · rintro rfl
    rw [S.ownRoom] at hroom
    cases hroom
  · rintro ⟨g, hg, -⟩
    cases hg

end OpenWA.Events

/-
An answered unsubscribe is final, and the limit of rooms always holds.

The frames of a client stand in the order they were taken up, so "handled
after" is an order of positions. A room that an answered unsubscribe covers
comes from a later subscribe: an earlier one was joined before and left, or
was still waiting and is marked (`Final.cancelled`).
-/
import OpenWA.Events.Proofs.Names

namespace OpenWA.Events

open Text List

variable {w w' : Socket} {s s' room : Text} {snapshot : ApiKey} {events : List Text} {f : Handling}

theorem sessionPrefix_prefix_of_mem_roomsOf {key : ApiKey} (h : room ∈ roomsOf key s events) :
    sessionPrefix s <+: room := by
  obtain ⟨e, -, h⟩ := mem_flatMap.mp h
  split at h
  · obtain ⟨c, -, rfl⟩ := mem_map.mp h
    exact prefix_chatRoom s e c
  · rw [mem_singleton.mp h]
    exact prefix_buildRoomName s e

theorem isSubscription_of_covers (h : covers s room = true) : isSubscription room = true := by
  rcases Bool.or_eq_true_iff.mp h with h | h
  · unfold isSubscription
    rw [List.isPrefixOf_iff_prefix] at h ⊢
    unfold sessionPrefix at h
    exact (prefix_append _ _).trans h
  · exact (Bool.and_eq_true_iff.mp h).2

/-- Only a new subscription costs one. -/
theorem length_filter_foldl_join {held acc rooms : List Text} (hheld : held ⊆ acc) :
    ((rooms.foldl join acc).filter isSubscription).length
      ≤ (acc.filter isSubscription).length
        + (rooms.filter fun room => !held.contains room).length := by
  induction rooms generalizing acc with
  | nil => simp
  | cons room rooms ih =>
    refine (ih fun r hr => mem_join.mpr (.inl (hheld hr))).trans ?_
    by_cases hmem : room ∈ acc
    · have hjoin : join acc room = acc := if_pos (contains_iff_mem.mpr hmem)
      rw [hjoin, filter_cons]
      split <;> simp
    · have hjoin : join acc room = acc ++ [room] := if_neg (by simpa using hmem)
      have hnew : (!held.contains room) = true := by simpa using fun h => hmem (hheld h)
      have hcons := filter_cons_of_pos (p := fun r => !held.contains r) (l := rooms) hnew
      have hone : ([room].filter isSubscription).length ≤ 1 := length_filter_le _ _
      rw [hjoin, filter_append, length_append, hcons, length_cons]
      omega

theorem cancel_eq_answered {reply : Reply} :
    f.cancel s = .answered reply ↔ f = .answered reply := by
  cases f <;> simp [Handling.cancel]

variable {sessionId : Text} {cancelled : Bool}

theorem of_cancel_eq_waiting (h : f.cancel s = .waiting sessionId events cancelled) :
    ∃ marked, f = .waiting sessionId events marked
      ∧ (marked = true ∨ s = star ∨ sessionId = s → cancelled = true) := by
  cases f with
  | waiting sessionId' events' marked =>
    obtain ⟨rfl, rfl, rfl⟩ := h
    exact ⟨marked, rfl, by simp [or_assoc]⟩
  | answered reply => cases h

/-- The rooms of the socket that are subscriptions. -/
def Socket.subscriptions (w : Socket) : List Text := w.rooms.filter isSubscription

/-- A subscribe is answered with an error and joins nothing, or it was not
cancelled and joins rooms of its session within the limit. -/
theorem judge_cases (snapshot : ApiKey) (w : Socket) (sessionId : Text) (events : List Text)
    (cancelled : Bool) (check : KeyCheck) :
    ∃ reply t, w.judge snapshot sessionId events cancelled check = (reply, t)
    ∧ (((∃ code message, reply = .error code message) ∧ t.subscriptions.Sublist w.subscriptions)
      ∨ (isSessionSelector sessionId = true ∧ cancelled = false
        ∧ (∃ granted, reply = .subscribed sessionId granted)
        ∧ t.subscriptions.length ≤ maxRoomsPerSocket
        ∧ ∀ room ∈ t.subscriptions, room ∈ w.subscriptions
          ∨ sessionPrefix sessionId <+: room)) := by
  cases check with
  | unreadable => exact ⟨_, _, rfl, .inl ⟨⟨_, _, rfl⟩, List.Sublist.refl _⟩⟩
  | refused => exact ⟨_, _, rfl, .inl ⟨⟨_, _, rfl⟩, nil_sublist _⟩⟩
  | valid key changed =>
    unfold Socket.judge
    dsimp only
    split
    · exact ⟨_, _, rfl, .inl ⟨⟨_, _, rfl⟩, List.Sublist.refl _⟩⟩
    split
    · exact ⟨_, _, rfl, .inl ⟨⟨_, _, rfl⟩, nil_sublist _⟩⟩
    refine ⟨_, _, rfl, ?_⟩
    unfold Socket.subscriptions
    rw [← filter_syncQrAccess w.rooms key.role]
    rcases handleSubscribe_cases key w.rooms sessionId events cancelled with
      ⟨code, message, hreply, hheld⟩ | ⟨hselector, hcancelled, hlimit, hresult⟩
    · refine .inl ⟨⟨code, message, hreply⟩, ?_⟩
      rcases hheld with hheld | hheld
      · rw [hheld, filter_syncQrAccess]
      · rw [hheld]
    · rw [hresult]
      refine .inr ⟨hselector, hcancelled, ⟨_, rfl⟩,
        (length_filter_foldl_join (List.Subset.refl _)).trans hlimit, ?_⟩
      intro room hroom
      obtain ⟨hroom, hsub⟩ := mem_filter.mp hroom
      rcases mem_foldl_join.mp hroom with hold | hnew
      · exact .inl (mem_filter.mpr ⟨hold, hsub⟩)
      · exact .inr (sessionPrefix_prefix_of_mem_roomsOf hnew)

-- ======== the invariant

/-- An acknowledged unsubscribe stands until a later subscribe. -/
structure Final (w : Socket) : Prop where
  limit : w.subscriptions.length ≤ maxRoomsPerSocket
  selector : ∀ {n s}, w.told n (.unsubscribed s) → isSessionSelector s = true
  later : ∀ {n s room}, w.told n (.unsubscribed s) → room ∈ w.subscriptions →
    covers s room = true → ∃ m sessionId events, n < m
      ∧ w.told m (.subscribed sessionId events) ∧ sessionPrefix sessionId <+: room
  cancelled : ∀ {k n s sessionId events cancelled}, w.told n (.unsubscribed s) →
    w.waits k sessionId events cancelled → k < n → s = star ∨ sessionId = s →
    cancelled = true

/-- A turn that answers no unsubscribe and cancels nothing. -/
theorem Final.mono (h : Final w) (hlimit : w'.subscriptions.length ≤ maxRoomsPerSocket)
    (hunsub : ∀ {n s}, w'.told n (.unsubscribed s) → w.told n (.unsubscribed s))
    (hsub : ∀ {m sessionId events},
      w.told m (.subscribed sessionId events) → w'.told m (.subscribed sessionId events))
    (hwait : ∀ {k sessionId events cancelled}, w'.waits k sessionId events cancelled →
      w.waits k sessionId events cancelled ∨ w.frames.length ≤ k)
    (hrooms : ∀ {n s room}, w.told n (.unsubscribed s) → room ∈ w'.subscriptions →
      covers s room = true → room ∈ w.subscriptions
        ∨ ∃ m sessionId events, n < m ∧ w'.told m (.subscribed sessionId events)
          ∧ sessionPrefix sessionId <+: room) : Final w' where
  limit := hlimit
  selector hn := h.selector (hunsub hn)
  later hn hroom hcovers := by
    rcases hrooms (hunsub hn) hroom hcovers with hroom | hlater
    · obtain ⟨m, sessionId, events, hlt, hm, hroom⟩ := h.later (hunsub hn) hroom hcovers
      exact ⟨m, sessionId, events, hlt, hsub hm, hroom⟩
    · exact hlater
  cancelled hn hk hlt := by
    have hlen := (List.getElem?_eq_some_iff.mp (hunsub hn)).1
    rcases hwait hk with hk | hk
    · exact h.cancelled (hunsub hn) hk hlt
    · omega

/-- A frame that is refused as it is taken up, or begins to wait. -/
theorem Final.append (h : Final w)
    (hf : ∀ reply, f = .answered reply → ∃ code message, reply = .error code message) :
    Final { w with frames := w.frames ++ [f] } :=
  h.mono h.limit (by grind) (by grind) (by grind) fun _ hroom _ => .inl hroom

theorem Final.keyRead (h : Final w) {k : Nat} (hk : w.waits k sessionId events cancelled)
    (check : KeyCheck) :
    Final { (w.judge snapshot sessionId events cancelled check).2 with
      frames := w.frames.set k
        (.answered (w.judge snapshot sessionId events cancelled check).1) } := by
  obtain ⟨reply, t, hjudge, hcases⟩ := judge_cases snapshot w sessionId events cancelled check
  rw [hjudge]
  rcases hcases with ⟨⟨code, message, rfl⟩, hrooms⟩
    | ⟨hselector, rfl, ⟨granted, rfl⟩, hlimit, hrooms⟩
  · exact h.mono (hrooms.length_le.trans h.limit) (by grind) (by grind) (by grind)
      fun _ hroom _ => .inl (hrooms.subset hroom)
  · refine h.mono hlimit (by grind) (by grind) (by grind) ?_
    intro n s room hn hroom hcovers
    refine (hrooms room hroom).imp id fun hnew => ?_
    refine ⟨k, sessionId, granted, ?_, by grind, hnew⟩
    have hcover : s = star ∨ sessionId = s := by
      rcases Bool.or_eq_true_iff.mp hcovers with hp | hp
      · exact .inr (eq_of_sessionPrefix hselector (h.selector hn) hnew
          (List.isPrefixOf_iff_prefix.mp hp))
      · exact .inl (of_decide_eq_true (Bool.and_eq_true_iff.mp hp).1)
    -- an unsubscribe taken up later would have marked this one
    by_contra hle
    have hne : k ≠ n := by grind
    exact absurd (h.cancelled hn hk (by omega) hcover) (by decide)

/-- An unsubscribe takes the rooms it covers. -/
theorem Final.unsubscribed (h : Final w) (hs : isSessionSelector s = true) :
    Final { w with
      rooms := w.rooms.filter fun room => !covers s room
      frames := w.frames.map (Handling.cancel s) ++ [.answered (.unsubscribed s)] } := by
  have hrooms : ∀ room ∈ (w.rooms.filter fun room => !covers s room).filter isSubscription,
      room ∈ w.subscriptions ∧ covers s room = false := by
    intro room hroom
    simp only [mem_filter, Bool.not_eq_true'] at hroom
    exact ⟨mem_filter.mpr ⟨hroom.1.1, hroom.2⟩, hroom.1.2⟩
  have hold : ∀ {k : Nat} {f : Handling}, k < w.frames.length →
      (w.frames.map (Handling.cancel s) ++ [.answered (.unsubscribed s)])[k]? = some f →
      ∃ g, w.frames[k]? = some g ∧ g.cancel s = f := by
    intro k f hk hf
    rwa [getElem?_append_left (by simpa using hk), getElem?_map, Option.map_eq_some_iff] at hf
  have hunsub : ∀ {n s'},
      (w.frames.map (Handling.cancel s) ++ [.answered (.unsubscribed s)])[n]?
        = some (.answered (.unsubscribed s')) →
      n ≤ w.frames.length ∧ (w.told n (.unsubscribed s') ∨ s' = s) := by
    intro n s' hn
    rcases Nat.lt_or_ge n w.frames.length with hlt | hge
    · obtain ⟨g, hg, hcancel⟩ := hold hlt hn
      rw [cancel_eq_answered.mp hcancel] at hg
      exact ⟨hlt.le, .inl hg⟩
    · grind
  refine ⟨?_, ?_, ?_, ?_⟩
  · exact ((filter_sublist.filter _).length_le).trans h.limit
  · intro n s' hn
    rcases (hunsub hn).2 with hn | rfl
    · exact h.selector hn
    · exact hs
  · intro n s' room hn hroom hcovers
    obtain ⟨hroom, hleft⟩ := hrooms room hroom
    rcases (hunsub hn).2 with hn | rfl
    · obtain ⟨m, sessionId, events, hlt, hm, hroom⟩ := h.later hn hroom hcovers
      exact ⟨m, sessionId, events, hlt, by grind [Handling.cancel], hroom⟩
    · rw [hleft] at hcovers
      cases hcovers
  · intro k n s' sessionId events cancelled hn hk hlt hcover
    obtain ⟨f, hf, heq⟩ := hold (hlt.trans_le (hunsub hn).1) hk
    obtain ⟨marked, rfl, hmarked⟩ := of_cancel_eq_waiting heq
    rcases (hunsub hn).2 with hn | rfl
    · exact hmarked (.inl (h.cancelled hn hf hlt hcover))
    · exact hmarked (.inr hcover)

/-- Every turn keeps an unsubscribe final. -/
theorem Final.turn (h : Final w) {turn : Turn} : Leads Final ((socket snapshot).step turn w) := by
  cases turn with
  | disconnect =>
    exact h.mono (Nat.zero_le _) id id .inl fun _ hroom _ => .inl (nil_subset _ hroom)
  | subscribe sessionId events =>
    simp only [socket, Socket.turn]
    split
    · trivial
    split
    · exact h.append (by simp)
    next hselector =>
      refine h.append ?_
      rintro reply ⟨⟩
      rcases handleSubscribe_cases snapshot w.rooms sessionId events false with
        ⟨code, message, hreply, -⟩ | ⟨hselector', -⟩
      · exact ⟨code, message, hreply⟩
      · exact absurd hselector' hselector
  | keyRead k check =>
    simp only [socket, Socket.turn]
    split
    next hk => exact h.keyRead hk check
    next => trivial
  | unsubscribe selector =>
    simp only [socket, Socket.turn]
    split
    · trivial
    by_cases hselector : isSessionSelector selector = true
    · rw [handleUnsubscribe_of_isSessionSelector _ hselector, if_pos hselector]
      exact h.unsubscribed hselector
    · obtain ⟨code, message, hresult⟩ := handleUnsubscribe_error w.rooms hselector
      rw [hresult, if_neg hselector]
      exact h.append (by simp)

theorem Final.of_reach {own : Text} (hown : isSubscription own = false)
    (hr : (socket snapshot).Reach (.connected own) w) : Final w := by
  refine hr.leads ⟨?_, ?_, ?_, ?_⟩ fun turn t h => h.turn
  · simp [Socket.subscriptions, Socket.connected, hown]
  all_goals simp [Socket.connected]

/-- After an answered unsubscribe the client is in a room it covers only by a
subscribe taken up later; a subscribe it covers that still waits is answered
with an error and joins nothing; and no client holds more than the limit. -/
theorem unsubscribe_is_final (snapshot : ApiKey) {own : Text}
    (hown : isSubscription own = false) {w : Socket}
    (hr : (socket snapshot).Reach (.connected own) w) :
    (w.rooms.filter isSubscription).length ≤ maxRoomsPerSocket
    ∧ ∀ n selector, w.told n (.unsubscribed selector) →
      (∀ room ∈ w.rooms, covers selector room = true → ∃ m sessionId events, n < m
        ∧ w.told m (.subscribed sessionId events) ∧ sessionPrefix sessionId <+: room)
      ∧ ∀ k sessionId events cancelled check, k < n → w.waits k sessionId events cancelled →
        selector = star ∨ sessionId = selector →
        ∃ w', (socket snapshot).step (.keyRead k check) w = some w'
          ∧ (∃ code message, w'.told k (.error code message))
          ∧ (w'.rooms.filter isSubscription).Sublist (w.rooms.filter isSubscription) := by
  have h := Final.of_reach hown hr
  refine ⟨h.limit, fun n selector hn => ⟨?_, ?_⟩⟩
  · intro room hroom hcovers
    exact h.later hn (mem_filter.mpr ⟨hroom, isSubscription_of_covers hcovers⟩) hcovers
  · intro k sessionId events cancelled check hlt hk hcover
    obtain ⟨reply, t, hjudge, hcases⟩ := judge_cases snapshot w sessionId events cancelled check
    refine ⟨{ t with frames := w.frames.set k (.answered reply) }, ?_, ?_⟩
    · simp only [socket, Socket.turn, hk, hjudge]
    rcases hcases with ⟨⟨code, message, rfl⟩, hrooms⟩ | ⟨-, hcancelled, -⟩
    · exact ⟨⟨code, message, by grind⟩, hrooms⟩
    · rw [h.cancelled hn hk hlt hcover] at hcancelled
      cases hcancelled

/-- An unsubscribe from every session while a subscribe waits. -/
theorem unsubscribe_is_final_waiting :
    let key : ApiKey := ⟨.viewer, none, none⟩
    let w : Socket := ⟨["own".toList], false,
      [.waiting "a".toList [star] true, .answered (.unsubscribed star)]⟩
    (socket key).Reach (.connected "own".toList) w
      ∧ ∃ w', (socket key).step (.keyRead 0 (.valid key false)) w = some w'
        ∧ (∃ code message, w'.told 0 (.error code message))
        ∧ (w'.rooms.filter isSubscription).Sublist (w.rooms.filter isSubscription) := by
  have hrun : (socket ⟨.viewer, none, none⟩).run (.connected "own".toList)
      [.subscribe "a".toList [star], .unsubscribe star]
      = some ⟨["own".toList], false,
        [.waiting "a".toList [star] true, .answered (.unsubscribed star)]⟩ := by decide +kernel
  have hr := Machine.reach_of_run hrun
  exact ⟨hr, ((unsubscribe_is_final _ (by decide) hr).2 1 star rfl).2 0 _ _ _ _ (by decide) rfl
    (.inl rfl)⟩

end OpenWA.Events

/-
The chat fence of the WebSocket surface is the chat fence of the REST one.

# What it needs

Event names without a `%` and session ids without a line break. A room is a
text, so an event that carries the name of a chat room would be broadcast to
it as a plain one, and two sessions that differ by a line break can share
the memo of a lookup: `named_like_a_room`.
-/
import OpenWA.Events.Proofs.Deliveries

namespace OpenWA.Events

open Text Security

-- ======== the readings

/-- The lookup of the event's chat has succeeded. -/
def World.Succeeded (w : World) (i : Nat) : Prop :=
  ∃ (j : Nat) (job : DeliveryJob) (lookup : Lookup), w.deliveries.jobs[j]? = some job
    ∧ job.payload.emission = i ∧ w.lookups[job.payload.lookup]? = some lookup
    ∧ lookup.answer = some true

/-- The turn of the event's delivery has come. -/
def World.Turned (w : World) (i : Nat) : Prop :=
  ∃ (j : Nat) (job : DeliveryJob), w.deliveries.jobs[j]? = some job
    ∧ job.payload.emission = i ∧ job.phase ≠ .waiting

/-- Every lookup asked has succeeded or failed. -/
def World.Answered (w : World) : Prop :=
  ∀ {l : Nat} {lookup : Lookup}, w.lookups[l]? = some lookup → lookup.answer ≠ none

/-- No delivery is under way. -/
def World.Quiet (w : World) : Prop :=
  ∀ {j : Nat} {job : DeliveryJob}, w.deliveries.jobs[j]? = some job → job.phase = .settled

/-- The client is to receive the event: a chat event it subscribed to, about
a chat the guard admits. -/
def Setting.Entitled (S : Setting) (e : Emission) : Prop :=
  e.event ∈ chatEvents ∧ S.Subscribed e ∧ ∃ id, chatOfData e.event e.data = some id
    ∧ chatIdAllowed (buildChatScope S.key.allowedChats) id (some S.table.directory) = true

theorem Emission.chatOfData_eq {e : Emission} {id : Text} (h : e.chat = some id) :
    chatOfData e.event e.data = some id := by
  unfold Emission.chat at h
  rwa [if_pos (List.contains_iff_mem.mpr (Emission.mem_chatEvents h))] at h

variable {S : Setting} {w : World} {j : Nat} {job : DeliveryJob}

/-- A delivery is determined by its event. -/
theorem Kept.job_unique (h : Kept w) {j' : Nat} {a b : DeliveryJob}
    (ha : w.deliveries.jobs[j]? = some a) (hb : w.deliveries.jobs[j']? = some b)
    (hsame : a.payload.emission = b.payload.emission) : a = b := by
  rcases Nat.lt_trichotomy j j' with hlt | rfl | hgt
  · have hmono := h.mono hlt ha hb
    omega
  · rw [ha] at hb
    exact Option.some.inj hb
  · have hmono := h.mono hgt hb ha
    omega

/-- A delivery is sent exactly if its lookup succeeded and the key may see it. -/
theorem Inv.sends_iff (h : Inv S w) (hj : w.deliveries.jobs[j]? = some job) :
    Sends S w job ↔ w.Succeeded job.payload.emission ∧ S.Entitled job.payload.message := by
  obtain ⟨hplace, -, lookup, hlookup, hchat, -⟩ := h.kept.job hj
  have hevent := Emission.mem_chatEvents hchat
  have hdata := Emission.chatOfData_eq hchat
  have hreach := reaches_chatRooms (S := S) hevent ((h.kept.proper hplace).chat hchat)
  constructor
  · rintro ⟨found, hfound, hok, hrooms⟩
    rw [hlookup] at hfound
    cases hfound
    obtain ⟨hsub, hallowed⟩ := hreach.mp hrooms
    exact ⟨⟨j, job, lookup, hj, rfl, hlookup, hok⟩, hevent, hsub, _, hdata, hallowed⟩
  · rintro ⟨⟨j', other, found, hother, hsame, hfound, hok⟩, -, hsub, id, hid, hallowed⟩
    rw [h.kept.job_unique hother hj hsame, hlookup] at hfound
    cases hfound
    rw [hdata] at hid
    cases hid
    exact ⟨lookup, hlookup, hok, hreach.mpr ⟨hsub, hallowed⟩⟩

/-- What is in the inbox: what had its turn, succeeded and may be seen. -/
theorem Inv.mem_inbox (h : Inv S w) {i : Nat} {e : Emission} (he : w.emitted[i]? = some e) :
    i ∈ w.inbox ↔ w.Turned i ∧ w.Succeeded i ∧ S.Entitled e := by
  rw [h.filed.inbox]
  constructor
  · rintro ⟨j, job, hj, rfl, hphase, hsends⟩
    obtain ⟨hplace, -⟩ := h.kept.job hj
    rw [hplace] at he
    cases he
    obtain ⟨hok, hentitled⟩ := (h.sends_iff hj).mp hsends
    exact ⟨⟨j, job, hj, rfl, hphase⟩, hok, hentitled⟩
  · rintro ⟨⟨j, job, hj, rfl, hphase⟩, hok, hentitled⟩
    obtain ⟨hplace, -⟩ := h.kept.job hj
    rw [hplace] at he
    cases he
    exact ⟨j, job, hj, rfl, hphase, (h.sends_iff hj).mpr ⟨hok, hentitled⟩⟩

/-- An inbox holds emitted events only. -/
theorem Inv.emitted_of_mem_inbox (h : Inv S w) {i : Nat} (hi : i ∈ w.inbox) :
    ∃ e, w.emitted[i]? = some e := by
  obtain ⟨j, job, hj, rfl, -⟩ := h.filed.inbox.mp hi
  exact ⟨_, (h.kept.job hj).1⟩

theorem deliver_enabled (hj : w.deliveries.jobs[j]? = some job) {lookup : Lookup}
    (hlookup : w.lookups[job.payload.lookup]? = some lookup) (hanswer : lookup.answer ≠ none)
    (hphase : job.phase = .waiting) (hfree : w.deliveries.free job = true) :
    ∃ w', w.deliver S j = some w' ∧ w'.lookups = w.lookups
      ∧ w'.deliveries = w.deliveries.setPhase j .running := by
  obtain ⟨ok, hok⟩ := Option.ne_none_iff_exists'.mp hanswer
  unfold World.deliver
  simp only [hj, hlookup, hok, Option.bind_eq_bind, Option.bind_some, hphase, hfree, and_self,
    if_true]
  exact ⟨_, rfl, rfl, rfl⟩

theorem finish_enabled (hj : w.deliveries.jobs[j]? = some job) (hphase : job.phase = .running) :
    ∃ w', w.finish j = some w' ∧ w'.lookups = w.lookups
      ∧ w'.deliveries = (w.deliveries.setPhase j .settled).reclaim job.key j := by
  unfold World.finish
  simp only [hj, Option.bind_eq_bind, Option.bind_some, hphase, if_true]
  exact ⟨_, rfl, rfl, rfl⟩

/-- Deliveries end: one can go on, by a step that brings the end nearer. -/
theorem Inv.quiet_or_step (h : Inv S w) (hanswered : w.Answered) :
    w.Quiet ∨ ∃ a w', (∃ j, a = Action.deliver j ∨ a = Action.finish j)
      ∧ (gateway S).step a w = some w' ∧ w'.Answered
      ∧ w'.deliveries.left < w.deliveries.left := by
  by_cases hquiet : w.Quiet
  · exact .inl hquiet
  · right
    obtain ⟨i, other, hi, hunsettled⟩ : ∃ (i : Nat) (other : DeliveryJob),
        w.deliveries.jobs[i]? = some other ∧ other.phase ≠ .settled := by
      by_contra hno
      refine hquiet ?_
      intro j job hj
      by_contra hphase
      exact hno ⟨j, job, hj, hphase⟩
    obtain ⟨j, job, hj, -, hgo⟩ := h.kept.chain.progress hi hunsettled
    obtain ⟨-, -, lookup, hlookup, -⟩ := h.kept.job hj
    have hkeep : ∀ {w' : World}, w'.lookups = w.lookups → w'.Answered := by
      intro w' hsame l found hl
      rw [hsame] at hl
      exact hanswered hl
    rcases hgo with hrunning | ⟨hwaiting, hfree⟩
    · obtain ⟨w', hs, hlookups, hdeliveries⟩ := finish_enabled hj hrunning
      refine ⟨.finish j, w', ⟨j, .inr rfl⟩, hs, hkeep hlookups, ?_⟩
      have hleft := Chain.left_setPhase hj .settled
      rw [hrunning] at hleft
      rw [hdeliveries, Chain.left_reclaim]
      simp only [Chain.Phase.left] at hleft
      omega
    · obtain ⟨w', hs, hlookups, hdeliveries⟩ :=
        deliver_enabled (S := S) hj hlookup (hanswered hlookup) hwaiting hfree
      refine ⟨.deliver j, w', ⟨j, .inl rfl⟩, hs, hkeep hlookups, ?_⟩
      have hleft := Chain.left_setPhase hj .running
      rw [hwaiting] at hleft
      rw [hdeliveries]
      simp only [Chain.Phase.left] at hleft
      omega

-- ======== the theorem

/-- **One fence.** In every state of every run of the gateway, whatever the
order in which lookups settle, the client was sent exactly the events it
subscribed to whose chat the guard admits and whose lookup succeeded, once
their turn has come; each once; in the order of emission under a session.
While the lookups have settled and some delivery has not, some delivery can
go on, and each such step brings the end nearer. -/
theorem websocket_fence (S : Setting) {w : World}
    (hr : ((gateway S).restrict EmitsProper).Reach World.init w) :
    (∀ i ∈ w.inbox, ∃ e, w.emitted[i]? = some e ∧ S.Entitled e)
    ∧ (∀ {i : Nat} {e : Emission}, w.emitted[i]? = some e →
        w.inbox.count i = 0 ∧ ¬ (w.Turned i ∧ w.Succeeded i ∧ S.Entitled e)
          ∨ w.inbox.count i = 1 ∧ w.Turned i ∧ w.Succeeded i ∧ S.Entitled e)
    ∧ (w.inbox.Pairwise fun i i' => ∀ {e e' : Emission}, w.emitted[i]? = some e →
        w.emitted[i']? = some e' → e.sessionId = e'.sessionId → i < i')
    ∧ (∀ {i : Nat} {e : Emission}, w.emitted[i]? = some e →
        e.event ∉ chatEvents ∨ chatOfData e.event e.data = none → i ∉ w.inbox)
    ∧ (w.Answered → w.Quiet ∨ ∃ a w', (∃ j, a = Action.deliver j ∨ a = Action.finish j)
        ∧ (gateway S).step a w = some w' ∧ w'.Answered
        ∧ w'.deliveries.left < w.deliveries.left)
    ∧ (w.Quiet → ∀ {i : Nat} {e : Emission}, w.emitted[i]? = some e → w.Succeeded i →
        S.Entitled e → w.inbox.count i = 1) := by
  have h : Inv S w := Inv.reach hr
  have hnodup : w.inbox.Nodup := h.filed.sorted.imp fun hpair => hpair.1
  refine ⟨?_, ?_, h.filed.sorted.imp fun hpair => hpair.2, ?_, h.quiet_or_step, ?_⟩
  · intro i hi
    obtain ⟨e, he⟩ := h.emitted_of_mem_inbox hi
    exact ⟨e, he, ((h.mem_inbox he).mp hi).2.2⟩
  · intro i e he
    by_cases hi : i ∈ w.inbox
    · exact .inr ⟨List.count_eq_one_of_mem hnodup hi, (h.mem_inbox he).mp hi⟩
    · exact .inl ⟨List.count_eq_zero_of_not_mem hi, fun hall => hi ((h.mem_inbox he).mpr hall)⟩
  · intro i e he hno hi
    obtain ⟨-, -, hevent, -, id, hid, -⟩ := (h.mem_inbox he).mp hi
    rcases hno with hno | hno
    · exact hno hevent
    · rw [hno] at hid
      cases hid
  · intro hquiet i e he hok hentitled
    obtain ⟨j, job, lookup, hj, hsame, hlookup, hanswer⟩ := hok
    have hturned : w.Turned i := by
      refine ⟨j, job, hj, hsame, ?_⟩
      rw [hquiet hj]
      exact Phase.noConfusion
    exact List.count_eq_one_of_mem hnodup ((h.mem_inbox he).mpr
      ⟨hturned, ⟨j, job, lookup, hj, hsame, hlookup, hanswer⟩, hentitled⟩)

-- ======== two clients

/-- A key for one phone, on any session. -/
def phoneKey : ApiKey where
  role := .viewer
  allowedSessions := none
  allowedChats := some ["6281234567".toList]

/-- A client of that key which subscribed to received messages. -/
def phoneClient (sessionId : Text) : Setting where
  table := oneLid
  key := phoneKey
  own := "A".toList
  frames := [.subscribe sessionId ["message.received".toList] false]
  isWsRedisEnabled := false
  connected := [phoneKey]
  restricted := rfl
  ownRoom := by decide
  present := .inr (List.mem_singleton.mpr rfl)

/-- A message received in a chat. -/
def received (sessionId chatId : Text) : Emission where
  sessionId := sessionId
  event := "message.received".toList
  data := .obj (.cons "chatId".toList (.str chatId) .nil)

theorem proper_received {sessionId chatId : Text} (hsession : '\n' ∉ sessionId)
    (hat : '@' ∈ chatId) : Proper (received sessionId chatId) := by
  have hname : '%' ∉ "message.received".toList := by decide
  refine ⟨hname, hsession, ?_⟩
  intro id hid
  have hdata := Emission.chatOfData_eq hid
  change (if trim chatId = [] then none else some chatId) = some id at hdata
  split at hdata
  · cases hdata
  · exact Option.some.inj hdata ▸ hat

/-- A message of the lid of the phone reaches the client. -/
theorem websocket_fence_lid :
    ∃ w, ((gateway (phoneClient "s1".toList)).restrict EmitsProper).Reach World.init w
      ∧ w.inbox = [0] ∧ ∃ e, w.emitted[0]? = some e ∧ (phoneClient "s1".toList).Entitled e := by
  obtain ⟨w, hrun, hinbox⟩ := (Option.any_eq_true _ _).mp (show
    ((gateway (phoneClient "s1".toList)).run World.init
      [.emit (received "s1".toList "777000111@lid".toList), .answer 0 true, .deliver 0]).any
        (fun w => w.inbox = [0]) = true by decide +kernel)
  have hinbox : w.inbox = [0] := of_decide_eq_true hinbox
  have hr : ((gateway (phoneClient "s1".toList)).restrict EmitsProper).Reach World.init w := by
    refine Machine.reach_restrict_of_run hrun ?_
    intro a ha t e he
    subst he
    simp only [List.mem_cons, List.not_mem_nil, Action.emit.injEq, reduceCtorEq, or_false] at ha
    rw [ha]
    exact proper_received (by decide) (by decide)
  refine ⟨w, hr, hinbox, ?_⟩
  refine (websocket_fence (phoneClient "s1".toList) hr).1 0 ?_
  rw [hinbox]
  exact List.mem_singleton.mpr rfl

/-- An event whose name is that of a chat room reaches the client although
it is no chat event. And a lookup asked for another session under a text that
reads the same makes a message of a listed chat miss the client. -/
theorem named_like_a_room :
    (∃ w, (gateway (phoneClient "s1".toList)).Reach World.init w
      ∧ ∃ e, w.emitted[0]? = some e ∧ e.event ∉ chatEvents ∧ 0 ∈ w.inbox)
    ∧ ∃ w, (gateway (phoneClient star)).Reach World.init w
      ∧ ∃ e, w.emitted[1]? = some e ∧ w.Turned 1 ∧ w.Succeeded 1
        ∧ (phoneClient star).Entitled e ∧ 1 ∉ w.inbox := by
  constructor
  · let e : Emission :=
      { sessionId := "s1".toList
        event := "message.received:chat:6281234567%40c.us".toList
        data := .null }
    obtain ⟨w, hr, htest⟩ := Machine.exists_reach_of_run
      (M := gateway (phoneClient "s1".toList)) World.init [.emit e]
      (fun w => decide (0 ∈ w.inbox)
        && (w.emitted[0]?).any fun e => decide (e.event ∉ chatEvents)) (by decide +kernel)
    rw [Bool.and_eq_true, decide_eq_true_eq, Option.any_eq_true] at htest
    obtain ⟨hmem, found, hfound, hevent⟩ := htest
    exact ⟨w, hr, found, hfound, of_decide_eq_true hevent, hmem⟩
  · obtain ⟨w, hr, htest⟩ := Machine.exists_reach_of_run
      (M := gateway (phoneClient star)) World.init
      [.emit (received "a".toList "b\n6281234567@c.us".toList),
        .emit (received "a\nb".toList "6281234567@c.us".toList),
        .answer 0 true, .deliver 0, .deliver 1]
      (fun w : World => decide (1 ∉ w.inbox)
        && (w.emitted[1]?).any (fun e : Emission => decide (e.sessionId = "a\nb".toList
          ∧ e.event = "message.received".toList
          ∧ chatOfData e.event e.data = some "6281234567@c.us".toList))
        && (w.deliveries.jobs[1]?).any (fun job : DeliveryJob => decide (job.payload.emission = 1)
          && decide (job.phase ≠ .waiting) && (w.lookups[job.payload.lookup]?).any fun l : Lookup =>
            decide (l.answer = some true)))
      (by decide +kernel)
    simp only [Bool.and_eq_true, decide_eq_true_eq, Option.any_eq_true] at htest
    obtain ⟨⟨hmiss, e, he, -, hevent, hchat⟩, job, hj, ⟨hplace, hphase⟩, l, hl, hok⟩ := htest
    have hgranted : (star, "message.received".toList) ∈ (phoneClient star).granted := by
      decide +kernel
    have hallowed : chatIdAllowed (buildChatScope (phoneClient star).key.allowedChats)
        "6281234567@c.us".toList (some (phoneClient star).table.directory) = true := by
      decide +kernel
    refine ⟨w, hr, e, he, ⟨1, job, hj, hplace, hphase⟩, ⟨1, job, l, hj, hplace, hl, hok⟩,
      ⟨?_, ⟨star, _, hgranted, .inr rfl, .inl hevent.symm⟩, _, hchat, hallowed⟩, hmiss⟩
    rw [hevent]
    decide

end OpenWA.Events

/-
Keys separate occurrences.

# How a key is read

The tag comes first and has no `_`, so equal keys have equal tags
(`tag_of_key`), and a tag leaves only the events that share it: the two
message events, the calls and the groups. The session follows the tag in
every key but those of groups and stories; the occurrence id ends every key
it salts. Between them at most one part may hold a `_`, and the parts behind
it are read off the end.

A group's key does not hold the session: there the occurrence id stands for
it. A story's key is the hash of its data, pruned by the names of the data:
within an object the hash sees only what stands under one of these names. So
a story's key is that of the story without the rest (`Dispatch.pruned`), and
tells it apart exactly if there is no rest.
-/
import OpenWA.Webhook.Proofs.KeyParts

namespace OpenWA.Webhook.Key

open List

-- ======== the tag

/-- The first part of an event's key. -/
def Event.tag : Event → Text
  | .messageReceived => "msg".toList
  | .messageSent => "msg".toList
  | .messageAck => "ack".toList
  | .messageReceipt => "receipt".toList
  | .messageFailed => "failed".toList
  | .messageRevoked => "rev".toList
  | .messageReaction => "react".toList
  | .messageEdited => "edit".toList
  | .statusReceived => "evt".toList
  | .sessionStatus => "sess".toList
  | .sessionQr => "qr".toList
  | .sessionAuthenticated => "auth".toList
  | .sessionDisconnected => "disc".toList
  | .sessionReconnectLoop => "loop".toList
  | .sessionRestriction => "restr".toList
  | .presenceUpdate => "pres".toList
  | .eventResponse => "rsvp".toList
  | .pollVote => "vote".toList
  | .groupJoin => "grp".toList
  | .groupLeave => "grp".toList
  | .groupUpdate => "grp".toList
  | .groupJoinRequest => "grp".toList
  | .callReceived => "call".toList
  | .callAccepted => "call".toList
  | .callRejected => "call".toList
  | .callMissed => "call".toList

/-- Keyed by a group and not by the session. -/
def Event.group : Event → Bool
  | .groupJoin => true
  | .groupLeave => true
  | .groupUpdate => true
  | .groupJoinRequest => true
  | _ => false

/-- The event is a call's. -/
def Event.call : Event → Bool
  | .callReceived => true
  | .callAccepted => true
  | .callRejected => true
  | .callMissed => true
  | _ => false

/-- The session is the second part of the key. -/
def Event.scoped (e : Event) : Bool := !e.group && e ≠ .statusReceived

theorem Event.tag_plain (e : Event) : Plain e.tag := by
  unfold Plain
  cases e <;> decide

/-- All events. -/
def Event.all : List Event :=
  [.messageReceived, .messageSent, .messageAck, .messageReceipt, .messageFailed,
    .messageRevoked, .messageReaction, .messageEdited, .statusReceived,
    .sessionStatus, .sessionQr, .sessionAuthenticated, .sessionDisconnected,
    .sessionReconnectLoop, .sessionRestriction, .presenceUpdate, .eventResponse,
    .pollVote, .groupJoin, .groupLeave, .groupUpdate, .groupJoinRequest,
    .callReceived, .callAccepted, .callRejected, .callMissed]

theorem Event.mem_all (e : Event) : e ∈ all := by
  cases e <;> decide

/-- A property of pairs of events is checked on all of them. -/
theorem Event.forall_pairs {p : Event → Event → Prop}
    (h : ∀ e ∈ all, ∀ e' ∈ all, p e e') (e e' : Event) : p e e' := h e e.mem_all e' e'.mem_all

/-- Events with one tag. -/
theorem Event.logical_of_tag : ∀ e e' : Event, e.tag = e'.tag →
    e.logical = e'.logical ∨ e.call = true ∧ e'.call = true ∨
      e.group = true ∧ e'.group = true := forall_pairs (by decide +kernel)

theorem Event.scoped_of_tag : ∀ e e' : Event, e.tag = e'.tag →
    e.scoped = e'.scoped ∧ e.salted = e'.salted ∧
      (e = .statusReceived → e' = .statusReceived) := forall_pairs (by decide +kernel)

theorem Event.eq_of_logical : ∀ e e' : Event, e.logical = e'.logical →
    e.logical ≠ .messageReceived → e = e' := forall_pairs (by decide +kernel)

variable {digest : Digest} {d d' : Dispatch}

theorem exists_tag (digest : Digest) (d : Dispatch) :
    ∃ rest, d.key digest = d.event.tag ++ '_' :: rest := by
  obtain ⟨session, event, data, occurrence⟩ := d
  cases event <;> exact ⟨_, join_cons_cons _ _ _⟩

theorem tag_of_key (h : d.key digest = d'.key digest) : d.event.tag = d'.event.tag := by
  obtain ⟨rest, hrest⟩ := exists_tag digest d
  obtain ⟨rest', hrest'⟩ := exists_tag digest d'
  rw [hrest, hrest'] at h
  exact (plain_append_inj d.event.tag_plain d'.event.tag_plain h).1

-- ======== the session

/-- What follows the session. -/
theorem exists_session (digest : Digest) (d : Dispatch)
    (hs : d.event.scoped = true) :
    ∃ body, d.key digest = d.event.tag ++ '_' :: (d.session.text ++ '_' :: body) := by
  rw [← sessionId_payload d]
  obtain ⟨session, event, data, occurrence⟩ := d
  cases event
  all_goals first
    | exact absurd hs Bool.false_ne_true
    | exact ⟨_, (join_cons_cons _ _ _).trans
        (congrArg (fun rest => _ ++ '_' :: rest) (join_cons_cons _ _ _))⟩

/-- A scoped key tells its session. -/
theorem session_of_key (h : d.key digest = d'.key digest)
    (hs : d.event.scoped = true) : d.session = d'.session := by
  have htag := tag_of_key h
  have hs' : d'.event.scoped = true := by
    rw [← (Event.scoped_of_tag _ _ htag).1]
    exact hs
  obtain ⟨body, hbody⟩ := exists_session digest d hs
  obtain ⟨body', hbody'⟩ := exists_session digest d' hs'
  rw [hbody, hbody', htag] at h
  have hrest := append_cancel_left h
  injection hrest with _ hrest
  exact Uuid.ext_text (plain_append_inj d.session.plain d'.session.plain hrest).1

-- ======== the occurrence

/-- The key before the occurrence id. -/
theorem exists_occurrence (digest : Digest) (d : Dispatch)
    (hs : d.event.salted = true) : ∃ front, d.key digest = front ++ '_' :: d.occurrence.text := by
  have hocc := occurrenceParts_uuid d.occurrence
  unfold Dispatch.key generateIdempotencyKey
  rw [hocc]
  obtain ⟨session, event, data, occurrence⟩ := d
  cases event
  all_goals first
    | exact absurd hs Bool.false_ne_true
    | exact ⟨_, join_snoc (cons_ne_nil _ _) _⟩

/-- A salted key tells its occurrence. -/
theorem occurrence_of_key (h : d.key digest = d'.key digest)
    (hs : d.event.salted = true) : d.occurrence = d'.occurrence := by
  have hs' : d'.event.salted = true := by
    rw [← (Event.scoped_of_tag _ _ (tag_of_key h)).2.1]
    exact hs
  obtain ⟨front, hfront⟩ := exists_occurrence digest d hs
  obtain ⟨front', hfront'⟩ := exists_occurrence digest d' hs'
  rw [hfront, hfront'] at h
  exact Uuid.ext_text (append_plain_inj d.occurrence.plain d'.occurrence.plain h).2

-- ======== the parts

variable {hash t s b b' poll voter : Text} {e : Event} {time : JsNumber} {options : Items}
  {l l' : List Text}

/-- The id a message event carries. -/
def Dispatch.id (d : Dispatch) : Option Json := orElse (d.field "id") (d.field "messageId")

/-- The status a message event carries. -/
def Dispatch.status (d : Dispatch) : Option Json := orElse (d.field "status") (d.field "ack")

/-- What follows tag and session in a key that is read field by field. -/
def Dispatch.keyParts (digest : Digest) (d : Dispatch) : Event → List Text
  | .messageReceived | .messageSent | .messageRevoked => [toStr d.id unknown]
  | .messageAck | .messageFailed => [toStr d.id unknown, toStr d.status "0".toList]
  | .messageReceipt =>
    [toStr d.id unknown, toStr (d.field "participant") unknown, toStr (d.field "status") unknown]
  | .eventResponse => [toStr (d.field "responseMessageId") unknown]
  | .pollVote =>
    [toStr (d.field "pollMessageId") unknown, toStr (d.field "voterId") unknown,
      toStr (orElse (d.field "timestampMs") (d.field "timestamp")) unknown,
      hashData digest (hashed .pollVote d.payload)]
  | .sessionQr => [hashData digest (hashed .sessionQr d.payload)]
  | .callReceived => [toStr (d.field "callId") unknown]
  | .callAccepted | .callRejected | .callMissed =>
    [toStr (d.field "callId") unknown, toStr (d.field "outcome") unknown]
  | _ => []

theorem key_eq (he : d.event = e) (hp : d.keyParts digest e = b :: l) :
    d.key digest = join (e.tag :: d.session.text :: d.keyParts digest e) := by
  rw [← sessionId_payload d]
  unfold Dispatch.key generateIdempotencyKey
  rw [he]
  cases e
  all_goals first
    | rfl
    | cases hp

-- ======== the calls

/-- The part of a call's key that tells how it ended. -/
def Event.outcomeParts : Event → List Text
  | .callAccepted => ["accepted".toList]
  | .callRejected => ["rejected".toList]
  | .callMissed => ["missed".toList]
  | _ => []

theorem Event.outcomeParts_plain (e : Event) : ∀ p ∈ e.outcomeParts, Plain p := by
  unfold Plain
  cases e <;> decide

theorem Event.eq_of_outcomeParts : ∀ e e' : Event, e.call = true →
    e'.call = true → e.outcomeParts = e'.outcomeParts → e = e' := forall_pairs (by decide +kernel)

/-- The parts of a call's key, none with a `_`. -/
theorem key_call (digest : Digest) (hd : d.Documented)
    (hc : d.event.call = true) :
    ∃ callId, d.field "callId" = some (.str callId) ∧ Plain callId ∧
      d.key digest = join (["call".toList, d.session.text, callId] ++ d.event.outcomeParts) := by
  unfold Dispatch.Documented at hd
  cases he : d.event <;> rw [he] at hd hc
  case callReceived =>
    obtain ⟨callId, hid, hplain⟩ := hd
    refine ⟨callId, hid, hplain, ?_⟩
    rw [key_eq he rfl, Dispatch.keyParts, hid]
    rfl
  case callAccepted | callRejected | callMissed =>
    obtain ⟨⟨callId, hid, hplain⟩, hout⟩ := hd
    refine ⟨callId, hid, hplain, ?_⟩
    rw [key_eq he rfl, Dispatch.keyParts, hid, hout]
    rfl
  all_goals cases hc

/-- Calls with one key: the same call, with the same outcome. -/
theorem call_of_key (hd : d.Documented) (hd' : d'.Documented)
    (hc : d.event.call = true) (hc' : d'.event.call = true)
    (h : d.key digest = d'.key digest) :
    d.event = d'.event ∧ d.field "callId" = d'.field "callId" := by
  obtain ⟨callId, hid, hplain, hkey⟩ := key_call digest hd hc
  obtain ⟨callId', hid', hplain', hkey'⟩ := key_call digest hd' hc'
  have hparts : ∀ {s : Text} {u : Uuid} {e : Event}, Plain s →
      ∀ p ∈ ["call".toList, u.text, s] ++ e.outcomeParts, Plain p := by
    intro s u e hs
    simp only [cons_append, nil_append, forall_mem_cons]
    exact ⟨Event.tag_plain .callReceived, u.plain, hs, e.outcomeParts_plain⟩
  rw [hkey, hkey'] at h
  have hlist := join_inj (hparts hplain) (hparts hplain') (cons_ne_nil _ _) (cons_ne_nil _ _) h
  simp only [cons_append, nil_append, cons.injEq] at hlist
  obtain ⟨-, -, rfl, hout⟩ := hlist
  exact ⟨Event.eq_of_outcomeParts _ _ hc hc' hout, by rw [hid, hid']⟩

-- ======== the groups

/-- The parts of a group's key between the group and the occurrence. -/
def Event.groupParts (e : Event) (hash : Text) : List Text :=
  match e with
  | .groupJoin => [hash, "join".toList]
  | .groupLeave => [hash, "leave".toList]
  | .groupJoinRequest => [hash, "join".toList, "request".toList]
  | .groupUpdate => ["update".toList, hash]
  | _ => []

theorem Event.groupParts_plain (e : Event) (hh : Plain hash) :
    ∀ p ∈ e.groupParts hash, Plain p := by
  have hwords : ∀ p ∈ ["join".toList, "leave".toList, "request".toList,
      "update".toList], Plain p := by
    unfold Plain
    decide
  have hmem : ∀ p ∈ e.groupParts hash, p = hash ∨
      p ∈ ["join".toList, "leave".toList, "request".toList, "update".toList] := by
    cases e <;> simp [groupParts]
  intro p hp
  obtain rfl | hp := hmem p hp
  · exact hh
  · exact hwords p hp

theorem Event.group_cases (h : e.group = true) :
    e = .groupJoin ∨ e = .groupLeave ∨ e = .groupJoinRequest ∨ e = .groupUpdate := by
  revert h
  cases e <;> decide

theorem Event.eq_of_groupParts {e' : Event} {hash' : Text} (hg : e.group = true)
    (hg' : e'.group = true) (hh : hash.length = 12)
    (h : e.groupParts hash = e'.groupParts hash') : e = e' := by
  have hne : ∀ {s : Text}, s.length = 12 → s ≠ "update".toList := by
    intro s hs heq
    rw [heq] at hs
    cases hs
  obtain rfl | rfl | rfl | rfl := group_cases hg <;>
    obtain rfl | rfl | rfl | rfl := group_cases hg' <;>
    simp_all [groupParts]

/-- The parts of a group's key, none with a `_`. -/
theorem key_group (digest : Digest) (hd : d.Documented)
    (hg : d.event.group = true) :
    ∃ groupId, Plain groupId ∧
      d.key digest
        = join (["grp".toList, groupId]
            ++ d.event.groupParts (hashData digest (hashed d.event d.payload))
            ++ [d.occurrence.text]) := by
  have hocc := occurrenceParts_uuid d.occurrence
  have hplain : PlainText (d.field "groupId") := by
    unfold Dispatch.Documented at hd
    cases he : d.event <;> rw [he] at hd hg <;> first | exact hd | cases hg
  obtain ⟨groupId, hid, hplain⟩ := hplain
  refine ⟨groupId, hplain, ?_⟩
  unfold Dispatch.field at hid
  unfold Dispatch.key generateIdempotencyKey
  dsimp only
  rw [hocc, hid]
  cases he : d.event
  case groupJoin | groupLeave | groupUpdate | groupJoinRequest => rfl
  all_goals
    rw [he] at hg
    cases hg

/-- Group events with one key are one event. -/
theorem group_of_key (hd : d.Documented) (hd' : d'.Documented)
    (hg : d.event.group = true) (hg' : d'.event.group = true)
    (h : d.key digest = d'.key digest) : d.event = d'.event := by
  obtain ⟨groupId, hplain, hkey⟩ := key_group digest hd hg
  obtain ⟨groupId', hplain', hkey'⟩ := key_group digest hd' hg'
  have hparts : ∀ {s : Text} {u : Uuid} {e : Event} {x : Text}, Plain s →
      ∀ p ∈ ["grp".toList, s] ++ e.groupParts (digest.hash x) ++ [u.text], Plain p := by
    intro s u e x hs
    simp only [cons_append, nil_append, forall_mem_cons, forall_mem_append]
    exact ⟨Event.tag_plain .groupJoin, hs, e.groupParts_plain (digest.plain x), u.plain,
      forall_mem_nil _⟩
  rw [hkey, hkey'] at h
  have hlist := join_inj (hparts hplain) (hparts hplain') (by simp) (by simp) h
  simp only [cons_append, nil_append, cons.injEq] at hlist
  obtain ⟨-, -, hrest⟩ := hlist
  have hmid := (append_inj' hrest rfl).1
  exact Event.eq_of_groupParts hg hg' (digest.length_hash _) hmid

-- ======== the event

/-- A key tells its event. -/
theorem logical_of_key (hd : d.Documented) (hd' : d'.Documented)
    (h : d.key digest = d'.key digest) : d.event.logical = d'.event.logical := by
  obtain hlog | ⟨hc, hc'⟩ | ⟨hg, hg'⟩ := Event.logical_of_tag _ _ (tag_of_key h)
  · exact hlog
  · rw [(call_of_key hd hd' hc hc' h).1]
  · rw [group_of_key hd hd' hg hg' h]

-- ======== the fields

/-- What follows tag and session. -/
theorem body_of_join (h : join (t :: s :: b :: l) = join (t :: s :: b' :: l')) :
    join (b :: l) = join (b' :: l') := by
  rw [join_cons_cons, join_cons_cons, join_cons_cons, join_cons_cons] at h
  injection append_cancel_left h with _ h
  injection append_cancel_left h with _ h

/-- One part, whatever it holds. -/
theorem id_of_join {a a' : Option Json} (ha : SomeText a) (ha' : SomeText a')
    (h : join [toStr a unknown] = join [toStr a' unknown]) : a = a' := by
  rw [join_singleton, join_singleton] at h
  exact eq_of_toStr ha ha' h

/-- A plain part at the end. -/
theorem last_of_join {z z' : Text} (l l' : List Text) (hz : Plain z) (hz' : Plain z')
    (h : join (b :: l ++ [z]) = join (b' :: l' ++ [z'])) :
    join (b :: l) = join (b' :: l') ∧ z = z' := by
  rw [join_snoc (cons_ne_nil _ _), join_snoc (cons_ne_nil _ _)] at h
  exact append_plain_inj hz hz' h

theorem keyParts_of_key {e' : Event} (h : d.key digest = d'.key digest)
    (hs : d.session = d'.session)
    (he : d.event = e) (he' : d'.event = e') (hp : d.keyParts digest e = b :: l)
    (hp' : d'.keyParts digest e' = b' :: l') : join (b :: l) = join (b' :: l') := by
  have htag := tag_of_key h
  rw [he, he'] at htag
  rw [key_eq he hp, key_eq he' hp', hp, hp', htag, hs] at h
  exact body_of_join h

theorem fields_message (hd : SomeText d.id) (hd' : SomeText d'.id)
    (he : d.event = .messageReceived ∨ d.event = .messageSent)
    (he' : d'.event = .messageReceived ∨ d'.event = .messageSent)
    (hs : d.session = d'.session) (h : d.key digest = d'.key digest) : d.id = d'.id := by
  obtain he | he := he <;> obtain he' | he' := he'
  all_goals
    exact id_of_join hd hd' (keyParts_of_key h hs he he' rfl rfl)

theorem fields_ack (hd : SomeText d.id ∧ PlainText d.status)
    (hd' : SomeText d'.id ∧ PlainText d'.status)
    (he : d.event = .messageAck ∨ d.event = .messageFailed)
    (hee : d'.event = d.event) (hs : d.session = d'.session)
    (h : d.key digest = d'.key digest) : d.id = d'.id ∧ d.status = d'.status := by
  obtain he | he := he
  all_goals
    have hbody := keyParts_of_key h hs he (hee.trans he) rfl rfl
    obtain ⟨hfront, hstatus⟩ := last_of_join [] [] (hd.2.plain _) (hd'.2.plain _) hbody
    exact ⟨id_of_join hd.1 hd'.1 hfront, eq_of_toStr hd.2.someText hd'.2.someText hstatus⟩

theorem fields_receipt
    (hd : SomeText d.id ∧ PlainText (d.field "participant") ∧ PlainText (d.field "status"))
    (hd' : SomeText d'.id ∧ PlainText (d'.field "participant") ∧ PlainText (d'.field "status"))
    (he : d.event = .messageReceipt) (he' : d'.event = .messageReceipt)
    (hs : d.session = d'.session) (h : d.key digest = d'.key digest) :
    d.id = d'.id ∧ d.field "participant" = d'.field "participant" ∧
      d.field "status" = d'.field "status" := by
  have hbody := keyParts_of_key h hs he he' rfl rfl
  obtain ⟨hfront, hstatus⟩ := last_of_join [_] [_] (hd.2.2.plain _) (hd'.2.2.plain _) hbody
  obtain ⟨hfront, hpart⟩ := last_of_join [] [] (hd.2.1.plain _) (hd'.2.1.plain _) hfront
  exact ⟨id_of_join hd.1 hd'.1 hfront,
    eq_of_toStr hd.2.1.someText hd'.2.1.someText hpart,
    eq_of_toStr hd.2.2.someText hd'.2.2.someText hstatus⟩

/-- What a vote's key is made of. -/
structure Vote (d : Dispatch) (poll voter : Text) (time : JsNumber)
    (options : Items) : Prop where
  poll_eq : d.field "pollMessageId" = some (.str poll)
  voter_eq : d.field "voterId" = some (.str voter)
  plain : Plain voter
  time_eq : orElse (d.field "timestampMs") (d.field "timestamp") = some (.num time)
  options_eq : d.field "selectedOptions" = some (.arr options)
  free : Json.objectFreeItems options = true

theorem Vote.of_documented (hd : d.Documented) (he : d.event = .pollVote) :
    ∃ poll voter time options, Vote d poll voter time options := by
  unfold Dispatch.Documented at hd
  rw [he] at hd
  obtain ⟨⟨poll, hpoll⟩, ⟨voter, hvoter, hplain⟩, ⟨time, htime⟩, options, hoptions, hfree⟩ := hd
  exact ⟨poll, voter, time, options, hpoll, hvoter, hplain, htime, hoptions, hfree⟩

theorem Vote.hashed (v : Vote d poll voter time options) :
    hashed .pollVote d.payload = member "selectedOptions" (some (.arr options)) := by
  have hoptions := v.options_eq
  unfold Dispatch.field at hoptions
  unfold Key.hashed
  dsimp only
  rw [hoptions]
  rfl

theorem fields_vote {poll' voter' : Text} {time' : JsNumber} {options' : Items}
    (v : Vote d poll voter time options) (v' : Vote d' poll' voter' time' options')
    (he : d.event = .pollVote) (he' : d'.event = .pollVote) (hfree : digest.Separates d d')
    (hs : d.session = d'.session) (h : d.key digest = d'.key digest) :
    poll = poll' ∧ voter = voter' ∧ time = time' ∧ options = options' := by
  unfold Digest.Separates at hfree
  rw [he, he'] at hfree
  have hbody := keyParts_of_key h hs he he' rfl rfl
  rw [v.poll_eq, v'.poll_eq, v.voter_eq, v'.voter_eq, v.time_eq, v'.time_eq] at hbody
  obtain ⟨hfront, hhash⟩ := last_of_join [_, _] [_, _] (digest.plain _) (digest.plain _) hbody
  obtain ⟨hfront, htime⟩ := last_of_join [_] [_] (JsNumber.plain time) (JsNumber.plain time') hfront
  obtain ⟨hpoll, hvoter⟩ := last_of_join [] [] v.plain v'.plain hfront
  rw [join_singleton, join_singleton] at hpoll
  have hoptions := hfree hhash
  rw [v.hashed, v'.hashed] at hoptions
  have harr := member_of_serialise (v := .arr options) v.free hoptions
  injection harr with harr
  refine ⟨hpoll, hvoter, ?_, harr⟩
  obtain ⟨text, nonempty, chars⟩ := time
  obtain ⟨text', nonempty', chars'⟩ := time'
  obtain rfl : text = text' := htime
  rfl

theorem fields_qr (hd : SomeText (d.field "qr")) (hd' : SomeText (d'.field "qr"))
    (he : d.event = .sessionQr) (he' : d'.event = .sessionQr)
    (hfree : digest.Separates d d') (hs : d.session = d'.session)
    (h : d.key digest = d'.key digest) : d.field "qr" = d'.field "qr" := by
  unfold Digest.Separates at hfree
  rw [he, he'] at hfree
  have hhash := keyParts_of_key h hs he he' rfl rfl
  rw [join_singleton, join_singleton] at hhash
  have htext := hfree hhash
  obtain ⟨q, hq⟩ := hd
  obtain ⟨q', hq'⟩ := hd'
  have hmember : ∀ {d : Dispatch} {q : Text}, d.field "qr" = some (.str q) →
      hashed .sessionQr d.payload = member "qr" (some (.str q)) := by
    intro d q hq
    unfold Dispatch.field at hq
    unfold Key.hashed
    dsimp only
    rw [hq]
  rw [hmember hq, hmember hq'] at htext
  rw [hq, hq', member_of_serialise rfl htext]

/-- The fields an event is told apart by are those of the other dispatch. -/
theorem keyFields_of_key (hd : d.Documented) (hd' : d'.Documented)
    (hfree : digest.Separates d d') (hs : d.session = d'.session)
    (hlog : d.event.logical = d'.event.logical)
    (h : d.key digest = d'.key digest) : d.keyFields = d'.keyFields := by
  by_cases hmsg : d.event.logical = .messageReceived
  · -- the two message events may be one another
    have hevent : ∀ e : Event, e.logical = .messageReceived →
        e = .messageReceived ∨ e = .messageSent := by
      intro e
      cases e <;> decide
    have hid : ∀ {d : Dispatch}, d.Documented →
        d.event = .messageReceived ∨ d.event = .messageSent →
        SomeText d.id ∧ d.keyFields = [d.id] := by
      intro d hd he
      unfold Dispatch.Documented at hd
      unfold Dispatch.keyFields
      obtain he | he := he
      all_goals
        rw [he] at hd ⊢
        exact ⟨hd, rfl⟩
    have he := hevent _ hmsg
    have he' := hevent _ (hlog ▸ hmsg)
    obtain ⟨htext, hf⟩ := hid hd he
    obtain ⟨htext', hf'⟩ := hid hd' he'
    rw [hf, hf', fields_message htext htext' he he' hs h]
  have hee : d'.event = d.event := (Event.eq_of_logical _ _ hlog hmsg).symm
  have hdoc := hd
  have hdoc' := hd'
  unfold Dispatch.Documented at hdoc hdoc'
  unfold Dispatch.keyFields
  rw [hee] at hdoc' ⊢
  cases he : d.event <;> rw [he] at hdoc hdoc' hee <;> dsimp only
  case messageReceived | messageSent =>
    rw [he] at hmsg
    exact absurd rfl hmsg
  case messageAck | messageFailed =>
    obtain ⟨hid, hstatus⟩ := fields_ack hdoc hdoc' (by simp [he]) (hee.trans he.symm) hs h
    exact congrArg₂ (fun a b => [a, b]) hid hstatus
  case messageReceipt =>
    obtain ⟨hid, hpart, hstatus⟩ := fields_receipt hdoc hdoc' he hee hs h
    rw [hpart, hstatus]
    exact congrArg (fun a => [a, _, _]) hid
  case messageRevoked | eventResponse =>
    have hbody := keyParts_of_key h hs he hee rfl rfl
    exact congrArg (fun a => [a]) (id_of_join hdoc hdoc' hbody)
  case pollVote =>
    obtain ⟨poll, voter, time, options, v⟩ := Vote.of_documented hd he
    obtain ⟨poll', voter', time', options', v'⟩ := Vote.of_documented hd' hee
    obtain ⟨rfl, rfl, rfl, rfl⟩ := fields_vote v v' he hee hfree hs h
    rw [v.poll_eq, v'.poll_eq, v.voter_eq, v'.voter_eq, v.time_eq, v'.time_eq,
      v.options_eq, v'.options_eq]
  case sessionQr => rw [fields_qr hdoc.1 hdoc'.1 he hee hfree hs h]
  case callReceived | callAccepted | callRejected | callMissed =>
    rw [(call_of_key hd hd' (by rw [he]; rfl) (by rw [hee]; rfl) h).2]

-- ======== the stories

theorem key_story (he : d.event = .statusReceived) :
    d.key digest = join ["evt".toList, "status_received".toList,
      hashData digest (hashed .statusReceived d.payload)] := by
  unfold Dispatch.key generateIdempotencyKey
  rw [he]

/-- Stories with one key have one hashed text. -/
theorem story_of_key (he : d.event = .statusReceived)
    (he' : d'.event = .statusReceived) (hfree : digest.Separates d d')
    (h : d.key digest = d'.key digest) : serialise d.payload = serialise d'.payload := by
  rw [key_story he, key_story he'] at h
  have hhash := body_of_join h
  rw [join_singleton, join_singleton] at hhash
  unfold Digest.Separates at hfree
  rw [he, he'] at hfree
  exact hfree hhash

theorem get_sessionId (d : Dispatch) :
    d.payload.get "sessionId".toList = some (.str d.session.text) := Record.get_set_self _ _ _

theorem session_of_story (h : serialise d.payload = serialise d'.payload) :
    d.session = d'.session := by
  have hs := get_eq_of_serialise h (get_sessionId d) rfl
  rw [get_sessionId d'] at hs
  injection hs with hs
  injection hs with hs
  exact Uuid.ext_text hs.symm

/-- The payload with what the list of its names leaves of each field. -/
def Dispatch.prunedPayload (d : Dispatch) : Data where
  entries := d.payload.entries.map fun e => (e.1, Json.prune (sortedKeys d.payload) e.2)
  nodup := by
    rw [map_map]
    exact d.payload.nodup

/-- The dispatch without what is pruned from its payload. -/
def Dispatch.pruned (d : Dispatch) : Dispatch := { d with data := d.prunedPayload }

theorem get_prunedPayload (d : Dispatch) (k : Text) : d.prunedPayload.get k
    = (d.payload.get k).map (Json.prune (sortedKeys d.payload)) :=
  Record.lookup_map_snd (fun _ => Json.prune (sortedKeys d.payload)) d.payload.entries k

theorem get_pruned (d : Dispatch) (k : Text) : d.pruned.payload.get k
    = (d.payload.get k).map (Json.prune (sortedKeys d.payload)) := by
  by_cases hk : k = "sessionId".toList
  · rw [hk, get_sessionId, get_sessionId]
    rfl
  · rw [← get_prunedPayload]
    exact Record.get_set_of_ne _ _ hk

theorem sortedKeys_pruned (d : Dispatch) : sortedKeys d.pruned.payload = sortedKeys d.payload := by
  have hkeys : d.pruned.payload.entries.map Prod.fst = d.payload.entries.map Prod.fst := by
    have hsome : (d.prunedPayload.get "sessionId".toList).isSome = true := by
      rw [get_prunedPayload, get_sessionId]
      rfl
    refine (Record.keys_set_of_get _ hsome).trans ?_
    unfold Dispatch.prunedPayload
    rw [map_map]
    rfl
  unfold sortedKeys
  rw [hkeys]

theorem unpruned_pruned (d : Dispatch) : d.pruned.Unpruned := by
  intro k v hv
  rw [get_pruned] at hv
  obtain ⟨v₀, -, rfl⟩ := Option.map_eq_some_iff.mp hv
  rw [sortedKeys_pruned, Json.prune_prune]

/-- A story and its pruned payload have one text. -/
theorem serialise_pruned (d : Dispatch) : serialise d.payload = serialise d.pruned.payload := by
  refine serialise_congr (sortedKeys_pruned d).symm fun k => ?_
  rw [get_pruned, Option.map_map]
  exact congrArg (fun f => (d.payload.get k).map f) (funext fun v => (Json.prune_prune _ v).symm)

/-- The key of a story is that of any other with the same hashed text. -/
theorem key_of_serialise (he : d.event = .statusReceived) (he' : d'.event = .statusReceived)
    (h : serialise d.payload = serialise d'.payload) : d.key digest = d'.key digest := by
  rw [key_story he, key_story he']
  exact congrArg (fun text => join [_, _, digest.hash text]) h

/-- Stories that are unpruned are told apart, and no others. -/
theorem story_separates (he : d.event = .statusReceived) :
    d.Unpruned ↔ ∀ d' : Dispatch, d'.event = .statusReceived → d'.Unpruned →
      digest.Separates d d' → d.key digest = d'.key digest →
        ∀ k, d.payload.get k = d'.payload.get k := by
  constructor
  · intro hd d' he' hd' hfree h k
    have hget := get_of_serialise (story_of_key he he' hfree h) k
    have hsame : ∀ {d : Dispatch}, d.Unpruned →
        (d.payload.get k).map (Json.prune (sortedKeys d.payload)) = d.payload.get k := by
      intro d hd
      cases hv : d.payload.get k with
      | none => rfl
      | some v => exact congrArg some (hd k v hv)
    rwa [hsame hd, hsame hd'] at hget
  · intro h k v hv
    have htext := serialise_pruned d
    have hfree : digest.Separates d d.pruned := by
      unfold Digest.Separates
      rw [he, show d.pruned.event = .statusReceived from he]
      exact fun _ => htext
    have hsame := h d.pruned he (unpruned_pruned d) hfree (key_of_serialise he he htext) k
    rw [get_pruned, hv] at hsame
    exact (Option.some.inj hsame).symm

-- ======== the result

/-- Two dispatches with one key are of one occurrence: the same session, the
same event, the same occurrence id where the key is salted with it, the same
fields where it is made of them, and of a QR code the same data. The key of a
story tells its data apart from those of all stories that are unpruned
exactly if it is unpruned itself. -/
theorem idempotency_key_separates (digest : Digest) (d : Dispatch) (hd : d.Documented) :
    (∀ d' : Dispatch, d'.Documented → digest.Separates d d' →
      (d.occurrence = d'.occurrence → d.session = d'.session) →
      d.key digest = d'.key digest →
        d.session = d'.session ∧ d.event.logical = d'.event.logical ∧
        (d.event.salted = true → d.occurrence = d'.occurrence) ∧
        d.keyFields = d'.keyFields ∧
        (d.event = .sessionQr → ∀ k, d.payload.get k = d'.payload.get k)) ∧
    (d.event = .statusReceived →
      (d.Unpruned ↔ ∀ d' : Dispatch, d'.event = .statusReceived → d'.Unpruned →
        digest.Separates d d' → d.key digest = d'.key digest →
          ∀ k, d.payload.get k = d'.payload.get k)) := by
  refine ⟨?_, story_separates⟩
  intro d' hd' hfree hmint h
  have htag := tag_of_key h
  have hlog := logical_of_key hd hd' h
  have hsession : d.session = d'.session := by
    by_cases hst : d.event = .statusReceived
    · have hst' := (Event.scoped_of_tag _ _ htag).2.2 hst
      exact session_of_story (story_of_key hst hst' hfree h)
    · cases hg : d.event.group with
      | false =>
        refine session_of_key h ?_
        unfold Event.scoped
        rw [hg, decide_eq_true hst]
        rfl
      | true =>
        have hsalted : ∀ e : Event, e.group = true → e.salted = true := by
          intro e
          cases e <;> decide
        exact hmint (occurrence_of_key h (hsalted _ hg))
  refine ⟨hsession, hlog, occurrence_of_key h, keyFields_of_key hd hd' hfree hsession hlog h, ?_⟩
  intro hqr k
  have hqr' : d'.event = .sessionQr := by
    rw [← hqr]
    exact (Event.eq_of_logical _ _ hlog (by rw [hqr]; decide)).symm
  unfold Dispatch.Documented at hd hd'
  rw [hqr] at hd
  rw [hqr'] at hd'
  by_cases hk : k = "qr".toList
  · rw [hk]
    exact fields_qr hd.1 hd'.1 hqr hqr' hfree hsession h
  · by_cases hid : k = "sessionId".toList
    · rw [hid, get_sessionId, get_sessionId, hsession]
    · rw [hd.2 k hk hid, hd'.2 k hk hid]

/-- A UUID of zeros, with one digit free. -/
def zeroUuid (last : Char) (h : (last.isDigit || ('a' ≤ last && last ≤ 'f')) = true) : Uuid where
  text := "00000000-0000-0000-0000-00000000000".toList ++ [last]
  length_text := rfl
  chars := by
    intro c hc
    rw [mem_append, mem_singleton] at hc
    have hzeros : "00000000-0000-0000-0000-00000000000".toList.all
        (fun c => c.isDigit || ('a' ≤ c && c ≤ 'f') || c = '-') = true := rfl
    obtain hc | rfl := hc
    · exact all_eq_true.mp hzeros c hc
    · rw [h]
      rfl

/-- A digest of zeros. -/
def zeroDigest : Digest where
  hash := fun _ => replicate 12 '0'
  length_hash := fun _ => rfl
  hex_hash := by
    intro s c hc
    rw [eq_of_mem_replicate hc]
    rfl

/-- A message with an `_` in its id, received and then echoed as sent. -/
theorem idempotency_key_separates_echo :
    ∃ d d' : Dispatch, d.event = .messageReceived ∧ d'.event = .messageSent ∧
      d.occurrence ≠ d'.occurrence ∧ d.key zeroDigest = d'.key zeroDigest ∧
      d.keyFields = d'.keyFields := by
  let d : Dispatch :=
    { session := zeroUuid '1' rfl
      event := .messageReceived
      data := Record.single "id".toList (.str "true_15551234567@c.us_3A".toList)
      occurrence := zeroUuid '2' rfl }
  let d' : Dispatch := { d with event := .messageSent, occurrence := zeroUuid '3' rfl }
  have hocc : d.occurrence ≠ d'.occurrence := by decide
  have hkey : d.key zeroDigest = d'.key zeroDigest := rfl
  have hresult := (idempotency_key_separates zeroDigest d ⟨_, rfl⟩).1 d' ⟨_, rfl⟩
    (fun _ => rfl) (fun h => absurd h hocc) hkey
  exact ⟨d, d', rfl, rfl, hocc, hkey, hresult.2.2.2.1⟩

/-- The data of a story, by the contact it is of. -/
def storyData (contact : String) : Data where
  entries :=
    [("sessionId".toList, .str (zeroUuid '1' rfl).text),
      ("statusId".toList, .str "3EB0".toList),
      ("contact".toList, .obj (.cons "id".toList (.str contact.toList) .nil)),
      ("type".toList, .str "text".toList),
      ("hasMedia".toList, .bool false),
      ("mediaOmitted".toList, .bool false),
      ("postedAt".toList, .num ⟨"1700000000000".toList, by decide, all_eq_true.mp rfl⟩),
      ("expiresAt".toList, .num ⟨"1700086400000".toList, by decide, all_eq_true.mp rfl⟩)]
  nodup := by
    change List.Nodup ["sessionId".toList, "statusId".toList, "contact".toList,
      "type".toList, "hasMedia".toList, "mediaOmitted".toList, "postedAt".toList,
      "expiresAt".toList]
    decide

/-- A story of a contact, dispatched. -/
def story (contact : String) : Dispatch where
  session := zeroUuid '1' rfl
  event := .statusReceived
  data := storyData contact
  occurrence := zeroUuid '2' rfl

/-- Two stories that differ in the contact only have one key, whatever the
hash: the list of top-level names drops the members of `contact`. -/
theorem story_key_drops_contact :
    (story "15551234567@c.us").Documented ∧ (story "15557654321@c.us").Documented ∧
    (story "15551234567@c.us").field "contact" ≠ (story "15557654321@c.us").field "contact" ∧
    ∀ digest : Digest,
      digest.Separates (story "15551234567@c.us") (story "15557654321@c.us") ∧
      (story "15551234567@c.us").key digest = (story "15557654321@c.us").key digest := by
  have htext : serialise (story "15551234567@c.us").payload
      = serialise (story "15557654321@c.us").payload := by decide +kernel
  refine ⟨trivial, trivial, ?_, ?_⟩
  · intro h
    change some (Json.obj (.cons _ (.str "15551234567@c.us".toList) .nil))
      = some (Json.obj (.cons _ (.str "15557654321@c.us".toList) .nil)) at h
    simp at h
  · intro digest
    refine ⟨fun _ => htext, ?_⟩
    exact congrArg (fun t => join [_, _, digest.hash t]) htext

end OpenWA.Webhook.Key

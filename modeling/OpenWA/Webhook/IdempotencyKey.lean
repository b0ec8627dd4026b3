/-
The idempotency key of a webhook dispatch
(`modules/webhook/utils/idempotency.util.ts`, and `fanOut` of
`webhook-delivery.service.ts`, which sets the session id in the data and
mints the occurrence id).

# The parts of a key

Every key is its parts with `_` between them, and a part may hold a `_`
itself: message ids are the sender's choice. A template with an optional
`_occurrence` at its end is a list with one part more.

The hash is a parameter: the first 12 hex digits of SHA-256.
-/
import Mathlib.Data.List.Lex
import OpenWA.Lib.Json
import OpenWA.Lib.Record
import OpenWA.Lib.Utf16

namespace OpenWA.Webhook.Key

/-- The documented events (`WEBHOOK_EVENTS`). -/
inductive Event
  | messageReceived
  | messageSent
  | messageAck
  | messageReceipt
  | messageFailed
  | messageRevoked
  | messageReaction
  | messageEdited
  | statusReceived
  | sessionStatus
  | sessionQr
  | sessionAuthenticated
  | sessionDisconnected
  | sessionReconnectLoop
  | sessionRestriction
  | presenceUpdate
  | eventResponse
  | pollVote
  | groupJoin
  | groupLeave
  | groupUpdate
  | groupJoinRequest
  | callReceived
  | callAccepted
  | callRejected
  | callMissed
deriving DecidableEq

/-- The data of an event. -/
abbrev Data := Record Text Json

/-- The first 12 digits of a hexadecimal digest. -/
structure Digest where
  hash : Text → Text
  length_hash : ∀ s, (hash s).length = 12
  hex_hash : ∀ s, ∀ c ∈ hash s, c.isDigit || ('a' ≤ c && c ≤ 'f')

/-- What stands for a field that is absent. -/
def unknown : Text := "unknown".toList

/-- `toStr(value, fallback)`; `undefined` is no value. -/
def toStr (value : Option Json) (fallback : Text) : Text :=
  match value with
  | some (.str s) => s
  | some (.num n) => n.text
  | some (.bool b) => if b then "true".toList else "false".toList
  | _ => fallback

/-- `a ?? b`. -/
def orElse (a b : Option Json) : Option Json :=
  match a with
  | none => b
  | some .null => b
  | some v => some v

-- ======== hashing

/-- The members of a list of entries. -/
def ofEntries : List (Text × Json) → Fields
  | [] => .nil
  | e :: l => .cons e.1 e.2 (ofEntries l)

/-- `Object.keys(data).sort()`: by code units. -/
def sortedKeys (data : Data) : List Text :=
  (data.entries.map Prod.fst).insertionSort fun k k' => k.flatMap utf16 ≤ k'.flatMap utf16

/-- `JSON.stringify(data, Object.keys(data).sort())`: the list prunes the
objects within `data` as well. -/
def serialise (data : Data) : Text :=
  Json.render (Json.prune (sortedKeys data) (.obj (ofEntries data.entries)))

/-- `hashData(data)`. -/
def hashData (digest : Digest) (data : Data) : Text := digest.hash (serialise data)

/-- `{ name: value }`; a member that is `undefined` is not serialised. -/
def member (name : String) (value : Option Json) : Data :=
  match value with
  | some v => Record.single name.toList v
  | none => Record.empty

/-- `JSON.stringify(value ?? null)`, as a text member. -/
def stringified (value : Option Json) : Option Json :=
  some (.str (Json.render ((orElse value none).getD .null)))

/-- What an event's branch passes to `hashData`. -/
def hashed (event : Event) (data : Data) : Data :=
  let field (name : String) := data.get name.toList
  match event with
  | .sessionQr => member "qr" (field "qr")
  | .sessionAuthenticated => data
  | .sessionDisconnected => member "reason" (field "reason")
  | .pollVote =>
    member "selectedOptions" (some ((orElse (field "selectedOptions") none).getD .null))
  | .presenceUpdate =>
    member "participants" (stringified (field "participants"))
  | .groupJoin => member "participants" (field "participantIds")
  | .groupLeave => member "participants" (field "participantIds")
  | .groupJoinRequest => member "participants" (field "participantIds")
  | .groupUpdate => member "changes" (stringified (field "changes"))
  | .statusReceived => data
  | _ => Record.empty

-- ======== the key

/-- Parts with `_` between them. -/
def join (parts : List Text) : Text := ['_'].intercalate parts

/-- The parts `${occurrence}` adds. -/
def occurrenceParts (occurrenceId : Option Text) : List Text :=
  match occurrenceId with
  | some (c :: rest) => [c :: rest]
  | _ => []

/-- `generateIdempotencyKey(event, data, occurrenceId)`. -/
def generateIdempotencyKey (digest : Digest) (event : Event) (data : Data)
    (occurrenceId : Option Text) : Text :=
  let occurrence := occurrenceParts occurrenceId
  let field (name : String) := data.get name.toList
  let text (name : String) := toStr (field name) unknown
  let session := text "sessionId"
  let id := toStr (orElse (field "id") (field "messageId")) unknown
  let status := toStr (orElse (field "status") (field "ack")) "0".toList
  let hash := hashData digest (hashed event data)
  match event with
  | .messageReceived => join ["msg".toList, session, id]
  | .messageSent => join ["msg".toList, session, id]
  | .messageAck => join ["ack".toList, session, id, status]
  | .messageReceipt =>
    join ["receipt".toList, session, id, text "participant", text "status"]
  | .messageFailed => join ["failed".toList, session, id, status]
  | .messageRevoked => join ["rev".toList, session, id]
  | .messageEdited => join (["edit".toList, session, text "messageId"] ++ occurrence)
  | .messageReaction =>
    join (["react".toList, session, text "messageId", text "senderId"] ++ occurrence)
  | .sessionStatus => join (["sess".toList, session, text "status"] ++ occurrence)
  | .sessionQr => join ["qr".toList, session, hash]
  | .sessionAuthenticated => join (["auth".toList, session, hash] ++ occurrence)
  | .sessionDisconnected => join (["disc".toList, session, hash] ++ occurrence)
  | .sessionReconnectLoop =>
    join (["loop".toList, session, text "attempts"] ++ occurrence)
  | .sessionRestriction =>
    join (["restr".toList, session, text "kind", text "active"] ++ occurrence)
  | .callAccepted => join ["call".toList, session, text "callId", text "outcome"]
  | .callRejected => join ["call".toList, session, text "callId", text "outcome"]
  | .callMissed => join ["call".toList, session, text "callId", text "outcome"]
  | .eventResponse => join ["rsvp".toList, session, text "responseMessageId"]
  | .pollVote =>
    join ["vote".toList, session, text "pollMessageId", text "voterId",
      toStr (orElse (field "timestampMs") (field "timestamp")) unknown, hash]
  | .presenceUpdate =>
    join (["pres".toList, session, text "chatId", hash] ++ occurrence)
  | .groupJoin =>
    join (["grp".toList, text "groupId", hash, "join".toList] ++ occurrence)
  | .groupLeave =>
    join (["grp".toList, text "groupId", hash, "leave".toList] ++ occurrence)
  | .groupJoinRequest =>
    join (["grp".toList, text "groupId", hash, "join_request".toList] ++ occurrence)
  | .groupUpdate =>
    join (["grp".toList, text "groupId", "update".toList, hash] ++ occurrence)
  | .callReceived => join ["call".toList, session, text "callId"]
  -- `evt_${event.replace(/\./g, '_')}_${hash}`; no other documented event
  -- gets here.
  | .statusReceived => join ["evt".toList, "status_received".toList, hash]

-- ======== a dispatch

/-- The text of a UUID. -/
structure Uuid where
  text : Text
  length_text : text.length = 36
  chars : ∀ c ∈ text, c.isDigit || ('a' ≤ c && c ≤ 'f') || c = '-'
deriving DecidableEq

/-- A dispatch of an event. -/
structure Dispatch where
  session : Uuid
  event : Event
  data : Data
  /-- Minted for this dispatch. -/
  occurrence : Uuid

namespace Dispatch

variable (d : Dispatch)

/-- `{ ...data, sessionId }`. -/
def payload : Data := d.data.set "sessionId".toList (.str d.session.text)

/-- A field of the payload. -/
def field (name : String) : Option Json := d.payload.get name.toList

/-- The key of a dispatch. -/
def key (digest : Digest) : Text :=
  generateIdempotencyKey digest d.event d.payload (some d.occurrence.text)

/-- The fields an event without occurrence id is told apart by. -/
def keyFields : List (Option Json) :=
  let id := orElse (d.field "id") (d.field "messageId")
  match d.event with
  | .messageReceived => [id]
  | .messageSent => [id]
  | .messageRevoked => [id]
  | .messageAck => [id, orElse (d.field "status") (d.field "ack")]
  | .messageFailed => [id, orElse (d.field "status") (d.field "ack")]
  | .messageReceipt => [id, d.field "participant", d.field "status"]
  | .callReceived => [d.field "callId"]
  | .callAccepted => [d.field "callId"]
  | .callRejected => [d.field "callId"]
  | .callMissed => [d.field "callId"]
  | .eventResponse => [d.field "responseMessageId"]
  | .pollVote =>
    [d.field "pollMessageId", d.field "voterId",
      orElse (d.field "timestampMs") (d.field "timestamp"),
      d.field "selectedOptions"]
  | .sessionQr => [d.field "qr"]
  | _ => []

end Dispatch

/-- The event as an occurrence has it: a message's receipt from the engine
and its echo as sent count as one. -/
def Event.logical : Event → Event
  | .messageSent => .messageReceived
  | e => e

/-- Keyed with the occurrence id. -/
def Event.salted : Event → Bool
  | .messageEdited => true
  | .messageReaction => true
  | .sessionStatus => true
  | .sessionAuthenticated => true
  | .sessionDisconnected => true
  | .sessionReconnectLoop => true
  | .sessionRestriction => true
  | .presenceUpdate => true
  | .groupJoin => true
  | .groupLeave => true
  | .groupUpdate => true
  | .groupJoinRequest => true
  | _ => false

/-- A text without `_`. -/
def Plain (s : Text) : Prop := '_' ∉ s

/-- A field is a text without `_`. -/
def PlainText (value : Option Json) : Prop := ∃ s, value = some (.str s) ∧ Plain s

/-- A field is some text. -/
def SomeText (value : Option Json) : Prop := ∃ s, value = some (.str s)

/-- The data have the shape the event is documented with, as far as the key
reads it: ids and statuses are texts, call, group and participant ids and
statuses without `_`, a call's outcome is the event's. -/
def Dispatch.Documented (d : Dispatch) : Prop :=
  let id := orElse (d.field "id") (d.field "messageId")
  match d.event with
  | .messageReceived => SomeText id
  | .messageSent => SomeText id
  | .messageRevoked => SomeText id
  | .messageAck => SomeText id ∧ PlainText (orElse (d.field "status") (d.field "ack"))
  | .messageFailed =>
    SomeText id ∧ PlainText (orElse (d.field "status") (d.field "ack"))
  | .messageReceipt =>
    SomeText id ∧ PlainText (d.field "participant") ∧ PlainText (d.field "status")
  | .callReceived => PlainText (d.field "callId")
  | .callAccepted =>
    PlainText (d.field "callId") ∧ d.field "outcome" = some (.str "accepted".toList)
  | .callRejected =>
    PlainText (d.field "callId") ∧ d.field "outcome" = some (.str "rejected".toList)
  | .callMissed =>
    PlainText (d.field "callId") ∧ d.field "outcome" = some (.str "missed".toList)
  | .eventResponse => SomeText (d.field "responseMessageId")
  | .pollVote =>
    SomeText (d.field "pollMessageId") ∧ PlainText (d.field "voterId") ∧
    (∃ n, orElse (d.field "timestampMs") (d.field "timestamp") = some (.num n)) ∧
    ∃ items, d.field "selectedOptions" = some (.arr items) ∧ Json.objectFreeItems items = true
  | .sessionQr =>
    SomeText (d.field "qr") ∧
    ∀ k, k ≠ "qr".toList → k ≠ "sessionId".toList → d.payload.get k = none
  | .groupJoin => PlainText (d.field "groupId")
  | .groupLeave => PlainText (d.field "groupId")
  | .groupUpdate => PlainText (d.field "groupId")
  | .groupJoinRequest => PlainText (d.field "groupId")
  | _ => True

/-- The list of the names of the payload changes nothing within it: the
objects there have no other names, and theirs in order. -/
def Dispatch.Unpruned (d : Dispatch) : Prop :=
  ∀ k v, d.payload.get k = some v → Json.prune (sortedKeys d.payload) v = v

/-- The hash tells the two texts hashed apart. -/
def Digest.Separates (digest : Digest) (d d' : Dispatch) : Prop :=
  hashData digest (hashed d.event d.payload) = hashData digest (hashed d'.event d'.payload) →
    serialise (hashed d.event d.payload) = serialise (hashed d'.event d'.payload)

end OpenWA.Webhook.Key

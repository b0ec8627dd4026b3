/-
The emission of events to WebSocket clients: `emitToRooms` and `chatIds` of
`src/modules/events/events.gateway.ts`, for one client that holds its rooms.

# What is kept

The history of emitted events, the identity lookups asked so far with their
answers, the memo of lookups (`chatIdsMemo`), the chained deliveries
(`chatDeliveries`, a `Chain` under the session id), the clock, and the
inbox: the numbers of the events the client was sent, in order.

# The steps

An emission is one synchronous call. A lookup answers or fails at any time;
the bookkeeping of the memo, the delivery of an event and the end of its
promise are continuations, each its own step, in any order their promises
allow. The lid table is the one the scope of `src/modules/auth` reads and
does not change here, so a lookup that answers gives what the table gives.
-/
import OpenWA.Events.Rooms
import OpenWA.Lib.Chain
import OpenWA.Lib.Json
import OpenWA.Lib.Reach
import OpenWA.Lib.Record

namespace OpenWA.Events

open Text Security

/-- The arguments of `emitToRooms`. -/
structure Emission where
  sessionId : Text
  event : Text
  data : Json
  exceptRoom : Option Text := none

/-- The chat an event is about: `groupId` of a group event, else `chatId`,
if it is a text that is not blank. -/
def chatOfData (event : Text) (data : Json) : Option Text :=
  match data with
  | .obj fields =>
    let name := if "group.".toList.isPrefixOf event then "groupId".toList else "chatId".toList
    match Json.Fields.get fields name with
    | some (.str chatId) => if trim chatId = [] then none else some chatId
    | _ => none
  | _ => none

/-- The chat of an event that goes to clients with an allowlist. -/
def Emission.chat (e : Emission) : Option Text :=
  if chatEvents.contains e.event then chatOfData e.event e.data else none

/-- The rooms of the first broadcast. -/
def plainRooms (e : Emission) : List Text :=
  let named := [buildRoomName e.sessionId e.event, buildRoomName star e.event]
  if wildcardExcludedEvents.contains e.event then named
  else named ++ [buildRoomName e.sessionId star, buildRoomName star star]

/-- The rooms of the second one, for the ids of the chat. -/
def chatRooms (e : Emission) (ids : List Text) : List Text :=
  ids.flatMap fun id =>
    let named := [chatRoom e.sessionId e.event id, chatRoom star e.event id]
    if wildcardExcludedEvents.contains e.event then named
    else named ++ [chatRoom e.sessionId star id, chatRoom star star id]

-- ======== the world

/-- A client, the key it connected with, and the gateway it is connected
to, itself or through Redis. -/
structure Setting where
  table : LidTable
  key : ApiKey
  /-- The name of the client's own room. -/
  own : Text
  frames : List Frame
  isWsRedisEnabled : Bool
  /-- The keys of the clients connected to the process. -/
  connected : List ApiKey
  restricted : isChatScopeRestricted key.allowedChats = true
  ownRoom : isSubscription own = false
  present : isWsRedisEnabled = true ∨ key ∈ connected

variable (S : Setting)

/-- The rooms of the client. -/
def Setting.rooms : List Text := heldAfter S.key [S.own] S.frames

/-- What the client was told it is subscribed to. -/
def Setting.granted : List (Text × Text) := grantedAfter S.key [S.own] [] S.frames

/-- An identity lookup: `idsForFilter({ allowedChats: [chatId] })`. -/
structure Lookup where
  sessionId : Text
  chatId : Text
  /-- Whether it succeeded, once it has settled. -/
  answer : Option Bool
  /-- The memo was told. -/
  noted : Bool

/-- A lookup that is reused, and until when. -/
structure MemoEntry where
  lookup : Nat
  expiresAt : Nat

/-- What a chained delivery holds. -/
structure Delivery where
  /-- The number of the event. -/
  emission : Nat
  message : Emission
  lookup : Nat

/-- The gateway: lookups, the memo, and deliveries to the socket. -/
structure World where
  now : Nat
  emitted : List Emission
  lookups : List Lookup
  chatIdsMemo : Record Text MemoEntry
  deliveries : Chain Text Delivery
  inbox : List Nat

/-- Nothing has been emitted. -/
def World.init : World where
  now := 0
  emitted := []
  lookups := []
  chatIdsMemo := Record.empty
  deliveries := Chain.empty
  inbox := []

/-- `CHAT_IDS_MEMO_TTL_MS`. -/
def chatIdsMemoTtlMs : Nat := 5000

/-- `CHAT_IDS_MEMO_MAX`. -/
def chatIdsMemoMax : Nat := 1000

/-- `idsForFilter({ allowedChats: [chatId] })` of a table that can be read. -/
def idsForFilter (table : LidTable) (chatId : Text) : List Text :=
  (buildExpandedChatScope (some [chatId]) (some table.batched)).getD []

-- ======== the functions

/-- `server.to(rooms).except(exceptRoom).emit(...)`, as the client sees it:
one copy, however many of the rooms it holds. -/
def reaches (rooms : List Text) (exceptRoom : Option Text) (held : List Text) : Bool :=
  rooms.any held.contains && !exceptRoom.any held.contains

/-- The memo's key of a chat. -/
def memoKey (sessionId chatId : Text) : Text := sessionId ++ '\n' :: chatId

namespace World

variable (w : World)

/-- The rest of `chatIds` when the memo has no answer to share. -/
def ask (sessionId chatId : Text) : Nat × World :=
  let entry := { lookup := w.lookups.length, expiresAt := w.now + chatIdsMemoTtlMs }
  let key := memoKey sessionId chatId
  let memo := (w.chatIdsMemo.delete key).set key entry
  (w.lookups.length,
    { w with
      lookups := w.lookups
        ++ [{ sessionId := sessionId, chatId := chatId, answer := none, noted := false }]
      chatIdsMemo :=
        if memo.size > chatIdsMemoMax then
          match memo.entries with
          | [] => memo
          | (oldest, _) :: _ => memo.delete oldest
        else memo })

/-- `chatIds(sessionId, chatId)`: the lookup of the chat, new or shared. -/
def chatIds (sessionId chatId : Text) : Nat × World :=
  match w.chatIdsMemo.get (memoKey sessionId chatId) with
  | some memoized =>
    if memoized.expiresAt > w.now then (memoized.lookup, w) else w.ask sessionId chatId
  | none => w.ask sessionId chatId

/-- The first broadcast of `emitToRooms`. -/
def broadcast (e : Emission) : World :=
  { w with
    emitted := w.emitted ++ [e]
    inbox :=
      if reaches (plainRooms e) e.exceptRoom S.rooms then w.inbox ++ [w.emitted.length]
      else w.inbox }

/-- `emitToRooms`. -/
def emitToRooms (e : Emission) : World :=
  let next := w.broadcast S e
  match e.chat with
  | none => next
  | some chatId =>
    if !S.isWsRedisEnabled
        && !S.connected.any (fun key => isChatScopeRestricted key.allowedChats) then next
    else
      let asked := next.chatIds e.sessionId chatId
      { asked.2 with
        deliveries := asked.2.deliveries.push e.sessionId
          { emission := w.emitted.length, message := e, lookup := asked.1 } }

/-- A lookup settles. -/
def answer (l : Nat) (ok : Bool) : Option World := do
  let lookup ← w.lookups[l]?
  if lookup.answer.isSome then none
  else
    some { w with lookups := w.lookups.set l { lookup with answer := some ok } }

/-- `ids.then(…, forget)`: an answer that names no other identity, and a
failure, are not kept. -/
def note (l : Nat) : Option World := do
  let lookup ← w.lookups[l]?
  let ok ← lookup.answer
  if lookup.noted then none
  else
    let literal := (buildChatScope (some [lookup.chatId])).getD []
    let other := (idsForFilter S.table lookup.chatId).any fun id => !literal.contains id
    let key := memoKey lookup.sessionId lookup.chatId
    let noted := { w with lookups := w.lookups.set l { lookup with noted := true } }
    if ok && other then some noted
    else if (w.chatIdsMemo.get key).any (fun entry => entry.lookup = l) then
      some { noted with chatIdsMemo := w.chatIdsMemo.delete key }
    else some noted

/-- The continuation of a delivery: what it waits for has settled. -/
def deliver (j : Nat) : Option World := do
  let job ← w.deliveries.jobs[j]?
  let lookup ← w.lookups[job.payload.lookup]?
  let ok ← lookup.answer
  if job.phase = .waiting ∧ w.deliveries.free job = true then
    let ids := idsForFilter S.table lookup.chatId
    let sent := ok && reaches (chatRooms job.payload.message ids) none S.rooms
    some { w with
      deliveries := w.deliveries.setPhase j .running
      inbox := if sent then w.inbox ++ [job.payload.emission] else w.inbox }
  else none

/-- The `finally` of a delivery, and the end of its promise. -/
def finish (j : Nat) : Option World := do
  let job ← w.deliveries.jobs[j]?
  if job.phase = .running then
    some { w with
      deliveries := (w.deliveries.setPhase j .settled).reclaim job.key j }
  else none

end World

-- ======== the machine

/-- What can happen at the gateway. -/
inductive Action
  | emit (e : Emission)
  | answer (lookup : Nat) (ok : Bool)
  | note (lookup : Nat)
  | deliver (delivery : Nat)
  | finish (delivery : Nat)
  | tick (ms : Nat)

/-- Every interleaving of emissions, lookups and deliveries. -/
def gateway : Machine World Action where
  step
    | .emit e, w => some (w.emitToRooms S e)
    | .answer l ok, w => w.answer l ok
    | .note l, w => w.note S l
    | .deliver j, w => w.deliver S j
    | .finish j, w => w.finish j
    | .tick ms, w => some { w with now := w.now + ms }

end OpenWA.Events

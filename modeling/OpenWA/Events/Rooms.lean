/-
The rooms of a WebSocket client: `src/modules/events/events.gateway.ts`
(`handleSubscribe`, `handleUnsubscribe`), with the room names of
`dto/ws-messages.dto.ts`.

# Rooms are texts

A client holds rooms by name and a broadcast goes to every client that
holds one of its rooms. A client whose key has a chat allowlist never joins
the room of an event; it joins one room per event and literal id of its
allowlist, with the id percent-encoded behind `:chat:`.

The key is read again on every subscribe. Here it is the key of the
connection: a client whose key has changed is disconnected. The answer to a
request carries no `requestId` and no time.
-/
import OpenWA.Auth.ApiKeys
import OpenWA.Lib.Percent
import OpenWA.Security.ChatScope

namespace OpenWA.Events

open Text Security

-- ======== the events

/-- `SUBSCRIBABLE_EVENTS`. -/
def subscribableEvents : List Text :=
  [ "message.received".toList, "message.sent".toList, "message.ack".toList,
    "message.receipt".toList, "message.revoked".toList, "message.reaction".toList,
    "message.edited".toList, "session.status".toList, "session.qr".toList,
    "session.authenticated".toList, "session.disconnected".toList,
    "session.restriction".toList, "group.join".toList, "group.leave".toList,
    "group.update".toList, "group.join_request".toList, "call.received".toList,
    "status.received".toList, "presence.update".toList, "event.response".toList,
    "poll.vote".toList, "call.accepted".toList, "call.rejected".toList,
    "call.missed".toList ]

/-- `CHAT_EVENTS`: what a key with an allowlist may receive. -/
def chatEvents : List Text :=
  [ "message.received".toList, "message.sent".toList, "message.ack".toList,
    "message.receipt".toList, "message.revoked".toList, "message.reaction".toList,
    "message.edited".toList, "group.join".toList, "group.leave".toList,
    "group.update".toList, "presence.update".toList, "event.response".toList,
    "poll.vote".toList ]

/-- `WILDCARD_EXCLUDED_EVENTS`. -/
def wildcardExcludedEvents : List Text := ["message.receipt".toList]

/-- `*`: every session, or every event. -/
def star : Text := ['*']

-- ======== the names

/-- `buildRoomName`. -/
def buildRoomName (sessionId event : Text) : Text := "session:".toList ++ sessionId ++ ':' :: event

/-- `chatRoom`. -/
def chatRoom (sessionId event chatId : Text) : Text :=
  buildRoomName sessionId event ++ ":chat:".toList ++ encodeURIComponent chatId

/-- `QR_DENIED_ROOM`. -/
def qrDeniedRoom : Text := "role:qr-denied".toList

/-- `/^[a-zA-Z0-9-]+$/`. -/
def isSafeSessionName (value : Text) : Bool :=
  value ≠ [] && value.all fun c => c.isAlphanum || c == '-'

/-- `MAX_SUBSCRIBE_SESSION_ID_LENGTH`. -/
def maxSubscribeSessionIdLength : Nat := 128

/-- `isSessionSelector`. -/
def isSessionSelector (sessionId : Text) : Bool :=
  sessionId = star
    || (sessionId.length ≤ maxSubscribeSessionIdLength && isSafeSessionName sessionId)

-- ======== the key

/-- What the gateway reads of an API key. -/
structure ApiKey where
  role : Auth.ApiKeyRole
  allowedSessions : Option (List Text)
  allowedChats : Option (List Text)

/-- `isSessionSubscriptionAllowed`. -/
def isSessionSubscriptionAllowed (allowedSessions : Option (List Text)) (sessionId : Text) :
    Bool :=
  let allowed := allowedSessions.getD []
  if allowed = [] then true
  else if sessionId = star then false
  else allowed.contains sessionId

-- ======== subscriptions

/-- The answers to a request. -/
inductive Reply
  | subscribed (sessionId : Text) (events : List Text)
  | unsubscribed (sessionId : Text)
  | error (code message : Text)
deriving DecidableEq

/-- `MAX_ROOMS_PER_SOCKET`. -/
def maxRoomsPerSocket : Nat := 4096

/-- `client.join(room)`. -/
def join (rooms : List Text) (room : Text) : List Text :=
  if rooms.contains room then rooms else rooms ++ [room]

/-- `client.leave(room)`. -/
def leave (rooms : List Text) (room : Text) : List Text := rooms.filter (· ≠ room)

/-- `syncQrAccess`. -/
def syncQrAccess (rooms : List Text) (role : Auth.ApiKeyRole) : List Text :=
  if role = .operator ∨ role = .admin then leave rooms qrDeniedRoom
  else join rooms qrDeniedRoom

/-- `texts.join(separator)`. -/
def joinWith (separator : Text) (texts : List Text) : Text := separator.intercalate texts

/-- The digits of a number. -/
def natText (n : Nat) : Text := (toString n).toList

/-- The events of a request that exist, each once. -/
def validEvents (events : List Text) : List Text :=
  (events.filter fun e => e = star || subscribableEvents.contains e).eraseDups

/-- The literal ids of the key's allowlist; none for a key without one. -/
def subscriberChats (key : ApiKey) : Option (List Text) :=
  (buildChatScope key.allowedChats).map List.eraseDups

/-- The events of a request the key may receive. -/
def permittedEvents (key : ApiKey) (events : List Text) : List Text :=
  if isChatScopeRestricted key.allowedChats then
    (validEvents events).filter fun e => e = star || chatEvents.contains e
  else validEvents events

/-- The rooms of a request. -/
def roomsOf (key : ApiKey) (sessionId : Text) (events : List Text) : List Text :=
  events.flatMap fun event =>
    match subscriberChats key with
    | some chats => chats.map fun chatId => chatRoom sessionId event chatId
    | none => [buildRoomName sessionId event]

/-- The refusal of an allowlist that is too long for the request, if it is. -/
def tooManyChats (key : ApiKey) (events : List Text) : Option Reply :=
  match subscriberChats key with
  | none => none
  | some chats =>
    if events.length * chats.length > maxRoomsPerSocket then
      let remedy :=
        if chats.length ≤ maxRoomsPerSocket then "name fewer events or use \"*\"".toList
        else "shorten the allowlist".toList
      some (.error "TOO_MANY_SUBSCRIPTIONS".toList
        ("This key's chat allowlist makes every event ".toList ++ natText chats.length
          ++ " subscriptions and a connection may hold at most ".toList
          ++ natText maxRoomsPerSocket ++ "; ".toList ++ remedy))
    else none

/-- The room is a subscription's. -/
def isSubscription (room : Text) : Bool := "session:".toList.isPrefixOf room

/-- `handleSubscribe` from the check of the session on; `cancelled` tells
that an unsubscribe came while the key was read. -/
def handleSubscribe (key : ApiKey) (held : List Text) (sessionId : Text)
    (events : List Text) (cancelled : Bool) : Reply × List Text :=
  if sessionId = [] then
    (.error "INVALID_SESSION".toList "sessionId is required".toList, held)
  else if !isSessionSelector sessionId then
    (.error "INVALID_SESSION".toList "sessionId must be \"*\" or a session id".toList, held)
  else
    let held := syncQrAccess held key.role
    let permitted := permittedEvents key events
    if !isSessionSubscriptionAllowed key.allowedSessions sessionId then
      (.error "FORBIDDEN_SESSION".toList "API key is not authorized for this session".toList, held)
    else if events = [] then
      (.error "INVALID_EVENTS".toList "events array is required".toList, held)
    else if validEvents events = [] then
      (.error "INVALID_EVENTS".toList
        ("No valid events. Valid: ".toList ++ joinWith ", ".toList subscribableEvents
          ++ ", *".toList), held)
    else if permitted = [] then
      (.error "FORBIDDEN_EVENTS".toList "API key may subscribe only to chat events".toList, held)
    else
      match tooManyChats key permitted with
      | some refusal => (refusal, held)
      | none =>
        let rooms := roomsOf key sessionId permitted
        if rooms = [] then
          (.error "FORBIDDEN_EVENTS".toList
            "API key has no valid chats to subscribe to".toList, held)
        else if (held.filter isSubscription).length
            + (rooms.filter fun room => !held.contains room).length
            > maxRoomsPerSocket then
          (.error "TOO_MANY_SUBSCRIPTIONS".toList
            ("A connection may hold at most ".toList ++ natText maxRoomsPerSocket
              ++ " subscriptions; unsubscribe first".toList), held)
        else if cancelled then
          (.error "SUBSCRIPTION_CANCELLED".toList "Subscription was cancelled".toList, held)
        else (.subscribed sessionId permitted, rooms.foldl join held)

/-- `handleUnsubscribe`. -/
def handleUnsubscribe (held : List Text) (sessionId : Text) : Reply × List Text :=
  if sessionId = [] then
    (.error "INVALID_SESSION".toList "sessionId is required".toList, held)
  else if !isSessionSelector sessionId then
    (.error "INVALID_SESSION".toList "sessionId must be \"*\" or a session id".toList, held)
  else
    let sessionPrefix := "session:".toList ++ sessionId ++ [':']
    (.unsubscribed sessionId, held.filter fun room =>
      !(sessionPrefix.isPrefixOf room || (sessionId = star && isSubscription room)))

/-- What a client sends. -/
inductive Frame
  | subscribe (sessionId : Text) (events : List Text) (cancelled : Bool)
  | unsubscribe (sessionId : Text)

/-- A frame is answered, with the rooms held then. -/
def handleFrame (key : ApiKey) (held : List Text) : Frame → Reply × List Text
  | .subscribe sessionId events cancelled =>
    handleSubscribe key held sessionId events cancelled
  | .unsubscribe sessionId => handleUnsubscribe held sessionId

/-- The rooms a client holds after a sequence of frames. -/
def heldAfter (key : ApiKey) : List Text → List Frame → List Text
  | held, [] => held
  | held, frame :: frames => heldAfter key (handleFrame key held frame).2 frames

-- ======== what a client is told

/-- The sessions and events a client is subscribed to, by the answers. -/
def grant (granted : List (Text × Text)) : Reply → List (Text × Text)
  | .subscribed sessionId events => granted ++ events.map fun e => (sessionId, e)
  | .unsubscribed sessionId =>
    granted.filter fun g => !(g.1 = sessionId || sessionId = star)
  | .error _ _ => granted

/-- `grant` over the answers to a sequence of frames. -/
def grantedAfter (key : ApiKey) : List Text → List (Text × Text) → List Frame → List (Text × Text)
  | _, granted, [] => granted
  | held, granted, frame :: frames =>
    grantedAfter key (handleFrame key held frame).2
      (grant granted (handleFrame key held frame).1) frames

end OpenWA.Events

/-
One client with its requests in flight: `handleSubscribe` and
`handleUnsubscribe` of `src/modules/events/events.gateway.ts`.

A subscribe is registered, waits while the key is read again, and is then
judged and joins its rooms in one turn. An unsubscribe is one turn: it marks
the waiting subscribes it covers. Between any two turns other frames are
handled and the client may be disconnected; from then on its frames are
dropped.
-/
import OpenWA.Events.Rooms
import OpenWA.Lib.Reach

namespace OpenWA.Events

open Text Security

/-- What the rooms of a session begin with. -/
def sessionPrefix (sessionId : Text) : Text := "session:".toList ++ sessionId ++ [':']

/-- The rooms an unsubscribe leaves. -/
def covers (selector room : Text) : Bool :=
  (sessionPrefix selector).isPrefixOf room || (selector = star && isSubscription room)

/-- A frame the gateway has begun to handle. -/
inductive Handling
  | waiting (sessionId : Text) (events : List Text) (cancelled : Bool)
  | answered (reply : Reply)
deriving DecidableEq

/-- What an unsubscribe does to `pendingSubscriptions`. -/
def Handling.cancel (selector : Text) : Handling → Handling
  | .waiting sessionId events cancelled =>
    .waiting sessionId events (cancelled || selector = star || sessionId = selector)
  | .answered reply => .answered reply

/-- The rooms of a socket and its frames. -/
structure Socket where
  rooms : List Text
  disconnected : Bool
  /-- The frames in the order they were taken up. -/
  frames : List Handling
deriving DecidableEq

/-- The frame taken up as number `n` has been answered. -/
abbrev Socket.told (w : Socket) (n : Nat) (reply : Reply) : Prop :=
  w.frames[n]? = some (.answered reply)

/-- Frame `k` waits for its key to be read. -/
abbrev Socket.waits (w : Socket) (k : Nat) (sessionId : Text) (events : List Text)
    (cancelled : Bool) : Prop :=
  w.frames[k]? = some (.waiting sessionId events cancelled)

/-- A client that has been let in: it is in the room of its own id. -/
def Socket.connected (own : Text) : Socket := ⟨[own], false, []⟩

/-- `client.disconnect(true)`. -/
def Socket.disconnect (w : Socket) : Socket := { w with rooms := [], disconnected := true }

/-- What reading the key again gives; `changed` tells that its authorization
is not the one the client connected with. -/
inductive KeyCheck
  | unreadable
  | refused
  | valid (key : ApiKey) (changed : Bool)

/-- `handleSubscribe` once the key has been read; `snapshot` is the key the
client connected with. -/
def Socket.judge (snapshot : ApiKey) (w : Socket) (sessionId : Text) (events : List Text)
    (cancelled : Bool) : KeyCheck → Reply × Socket
  | .unreadable =>
    (.error "INTERNAL_ERROR".toList "The API key could not be checked; retry shortly".toList, w)
  | .refused =>
    (.error "UNAUTHORIZED".toList "API key is no longer valid".toList, w.disconnect)
  | .valid key changed =>
    if w.disconnected then
      (.error "UNAUTHORIZED".toList "Connection is closed".toList, w)
    else if (isChatScopeRestricted key.allowedChats
        || isChatScopeRestricted snapshot.allowedChats) && changed then
      (.error "UNAUTHORIZED".toList
        "API key authorization changed; please reconnect".toList, w.disconnect)
    else
      let result := handleSubscribe key w.rooms sessionId events cancelled
      (result.1, { w with rooms := result.2 })

/-- What can happen to a socket. -/
inductive Turn
  | subscribe (sessionId : Text) (events : List Text)
  | keyRead (k : Nat) (check : KeyCheck)
  | unsubscribe (selector : Text)
  | disconnect

/-- One turn of the socket's handlers. -/
def Socket.turn (snapshot : ApiKey) (w : Socket) : Turn → Option Socket
  | .subscribe sessionId events =>
    if w.disconnected then none
    else if isSessionSelector sessionId then
      some { w with frames := w.frames ++ [.waiting sessionId events false] }
    else
      -- refused for its session, before the key is read
      let reply := (handleSubscribe snapshot w.rooms sessionId events false).1
      some { w with frames := w.frames ++ [.answered reply] }
  | .keyRead k check =>
    match w.frames[k]? with
    | some (.waiting sessionId events cancelled) =>
      let result := w.judge snapshot sessionId events cancelled check
      some { result.2 with frames := w.frames.set k (.answered result.1) }
    | _ => none
  | .unsubscribe selector =>
    if w.disconnected then none
    else
      let result := handleUnsubscribe w.rooms selector
      let frames :=
        if isSessionSelector selector then w.frames.map (Handling.cancel selector)
        else w.frames
      some { w with rooms := result.2, frames := frames ++ [.answered result.1] }
  | .disconnect => some w.disconnect

/-- Every interleaving of frames and key reads. -/
def socket (snapshot : ApiKey) : Machine Socket Turn := ⟨fun turn w => w.turn snapshot turn⟩

end OpenWA.Events

/-
Message rows as the send path, the own-send echo and the pending reaper
write them: the statuses, the metadata column and what each writer makes
of it.

# The metadata column

`metadata` is a JSON object. Its `media` key is read and rewritten by
several writers and is modelled field by field; every other key (quoted
message, reactions, edited mark, poll, button, `reapedAt`) is carried as
the text it serialises to. Of the `media` object the fields that the
modelled code reads are kept; `filename` and `sizeBytes` are not.

# Columns left out

The chat, the author and the direction of a row are not read by any
statement here, and the two rows of a message agree on the session.
`mediaMimetype` is written together with `mediaPath` and follows it.
-/
import OpenWA.Lib.Record
import OpenWA.Lib.Text

namespace OpenWA.Send

/-- The status of a message row. -/
inductive MessageStatus
  | pending
  | sent
  | delivered
  | read
  | failed
deriving DecidableEq

namespace MessageStatus

/-- SENT or further. -/
def accepted : MessageStatus → Bool
  | .sent | .delivered | .read => true
  | .pending | .failed => false

/-- The stored statuses a delivery transition may advance from. -/
def ackStatusTransitionFrom : MessageStatus → List MessageStatus
  | .delivered => [.pending, .sent]
  | .read => [.pending, .sent, .delivered]
  | .failed => [.pending, .sent]
  | .pending | .sent => []

end MessageStatus

-- ======== metadata

/-- The media of a message. -/
structure Media where
  /-- Base64 bytes, or the URL of a URL-based send. -/
  data : Option Text
  mimetype : Text
  omitted : Bool := false
  archived : Bool := false
deriving DecidableEq

/-- A member of the metadata. -/
inductive Value
  | media (m : Media)
  | other (json : Text)
deriving DecidableEq

/-- The metadata of a row. -/
abbrev Metadata := Record Text Value

/-- The member that holds the media. -/
def mediaKey : Text := "media".toList

/-- `metadata.media`. -/
def mediaOf (m : Metadata) : Option Media :=
  match m.get mediaKey with
  | some (.media x) => some x
  | _ => none

/-- `metadata.media?.data`, when it is not the empty text. -/
def bytesOf (m : Metadata) : Option Text := ((mediaOf m).bind Media.data).filter fun d => d ≠ []

/-- `{ media }`. -/
def withMedia (x : Media) : Metadata := .single mediaKey (.media x)

/-- The URL test `^https?://`, letters in either case. -/
def isMediaUrlPointer (data : Text) : Bool :=
  "http://".toList.isPrefixOf data.toLowerCase
    || "https://".toList.isPrefixOf data.toLowerCase

/-- The media is the URL of a URL-based send. -/
def isUrlPointerMetadata (m : Metadata) : Bool :=
  ((mediaOf m).bind Media.data).any isMediaUrlPointer

/-- The media a merge leaves as the row has it: an archived marker, or
anything when the writer has no bytes to give. -/
def keptMedia (current incoming : Metadata) : Metadata :=
  match mediaOf current with
  | some x =>
    if (x.archived && x.omitted) || (bytesOf incoming).isNone then
      withMedia x
    else .empty
  | none => .empty

/-- `mergeSentMetadata(current, incoming)`. -/
def mergeSentMetadata (current incoming : Metadata) : Metadata :=
  (current.spread incoming).spread (keptMedia current incoming)

/-- The archived marker: the file holds the bytes, the row does not. -/
def archivedMarker (m : Metadata) : Bool := (mediaOf m).any fun x => x.archived && x.omitted

-- ======== rows

/-- The type of a revoked message. -/
def revokedType : Text := "revoked".toList

/-- The type of a forward before its echo. -/
def forwardType : Text := "forward".toList

/-- A row of the messages table. -/
structure Row where
  waMessageId : Option Text
  type : Text
  body : Text
  status : MessageStatus
  timestamp : Option Nat
  metadata : Option Metadata
  mediaPath : Option Text := none

/-- The inline bytes of a row. -/
def Row.bytes (r : Row) : Option Text := r.metadata.bind bytesOf

/-- `where: { waMessageId: id }`. -/
def Row.carries (id : Text) (r : Row) : Bool := r.waMessageId = some id

/-- `where: { waMessageId: id, type: Not('revoked') }`. -/
def Row.target (id : Text) (r : Row) : Bool := r.carries id && r.type ≠ revokedType

/-- `REVOKED_ROW_PATCH`. -/
def Row.revoked (r : Row) : Row :=
  { r with body := [], type := revokedType, metadata := none
           mediaPath := none }

/-- `delete media.data`. -/
def dropData (m : Metadata) : Metadata :=
  match mediaOf m with
  | some x => m.spread (withMedia { x with data := none })
  | none => m

/-- The row values `reapRow` writes over a copy's metadata. -/
def reapedMetadata (copy : Option Metadata) (now : Text) : Metadata :=
  ((copy.map dropData).getD .empty).spread (.single "reapedAt".toList (.other now))

-- ======== the send

/-- The columns a sender changed in memory after its insert. -/
structure Changed where
  body : Option Text := none
  metadata : Option Metadata := none

/-- A send whose PENDING row is stored and that the engine accepted. -/
structure Accepted where
  /-- The engine's id and timestamp. -/
  id : Text
  timestamp : Nat
  /-- The row as it was inserted. -/
  type : Text
  body : Text
  stored : Option Metadata
  /-- The metadata of the copy in memory. -/
  metadata : Option Metadata
  changed : Changed
  id_ne : id ≠ []
  /-- Metadata is listed exactly when it is no longer what was stored. -/
  unlisted : changed.metadata = none → metadata = stored
  listed : ∀ m, changed.metadata = some m → metadata = some m

namespace Accepted

/-- The PENDING row. -/
def inserted (s : Accepted) : Row where
  waMessageId := none
  type := s.type
  body := s.body
  status := .pending
  timestamp := none
  metadata := s.stored

/-- `{ ...changed, status: SENT, timestamp }`. -/
def patch (s : Accepted) (r : Row) : Row :=
  { r with
    body := s.changed.body.getD r.body
    metadata := s.changed.metadata.or r.metadata
    status := .sent
    timestamp := some s.timestamp }

/-- `{ ...sent }`: with the engine's id. -/
def sent (s : Accepted) (r : Row) : Row :=
  { s.patch r with waMessageId := some s.id }

/-- `{ ...payload, metadata: message.metadata }`: an undefined column is
left out of an UPDATE. -/
def restore (s : Accepted) (r : Row) : Row :=
  { r with metadata := s.metadata.or r.metadata }

/-- The inline media payload of the send: its bytes, unless they are only
the URL of a URL-based send. -/
def payload (s : Accepted) : Option Text :=
  (s.metadata.bind bytesOf).filter fun d => !isMediaUrlPointer d

end Accepted

-- ======== the echo

/-- The engine's own-send echo, as its row is built: hooks run and held
changes applied. Only a forward placeholder is of type `forward`; the
engines report no such type. -/
structure Echo where
  type : Text
  body : Text
  timestamp : Nat
  metadata : Option Metadata
  engine_type : type ≠ forwardType

namespace Echo

/-- The row `commitOwnSendEcho` inserts. -/
def row (e : Echo) (id : Text) : Row :=
  let r : Row :=
    { waMessageId := some id
      type := e.type
      body := e.body
      status := .sent
      timestamp := some e.timestamp
      metadata := e.metadata }
  if e.type = revokedType then r.revoked else r

/-- The bytes the engine delivered with the echo. -/
def bytes (e : Echo) : Option Text := e.metadata.bind bytesOf

end Echo

end OpenWA.Send

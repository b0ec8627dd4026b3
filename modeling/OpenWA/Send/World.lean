/-
One accepted send among the other writers of its message: the own-send
echo, the pending reaper, acks, and whoever else writes metadata.

# The two rows

`own` is the row the send inserted as PENDING, `echo` the row the echo
inserts under the engine's id. No other row of the session can carry the
id: both writers that store it are here, and the unique index admits one.

# The send

`Phase` is the next statement of `persistSentState`; `persist` runs it.
`updateMessageMetadata` reads the row and then swaps, so another writer
can come between (`merging`, `swapping`), three times at most.

# The others

A reaper pass holds the copy of the row it found until it writes. An echo
(`EchoPhase`) inserts, and when the send's row already holds the id goes
on to replace a forward placeholder. All other metadata writers compare
and swap, so a write that lands is one step on the row as it stands
(`annotate`, `archiveReplace`, `dropMarker`); one that loses changes
nothing and needs no step.

`archived` is bookkeeping: some row of the message has held the archived
marker. No step reads it.
-/
import Mathlib.Logic.Function.Basic
import OpenWA.Lib.Reach
import OpenWA.Send.Message

namespace OpenWA.Send

/-- The next statement of `persistSentState`. -/
inductive Phase
  | first
  /-- The row was no longer PENDING. -/
  | second
  | merging (reaped : Bool) (left : Nat)
  | swapping (reaped : Bool) (left : Nat) (snapshot : Option Metadata)
  | keepPending
  | keepFailed
  | stamping
  | deleting
  | ended
deriving DecidableEq

/-- Where the handling of an echo stands. -/
inductive EchoPhase
  | awaited
  /-- The insert hit the unique index. -/
  | lost (e : Echo)
  /-- The row that holds the id is a forward placeholder. -/
  | found (e : Echo)
  | merged (e : Echo)
  | done (e : Echo)

/-- The echo that arrived. -/
def EchoPhase.echo : EchoPhase → Option Echo
  | .awaited => none
  | .lost e | .found e | .merged e | .done e => some e

/-- The echo is about to rewrite a placeholder. -/
def EchoPhase.replacing : EchoPhase → Bool
  | .found _ | .merged _ => true
  | .awaited | .lost _ | .done _ => false

/-- The two rows of one send and those who write them. -/
structure World where
  own : Option Row
  echo : Option Row
  phase : Phase
  /-- The metadata of the copy each reaper pass holds. -/
  reapers : Nat → Option (Option Metadata)
  echoes : Nat → EchoPhase
  archived : Bool

/-- The atomic steps. `ofOwn` names the row an archive writes. -/
inductive Act
  | persist
  | reapFind (k : Nat)
  | reapWrite (k : Nat) (now : Text)
  | echoInsert (k : Nat) (e : Echo)
  | echoFind (k : Nat)
  /-- The row is not the message, or the swap was lost three times. -/
  | echoGiveUp (k : Nat)
  | echoMerge (k : Nat)
  | echoReplace (k : Nat)
  | ack (target : MessageStatus)
  | annotate (change : Metadata)
  | revoke
  | archiveKeep (ofOwn : Bool) (key : Text)
  | archiveReplace (ofOwn : Bool) (key : Text)
  | dropMarker (ofOwn : Bool)
  | clearPath (ofOwn : Bool)

namespace World

/-- The rows of the message. -/
def rows (w : World) : List Row := w.own.toList ++ w.echo.toList

/-- `UPDATE … SET f WHERE p`. -/
def updateWhere (w : World) (p : Row → Bool) (f : Row → Row) : World :=
  { w with
    own := w.own.map fun r => if p r then f r else r
    echo := w.echo.map fun r => if p r then f r else r }

/-- Another row than the send's own carries the id. -/
def taken (w : World) (id : Text) : Bool := w.echo.any (Row.carries id)

-- ======== the send

/-- The recovery from a unique violation, up to its first statement. A
URL pointer is not merged: the echo may hold real bytes. -/
def recover (s : Accepted) (reaped : Bool) : Phase :=
  match s.metadata with
  | some m => if isUrlPointerMetadata m then .stamping else .merging reaped 2
  | none => .stamping

/-- A swap was lost with `left` attempts to go. -/
def swapLost (reaped : Bool) : Nat → Phase
  | 0 => if reaped then .keepFailed else .keepPending
  | left + 1 => .merging reaped left

/-- The write guarded on the row still being PENDING. -/
def writeSent (s : Accepted) (w : World) : World :=
  match w.own with
  | some o =>
    if o.status = .pending then
      if w.taken s.id then { w with phase := recover s false }
      else { w with own := some (s.sent o), phase := .ended }
    else { w with phase := .second }
  | none => { w with phase := .second }

/-- The unguarded write, with the metadata. No row means that the session
was deleted under the send. -/
def writeReaped (s : Accepted) (w : World) : World :=
  match w.own with
  | some o =>
    if w.taken s.id then { w with phase := recover s true }
    else { w with own := some (s.restore (s.sent o)), phase := .ended }
  | none => { w with phase := .ended }

/-- `updateMessageMetadata` reads the row. -/
def mergeRead (s : Accepted) (w : World) (reaped : Bool) (left : Nat) :
    World :=
  match w.rows.find? (Row.target s.id) with
  | some r => { w with phase := .swapping reaped left r.metadata }
  | none => { w with phase := .stamping }

/-- The merge of one metadata swap. -/
def mergeInto (m : Metadata) (r : Row) : Row :=
  let merged := mergeSentMetadata (r.metadata.getD .empty) m
  { r with metadata := some merged }

/-- The row, as long as its metadata is the snapshot. -/
def unchangedSince (s : Accepted) (snapshot : Option Metadata) (r : Row) :
    Bool :=
  r.target s.id && r.metadata = snapshot

/-- The swap: under its guard the row holds the snapshot, so the change
computed from the snapshot is the merge into the row. -/
def mergeSwap (s : Accepted) (w : World) (reaped : Bool) (left : Nat)
    (snapshot : Option Metadata) : World :=
  if w.rows.any (unchangedSince s snapshot) then
    { w.updateWhere (unchangedSince s snapshot) (mergeInto (s.metadata.getD .empty)) with
      phase := .stamping }
  else { w with phase := swapLost reaped left }

/-- `keep(PENDING, …)`. -/
def keepPending (s : Accepted) (w : World) : World :=
  match w.own with
  | some o =>
    if o.status = .pending then
      { w with own := some (s.patch o), phase := .ended }
    else { w with phase := .keepFailed }
  | none => { w with phase := .keepFailed }

/-- `keep(FAILED, …)`. -/
def keepFailed (s : Accepted) (w : World) : World :=
  match w.own with
  | some o =>
    if o.status = .failed then
      { w with own := some (s.restore (s.patch o)), phase := .ended }
    else { w with phase := .ended }
  | none => { w with phase := .ended }

/-- The row with the time of the send. -/
def stampRow (s : Accepted) (r : Row) : Row :=
  { r with timestamp := some s.timestamp }

/-- The next statement of `persistSentState`. -/
def persist (s : Accepted) (w : World) : Option World :=
  match w.phase with
  | .first => some (w.writeSent s)
  | .second => some (w.writeReaped s)
  | .merging reaped left => some (w.mergeRead s reaped left)
  | .swapping reaped left snapshot =>
    some (w.mergeSwap s reaped left snapshot)
  | .keepPending => some (w.keepPending s)
  | .keepFailed => some (w.keepFailed s)
  | .stamping =>
    some { w.updateWhere (Row.carries s.id) (stampRow s) with
      phase := .deleting }
  | .deleting => some { w with own := none, phase := .ended }
  | .ended => none

-- ======== the reaper

/-- The pass finds the row PENDING. An echo row never is. -/
def reapFind (w : World) (k : Nat) : Option World :=
  match w.own with
  | some o =>
    if o.status = .pending then
      let reapers := Function.update w.reapers k (some o.metadata)
      some { w with reapers }
    else none
  | none => none

/-- `reapRow`: the guard is in the UPDATE. -/
def reapRow (copy : Option Metadata) (now : Text) (r : Row) : Row :=
  if r.status = .pending then
    { r with status := .failed
             metadata := some (reapedMetadata copy now) }
  else r

/-- A reaper writes what it made of its copy. -/
def reapWrite (w : World) (k : Nat) (now : Text) : Option World :=
  match w.reapers k with
  | some copy =>
    some { w with own := w.own.map (reapRow copy now)
                  reapers := Function.update w.reapers k none }
  | none => none

-- ======== the echo

/-- Echo `k` is now here. -/
def setEcho (w : World) (k : Nat) (phase : EchoPhase) : World :=
  { w with echoes := Function.update w.echoes k phase }

/-- `insertWithRetry` under the unique index. -/
def echoInsert (s : Accepted) (w : World) (k : Nat) (e : Echo) : Option World :=
  match w.echoes k with
  | .awaited =>
    if w.rows.any (Row.carries s.id) then some (w.setEcho k (.lost e))
    else
      let row := e.row s.id
      let archived := w.archived || row.metadata.any archivedMarker
      some { w.setEcho k (.done e) with echo := some row, archived }
  | _ => none

/-- `replaceForwardPlaceholder` looks for the placeholder. -/
def echoFind (s : Accepted) (w : World) (k : Nat) : Option World :=
  match w.echoes k with
  | .lost e =>
    let placeholder := w.rows.any fun r =>
      r.carries s.id && r.type = forwardType
    if e.type ≠ revokedType ∧ placeholder then
      some (w.setEcho k (.found e))
    else some (w.setEcho k (.done e))
  | _ => none

/-- An echo leaves its row as it is. -/
def echoGiveUp (w : World) (k : Nat) : Option World :=
  match w.echoes k with
  | .found e => some (w.setEcho k (.done e))
  | _ => none

/-- The echo's metadata onto the placeholder, before its type changes. -/
def echoMerge (s : Accepted) (w : World) (k : Nat) : Option World :=
  match w.echoes k with
  | .found e =>
    match e.metadata with
    | some m =>
      let w' := w.updateWhere (Row.target s.id) (mergeInto m)
      let archived := w.archived || archivedMarker m
      some { w'.setEcho k (.merged e) with archived }
    | none => some (w.setEcho k (.merged e))
  | _ => none

/-- An echo gives the forwarded message its type and body. -/
def echoReplace (s : Accepted) (w : World) (k : Nat) : Option World :=
  match w.echoes k with
  | .merged e =>
    let p := fun r : Row => r.carries s.id && r.type = forwardType
    some ((w.setEcho k (.done e)).updateWhere p fun r =>
      { r with type := e.type, body := e.body })
  | _ => none

-- ======== the other writers

/-- `advanceAck`, for any report but a failure. -/
def ack (s : Accepted) (w : World) (target : MessageStatus) : Option World :=
  if target = .failed then none
  else
    let p := fun r : Row => r.carries s.id
      && (MessageStatus.ackStatusTransitionFrom target).contains r.status
    some (w.updateWhere p fun r => { r with status := target })

/-- The row with a change of its metadata. -/
def annotateRow (change : Metadata) (r : Row) : Row :=
  let m := (r.metadata.getD .empty).spread change
  { r with metadata := some m }

/-- A reaction, an edit mark: any change of other keys than `media`. -/
def annotate (s : Accepted) (w : World) (change : Metadata) : Option World :=
  if (change.get mediaKey).isNone then
    some (w.updateWhere (Row.target s.id) (annotateRow change))
  else none

/-- The message is revoked. -/
def revoke (s : Accepted) (w : World) : World := w.updateWhere (Row.carries s.id) Row.revoked

/-- The send's own row, or the echo's. -/
def rowOf (w : World) (ofOwn : Bool) : Option Row :=
  if ofOwn then w.own else w.echo

/-- One of the two rows, written by primary key. -/
def updateRow (w : World) (ofOwn : Bool) (f : Row → Row) : World :=
  if ofOwn then { w with own := w.own.map f }
  else { w with echo := w.echo.map f }

/-- Whether `archive` may point the row at its file. A row reaches it
once it is SENT. -/
def archivable (r : Row) : Bool := r.status.accepted && r.type ≠ revokedType && r.mediaPath.isNone

/-- The pointer next to the inline bytes. -/
def pointRow (key : Text) (r : Row) : Row :=
  if archivable r then { r with mediaPath := some key } else r

/-- Whether `archive` may take the inline bytes out of the row. The media
route needs the engine's id, so a row without one keeps them. -/
def replaceable (r : Row) : Bool :=
  archivable r && r.waMessageId.isSome
    && r.bytes.any (fun d => !isMediaUrlPointer d)
    && (r.metadata.bind mediaOf).any fun x => !x.omitted && x.mimetype ≠ []

/-- The marker in place of the inline bytes. -/
def markArchived (m : Metadata) : Metadata :=
  match mediaOf m with
  | some x =>
    m.spread (withMedia
      { x with data := none, omitted := true, archived := true })
  | none => m

/-- The row with its media archived. -/
def archiveRow (key : Text) (r : Row) : Row :=
  if replaceable r then
    { r with metadata := r.metadata.map markArchived
             mediaPath := some key }
  else r

/-- A media file is archived. -/
def archiveReplace (w : World) (ofOwn : Bool) (key : Text) : Option World :=
  if (w.rowOf ofOwn).any replaceable then
    some { w.updateRow ofOwn (archiveRow key) with archived := true }
  else none

/-- `dropArchivedMarkers`: the file is gone. -/
def dropMarker (m : Metadata) : Metadata :=
  match mediaOf m with
  | some x => m.spread (withMedia { x with archived := false })
  | none => m

/-- The purge of an expired file, first the marker. -/
def purgeRow (r : Row) : Row :=
  if r.type ≠ revokedType ∧ r.mediaPath.isSome then
    { r with metadata := r.metadata.map dropMarker }
  else r

/-- The row without its media file. -/
def clearRow (r : Row) : Row := { r with mediaPath := none }

/-- One step. -/
def step (s : Accepted) (w : World) : Act → Option World
  | .persist => w.persist s
  | .reapFind k => w.reapFind k
  | .reapWrite k now => w.reapWrite k now
  | .echoInsert k e => w.echoInsert s k e
  | .echoFind k => w.echoFind s k
  | .echoGiveUp k => w.echoGiveUp k
  | .echoMerge k => w.echoMerge s k
  | .echoReplace k => w.echoReplace s k
  | .ack target => w.ack s target
  | .annotate change => w.annotate s change
  | .revoke => some (w.revoke s)
  | .archiveKeep ofOwn key => some (w.updateRow ofOwn (pointRow key))
  | .archiveReplace ofOwn key => w.archiveReplace ofOwn key
  | .dropMarker ofOwn => some (w.updateRow ofOwn purgeRow)
  | .clearPath ofOwn => some (w.updateRow ofOwn clearRow)

/-- The engine has just accepted the send. -/
def init (s : Accepted) : World where
  own := some s.inserted
  echo := none
  phase := .first
  reapers := fun _ => none
  echoes := fun _ => .awaited
  archived := false

end World

/-- The send among the writers of its message. -/
def service (s : Accepted) : Machine World Act where
  step a w := w.step s a

end OpenWA.Send

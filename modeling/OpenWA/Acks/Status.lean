/-
Delivery statuses (`message-status.util.ts`): what an ack stores, from
which statuses it may advance a row, and the acks kept for a message that is
not written yet (`inboundInFlight`, `furthestParkedAck`).

`played` receipts reach the gateway as `read`: the adapters fold them, so
there is no such status here.
-/
import OpenWA.Lib.Record
import OpenWA.Lib.Text

namespace OpenWA.Acks

/-- What a receipt says. -/
inductive DeliveryStatus
  | pending
  | sent
  | delivered
  | read
  | failed
deriving DecidableEq

/-- The status column of a row. -/
inductive MessageStatus
  | pending
  | sent
  | delivered
  | read
  | failed
deriving DecidableEq

/-- `deliveryStatusToMessageStatus`: no upgrade for `pending` and `sent`. -/
def deliveryStatusToMessageStatus : DeliveryStatus → Option MessageStatus
  | .failed => some .failed
  | .read => some .read
  | .delivered => some .delivered
  | .pending => none
  | .sent => none

/-- The statuses an ack may advance from. -/
def ackStatusTransitionFrom : MessageStatus → List MessageStatus
  | .delivered => [.pending, .sent]
  | .read => [.pending, .sent, .delivered]
  | .failed => [.pending, .sent]
  | .pending => []
  | .sent => []

/-- The status may move from one to the other. -/
def MessageStatus.advancesTo (s target : MessageStatus) : Bool :=
  (ackStatusTransitionFrom target).contains s

/-- The guarded update of `advanceAck`, on the row's status. -/
def MessageStatus.advance (row target : MessageStatus) : MessageStatus :=
  if row.advancesTo target then target else row

/-- The furthest status so far and one more. -/
def further (furthest : Option MessageStatus) (status : MessageStatus) : MessageStatus :=
  match furthest with
  | none => status
  | some kept => kept.advance status

/-- The acks kept for a message in flight: the furthest for each chat a
receipt named, and for those that named none. -/
abbrev ParkedAcks := Record (Option Text) MessageStatus

/-- An ack is kept, if it is further than the one kept for its chat. -/
def ParkedAcks.park (acks : ParkedAcks) (chat : Option Text) (status : MessageStatus) :
    ParkedAcks :=
  match acks.get chat with
  | none => acks.set chat status
  | some parked => if parked.advancesTo status then acks.set chat status else acks

/-- `furthestParkedAck`; `foreign` says which chats prove to be another
message's. -/
def furthestParkedAck (foreign : Text → Bool) (acks : ParkedAcks) : Option MessageStatus :=
  acks.entries.foldl (fun furthest e =>
    if e.1.any foreign then furthest else some (further furthest e.2)) none

end OpenWA.Acks

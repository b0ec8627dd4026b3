/-
The acks of one message (`message-projector.service.ts`,
`handleMessageAck` and `applyChangesMadeInFlight`): parked while the message
is in flight, queued behind its other changes to be judged by their chat, or
applied at once, each retried once.

# The message

One message of one session: its row, if it has one, and its in-flight
entries. A repeated delivery shares the entry there is; an operation keeps
the entry it started with, also once it is out of the map.

# The steps

An update or a read of the row is one step, at some time after it was
issued; `fail` is its refusal. What a read of the row and of the lid
directory says of a receipt's chat is a parameter of the step that uses it.
The changes of a message run one after another in the source; here they may
interleave, which only adds runs. What is announced is left out.
-/
import Mathlib.Logic.Function.Basic
import OpenWA.Acks.Status
import OpenWA.Lib.Reach

namespace OpenWA.Acks

open Function (update)

/-- `receiptVerdict`. -/
inductive Verdict
  | absent
  | stored
  | foreign
deriving DecidableEq

/-- How far an ack or a commit has got. -/
inductive Op
  | unused
  /-- Queued: the row is read to judge the receipt. -/
  | judging (status : Option MessageStatus)
  /-- The guarded update; `judged`: its retry judges the receipt again. -/
  | advancing (target : MessageStatus) (judged : Bool)
  /-- Nothing matched: the retry waits for its timer. -/
  | waiting (target : MessageStatus) (judged : Bool)
  | rejudging (target : MessageStatus)
  | retrying (target : MessageStatus)
  /-- The insert of the commit of this entry has landed. -/
  | landed (entry : Nat)
  /-- `furthestParkedAck`, before the entry at `next`. -/
  | weighing (entry next : Nat) (furthest : Option MessageStatus)
  | applying (target : MessageStatus)
  | done

/-- The operation has not begun. -/
def Op.isUnused : Op → Bool
  | .unused => true
  | _ => false

/-- The session's projector, its table and the operations under way. -/
structure World where
  /-- The session's engine is the one the callbacks belong to. -/
  live : Bool
  row : Option MessageStatus
  entries : Nat → ParkedAcks
  /-- The entry in `inboundInFlight`. -/
  inFlight : Option Nat
  nextEntry : Nat
  op : Nat → Op

/-- Nothing is in flight yet. -/
def World.init (row : Option MessageStatus) : World where
  live := true
  row := row
  entries := fun _ => Record.empty
  inFlight := none
  nextEntry := 0
  op := fun _ => .unused

/-- What can happen, one step each. -/
inductive Act
  | retire
  /-- The message is announced; a repeat shares its entry. -/
  | track
  | untrack
  /-- An ack naming a chat or none (an id that embeds its chat counts as
  none); `foreign`: the entry proves the chat another message's. -/
  | ack (j : Nat) (status : DeliveryStatus) (receiptChat : Option Text) (foreign : Bool)
  /-- The insert lands, as the commit of this entry. -/
  | lands (j entry : Nat)
  /-- `applyChangesMadeInFlight`, after the insert. -/
  | commit (j : Nat)
  /-- The insert lost to a row; `foreign`: that row is another message's. -/
  | loses (j entry : Nat) (foreign : Bool)
  | judge (j : Nat) (verdict : Verdict)
  | exec (j : Nat)
  | fail (j : Nat)
  | timer (j : Nat)
  /-- The next kept ack is weighed. -/
  | weigh (j : Nat) (foreign : Bool)

namespace World

variable (w : World) (j : Nat)

/-- Operation `j` is now here. -/
def setOp (o : Op) : World := { w with op := update w.op j o }

/-- `advanceAck`: the row and whether it changed. -/
def advanceAck (target : MessageStatus) : Option World :=
  match w.row with
  | some row => if row.advancesTo target then some { w with row := some target } else none
  | none => none

/-- An ack is kept for the message in flight. -/
def park (receiptChat : Option Text) (status : MessageStatus) : World :=
  match w.inFlight with
  | some e => { w with entries := update w.entries e ((w.entries e).park receiptChat status) }
  | none => w

/-- `handleMessageAck`. -/
def handleMessageAck (status : DeliveryStatus) (receiptChat : Option Text)
    (foreign : Bool) : World :=
  if !w.live then w.setOp j .done
  else if receiptChat.isSome && w.inFlight.isSome && foreign then w.setOp j .done
  else
    match deliveryStatusToMessageStatus status with
    | none => if receiptChat.isNone then w.setOp j .done else w.setOp j (.judging none)
    | some target =>
      let parked := w.park receiptChat target
      if receiptChat.isNone then parked.setOp j (.advancing target false)
      else parked.setOp j (.judging (some target))

/-- The kept acks of an entry are applied to the row. -/
def applyParked (entry : Nat) : World :=
  if (w.entries entry).size = 0 then w.setOp j .done
  else w.setOp j (.weighing entry 0 none)

/-- The commit of an inserted row applies what is parked. -/
def commit : Option World :=
  match w.op j with
  | .landed entry => some (if w.live then w.applyParked j entry else w.setOp j .done)
  | _ => none

/-- The read behind an ack comes back. -/
def judge (verdict : Verdict) : Option World :=
  match w.op j with
  | .judging status =>
    if verdict = .foreign || !w.live then some (w.setOp j .done)
    else
      match status with
      | none => some (w.setOp j .done)
      | some target =>
        if verdict = .stored then some (w.setOp j (.advancing target true))
        else some (w.setOp j (.waiting target true))
  | .rejudging target =>
    if verdict = .stored then some (w.setOp j (.retrying target))
    else some (w.setOp j .done)
  | _ => none

/-- The guarded update runs. -/
def exec : Option World :=
  match w.op j with
  | .advancing target judged =>
    match w.advanceAck target with
    | some w' => some (w'.setOp j .done)
    | none => some (w.setOp j (.waiting target judged))
  | .retrying target =>
    match w.advanceAck target with
    | some w' => some (w'.setOp j .done)
    | none => some (w.setOp j .done)
  | .applying target =>
    match w.advanceAck target with
    | some w' => some (w'.setOp j .done)
    | none => some (w.setOp j .done)
  | _ => none

/-- The guarded update is refused: no retry. -/
def fail : Option World :=
  match w.op j with
  | .advancing _ _ => some (w.setOp j .done)
  | .retrying _ => some (w.setOp j .done)
  | .applying _ => some (w.setOp j .done)
  | _ => none

/-- The retry's timer fires. -/
def timer : Option World :=
  match w.op j with
  | .waiting target judged =>
    some (w.setOp j (if judged then .rejudging target else .retrying target))
  | _ => none

/-- One turn of the loop of `furthestParkedAck`. -/
def weigh (foreign : Bool) : Option World :=
  match w.op j with
  | .weighing e i furthest =>
    match (w.entries e).entries[i]? with
    | some (chat, status) =>
      if chat.isSome && foreign then some (w.setOp j (.weighing e (i + 1) furthest))
      else some (w.setOp j (.weighing e (i + 1) (some (further furthest status))))
    | none =>
      match furthest with
      | some target => some (w.setOp j (.applying target))
      | none => some (w.setOp j .done)
  | _ => none

/-- `trackInFlight`. -/
def track : World :=
  match w.inFlight with
  | some _ => w
  | none => { w with inFlight := some w.nextEntry, nextEntry := w.nextEntry + 1 }

/-- The insert of the message lands. -/
def lands (entry : Nat) : Option World :=
  if w.row.isNone && w.live then
    some ({ w with row := some .sent }.setOp j (.landed entry))
  else none

/-- The insert finds the row there already. -/
def loses (entry : Nat) (foreign : Bool) : Option World :=
  if w.row.isSome && w.live then
    some (if foreign then w.setOp j .done else w.applyParked j entry)
  else none

/-- An operation under a fresh name begins. -/
def begin (v : Option World) : Option World := if (w.op j).isUnused then v else none

end World

/-- One step of the projector. -/
def World.step : Act → World → Option World
  | .retire, w => some { w with live := false }
  | .track, w => some w.track
  | .untrack, w => some { w with inFlight := none }
  | .ack j status receiptChat foreign, w =>
    w.begin j (some (w.handleMessageAck j status receiptChat foreign))
  | .lands j entry, w => w.begin j (w.lands j entry)
  | .commit j, w => w.commit j
  | .loses j entry foreign, w => w.begin j (w.loses j entry foreign)
  | .judge j verdict, w => w.judge j verdict
  | .exec j, w => w.exec j
  | .fail j, w => w.fail j
  | .timer j, w => w.timer j
  | .weigh j foreign, w => w.weigh j foreign

/-- Every interleaving of acks, commits and retries. -/
def system : Machine World Act where
  step := World.step

end OpenWA.Acks

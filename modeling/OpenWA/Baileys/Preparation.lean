/-
The preparation of message changes (`baileys-events.ts`,
`prepareMessageChange`): edits, deletes and reactions take one of a limited
number of places, then prepare one after another under each message id.

# Room

A call that finds all places taken waits on one shared promise
(`preparationRoom`). A place that is given up takes the promise away and
resolves it; the waiting calls go on two microtasks later, all of them one
directly after the other, since nothing can be put between reactions of one
promise. So a room is a list of calls, a released room is in `woken` until
its calls go on (`resume`), and a call made before that finds the place free.
A call that goes on and finds no place waits again, on the current room.

# Work

A call with a place is put on the chain of its message (`KeyedMutationQueue`,
`Lib/Chain`). Its turn ends, and its place is free, when its work has ended,
well or not, or has given the place up (`releasePreparation`); then the work may
still go on.

Calls without a message id run at once and are left out, and no account is
unlinked. A call is named by its number.
-/
import OpenWA.Lib.Chain
import OpenWA.Lib.Reach

namespace OpenWA.Preparation

open Function (update)

/-- `CHANGES_PARKED_LIMIT`. -/
def changesParkedLimit : Nat := 64

/-- The changes of one session's socket. -/
structure World where
  changesPreparing : Nat
  /-- The calls that wait on the shared promise, if there is one. -/
  preparationRoom : Option (List Nat)
  /-- Rooms released, oldest first, whose calls have not gone on. -/
  woken : List (List Nat)
  /-- The payload of a job is the call it is of. -/
  messageChanges : Chain Nat Nat
  /-- The work of a job has given its place up. -/
  released : Nat → Bool
  /-- The work of a job has ended. -/
  ended : Nat → Bool
  /-- The message ids of the calls made. -/
  calls : List Nat

/-- No change has come in. -/
def World.init : World where
  changesPreparing := 0
  preparationRoom := none
  woken := []
  messageChanges := Chain.empty
  released := fun _ => false
  ended := fun _ => false
  calls := []

/-- What can happen, one step each. -/
inductive Act
  | call (messageId : Nat)
  /-- The calls of the oldest released room go on. -/
  | resume
  /-- The turn of a job comes: its work starts. -/
  | start (j : Nat)
  /-- `releasePreparation()`. -/
  | release (j : Nat)
  /-- The work ends or fails. -/
  | finish (j : Nat)
  /-- The turn of a job is over: the place is free. -/
  | free (j : Nat)
  /-- The settled entry of the chain is dropped. -/
  | reclaim (j : Nat)

namespace World

variable (limit : Nat) (w : World) (k j : Nat)

/-- Call `k` waits on the shared promise. -/
def waitForRoom : World :=
  { w with preparationRoom := some (w.preparationRoom.getD [] ++ [k]) }

/-- Call `k` takes a place and queues its job behind the message's. -/
def takePlace : World :=
  { w with
    changesPreparing := w.changesPreparing + 1
    messageChanges := w.messageChanges.push (w.calls[k]?.getD 0) k }

/-- The loop of `prepareMessageChange`, from one look at the places to the
next. -/
def enter : World :=
  if limit ≤ w.changesPreparing then w.waitForRoom k else w.takePlace k

/-- A change of the message comes in: it takes a place or waits for one. -/
def call (messageId : Nat) : World :=
  { w with calls := w.calls ++ [messageId] }.enter limit w.calls.length

/-- The calls of the oldest released room try again, in order. -/
def resume : Option World :=
  match w.woken with
  | [] => none
  | room :: rest => some (room.foldl (enter limit) { w with woken := rest })

/-- The work of a job whose turn has come starts. -/
def start : Option World :=
  match w.messageChanges.jobs[j]? with
  | some job =>
    if job.phase = .waiting ∧ w.messageChanges.free job = true then
      some { w with messageChanges := w.messageChanges.setPhase j .running }
    else none
  | none => none

/-- The work gives its place up before it ends. -/
def release : Option World :=
  match w.messageChanges.jobs[j]? with
  | some job =>
    if job.phase = .running ∧ w.ended j = false then
      some { w with released := update w.released j true }
    else none
  | none => none

/-- The work of a job ends. -/
def finish : Option World :=
  match w.messageChanges.jobs[j]? with
  | some job =>
    if job.phase ≠ .waiting ∧ w.ended j = false then
      some { w with ended := update w.ended j true }
    else none
  | none => none

/-- The `finally` of a turn. -/
def freePlace : World :=
  { w with
    changesPreparing := w.changesPreparing - 1
    messageChanges := w.messageChanges.setPhase j .settled
    preparationRoom := none
    woken := w.woken ++ w.preparationRoom.toList }

/-- The place of a job is given back. -/
def free : Option World :=
  match w.messageChanges.jobs[j]? with
  | some job =>
    if job.phase = .running ∧ (w.released j || w.ended j) = true then some (w.freePlace j)
    else none
  | none => none

/-- The `finally` of a settled job. -/
def reclaim : Option World :=
  match w.messageChanges.jobs[j]? with
  | some job =>
    if job.phase = .settled then
      some { w with messageChanges := w.messageChanges.reclaim job.key j }
    else none
  | none => none

end World

/-- One step of the preparation. -/
def World.step (limit : Nat) : Act → World → Option World
  | .call messageId, w => some (w.call limit messageId)
  | .resume, w => w.resume limit
  | .start j, w => w.start j
  | .release j, w => w.release j
  | .finish j, w => w.finish j
  | .free j, w => w.free j
  | .reclaim j, w => w.reclaim j

/-- Every interleaving of calls and their work. -/
def preparations (limit : Nat) : Machine World Act where
  step := World.step limit

/-- Every call is made when no released room is left to go on. -/
def Calm : Act → World → Prop
  | .call _, w => w.woken = []
  | _, _ => True

end OpenWA.Preparation

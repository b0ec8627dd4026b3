/-
The budget with every request in flight, and every event that reaches it:
arrivals, polls of the stall timer, the end of a body and the terminal
events of a request, in any order.

# The history

`releases` counts how often the decrement of a request has run, and
`ended` says that a terminal event has reached it or that it was dropped.
Nothing reads them.
-/
import Mathlib.Logic.Function.Basic
import OpenWA.Lib.Reach
import OpenWA.Budget.Model

namespace OpenWA.Budget

open Function (update)

/-- Why the budget cuts a request off. -/
inductive DropReason
  | stall
  | pace
  | share
  | budget
  | pool

/-- The events `release` listens to. -/
inductive Terminal
  | resFinish
  | resClose
  | resError
  | reqClose
  | reqError

/-- The counters, the requests and what has become of each. -/
structure World where
  counters : Counters
  next : Nat
  requests : Nat → Option Held
  dropped : Nat → Option DropReason
  releases : Nat → Nat
  ended : Nat → Bool

/-- Nothing is in flight. -/
def World.init : World where
  counters :=
    { inFlightBytes := 0, anonInFlight := 0, clientInFlight := .empty }
  next := 0
  requests := fun _ => none
  dropped := fun _ => none
  releases := fun _ => 0
  ended := fun _ => false

/-- What can happen to a request. -/
inductive Act
  | arrive (req : Request) (now : Int)
  | terminal (i : Nat) (event : Terminal)
  /-- The stall timer fires. -/
  | poll (i : Nat) (complete : Bool) (received : Nat) (now : Int)
  /-- The body's `end`. -/
  | bodyEnd (i : Nat) (received : Nat)

/-- Add to every counter that covers the request. -/
def Counters.add (c : Counters) (h : Held) (delta : Int) (clients : Record Text Int) :
    Counters where
  inFlightBytes := c.inFlightBytes + delta
  anonInFlight := if h.anonymous then c.anonInFlight + delta else c.anonInFlight
  clientInFlight := clients

namespace World

/-- Request `i` is held like this. -/
def setHeld (w : World) (i : Nat) (h : Held) : World :=
  { w with requests := update w.requests i (some h) }

/-- A request is admitted: its reservation is charged. -/
def track (w : World) (h : Held) : World :=
  { w with
    counters := w.counters.add h h.reserved
      (w.counters.clientInFlight.set h.clientKey (w.counters.client h.clientKey + h.reserved))
    next := w.next + 1
    requests := update w.requests w.next (some h) }

/-- A request reaches the middleware. -/
def arrive (cfg : Config) (w : World) (req : Request) (now : Int) : World :=
  match middleware cfg w.counters req now with
  | .tracked h => w.track h
  | _ => w

/-- The client map after a release. -/
def releasedClients (c : Counters) (h : Held) : Record Text Int :=
  let busy := (c.clientInFlight.get h.clientKey).getD h.reserved - h.reserved
  if busy > 0 then c.clientInFlight.set h.clientKey busy
  else c.clientInFlight.delete h.clientKey

/-- `release`: the first call gives the reservation back. -/
def release (w : World) (i : Nat) (h : Held) : World :=
  if h.released then w
  else
    { w with
      counters := w.counters.add h (-h.reserved) (releasedClients w.counters h)
      requests := update w.requests i (some { h with released := true, armed := false })
      releases := update w.releases i (w.releases i + 1) }

/-- A terminal event of request `i`. -/
def terminal (w : World) (i : Nat) : Option World :=
  match w.requests i with
  | none => none
  | some h => some { w.release i h with ended := update w.ended i true }

/-- Release, then cut the connection. -/
def drop (w : World) (i : Nat) (h : Held) (reason : DropReason) : World :=
  { w.release i h with
    dropped := update w.dropped i (some reason)
    ended := update w.ended i true }

/-- A chunked body is priced anew. -/
def reprice (w : World) (i : Nat) (h : Held) (actual : Nat) : World :=
  { w with
    counters := w.counters.add h ((actual : Int) - h.reserved)
      (w.counters.clientInFlight.set h.clientKey
        (w.counters.client h.clientKey + ((actual : Int) - h.reserved)))
    requests := update w.requests i (some { h with reserved := actual }) }

/-- The bound a repriced request has crossed. -/
def crossed (cfg : Config) (w : World) (h : Held) : Option DropReason :=
  if w.counters.client h.clientKey > cfg.shareCap h.anonymous then some .share
  else if w.counters.inFlightBytes > cfg.budgetBytes then some .budget
  else if h.anonymous && w.counters.anonInFlight > cfg.anonPool then some .pool
  else none

/-- The reservation of a chunked body follows what was received. -/
def reconcile (cfg : Config) (w : World) (i : Nat) (h : Held)
    (complete : Bool) (received : Nat) : World :=
  if h.released || h.declared.isSome then w
  else
    let actual := capped (cfg.ceiling h.anonymous) (max cfg.undeclaredReservation received)
    if actual = h.reserved then w
    else
      let w' := w.reprice i h actual
      match crossed cfg w' h with
      | some reason =>
        if !complete && actual > h.reserved then
          w'.drop i { h with reserved := actual } reason
        else w'
      | none => w'

/-- `disarmStallReaper`. -/
def disarm (w : World) (i : Nat) : World :=
  match w.requests i with
  | some h => w.setHeld i { h with armed := false }
  | none => w

/-- The body is complete: the reservation is final and the timer stops. -/
def settle (cfg : Config) (w : World) (i : Nat) (h : Held) (received : Nat) :
    World :=
  (w.reconcile cfg i h true received).disarm i

/-- The body is behind the pace that lands its reservation in time. -/
def behind (cfg : Config) (h : Held) (received : Nat) (now : Int) : Bool :=
  let target := h.declared.getD h.reserved
  cfg.timeout > 0 && received < target
    && received * cfg.timeout < target * (now - h.admittedAt - stallTimeoutMs)

/-- The timer after the reconciliation left the request in flight. -/
def pace (cfg : Config) (w : World) (i : Nat) (h : Held) (received : Nat) (now : Int) : World :=
  if behind cfg h received now then w.drop i h .pace
  else if received ≠ h.lastReceived then
    w.setHeld i { h with
      lastReceived := received, lastProgress := now,
      armed := h.armed && !h.declared.any fun n => received ≥ n }
  else if now - h.lastProgress ≥ stallTimeoutMs then w.drop i h .stall
  else w

/-- The stall timer looks at request `i`. -/
def poll (cfg : Config) (w : World) (i : Nat) (complete : Bool)
    (received : Nat) (now : Int) : Option World :=
  match w.requests i with
  | none => none
  | some h =>
    if !h.armed then none
    else if complete then some (w.settle cfg i h received)
    else
      let w' := w.reconcile cfg i h false received
      match w'.requests i with
      | none => some w'
      | some h' =>
        if h'.released then some w'
        else some (w'.pace cfg i h' received now)

/-- The body of request `i` ends. -/
def bodyEnd (cfg : Config) (w : World) (i received : Nat) : Option World :=
  match w.requests i with
  | none => none
  | some h => some (w.settle cfg i h received)

/-- One step of the middleware. -/
def step (cfg : Config) : Act → World → Option World
  | .arrive req now, w => some (w.arrive cfg req now)
  | .terminal i _, w => w.terminal i
  | .poll i complete received now, w => w.poll cfg i complete received now
  | .bodyEnd i received, w => w.bodyEnd cfg i received

end World

/-- Every interleaving of the events of any number of requests. -/
def system (cfg : Config) : Machine World Act where
  step := World.step cfg

end OpenWA.Budget

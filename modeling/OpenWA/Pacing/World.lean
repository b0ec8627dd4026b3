/-
The governor among its callers: any number of `assertSendAllowed` calls
of one session, the rows their sends commit, the settle closures and the
clock, interleaved at the `await`s.

# The calls

A call runs through the phases `assertSendAllowed` has between its
awaits:

- `opening`: the breaker was checked, the session row is being read;
- `counting`: the day and the age are fixed, the count is being read;
- `counted`: the persisted count has been read, some time ago;
- `probing`: judged once against the daily cap, the cold probe runs;
- `probed`: the probe has answered; what is left is `judgeAndAdmit`;
- `ended`.

A call that resumes on another UTC day starts over, as the source calls
itself again. What the cold probe answers is left to the environment:
nothing proved from this machine rests on it being right.

# The history

`History` records when things happened, in steps of the run: it is what
the latency assumption is stated over and no step of the program reads
it. A term ENDS at the first step after which the clock has reached the
admission's `until`; a settle that comes later opens a new window on an
admission whose term is over, and does not un-end it.
-/
import OpenWA.Lib.Reach
import OpenWA.Pacing.Model

namespace OpenWA.Pacing

-- ======== the world

/-- Where a call stands between two awaits. -/
inductive Phase
  | opening
  | counting (dayStart : Nat)
  | counted (dayStart sentToday : Nat)
  | probing (dayStart sentToday : Nat)
  | probed (dayStart sentToday : Nat) (cold : Option ColdRead)
  | ended (v : Verdict)
deriving DecidableEq

/-- One `assertSendAllowed` call. -/
structure Call where
  chatId : Option String
  opts : Opts
  phase : Phase

/-- A row of the `messages` table, as the counts read it. -/
structure MessageRow where
  chatId : String
  outgoing : Bool
  createdAt : Nat

/-- When things happened, in steps of the run. -/
structure History where
  stepNo : Nat
  /-- The step at which a call read the persisted count. -/
  readAt : Nat → Option Nat
  /-- The step at which a call was judged for good: admitted, refused or
  let through unheld. -/
  judgedAt : Nat → Option Nat
  /-- The call an admission was taken by. -/
  admittedBy : Nat → Option Nat
  /-- Whether the admission was handed back. -/
  handedBack : Nat → Bool
  /-- The step at which the admission's row was committed. -/
  committedAt : Nat → Option Nat
  /-- The step at which the admission's own term ended. -/
  endedAt : Nat → Option Nat

/-- The service, the table, the clock and the calls. -/
structure World where
  now : Nat
  svc : Service
  rows : List MessageRow
  calls : Nat → Call
  nextCall : Nat
  /-- The `settled` flag of each settle closure. -/
  settled : Nat → Bool
  reservations : List GroupReachoutReservation
  hist : History

/-- The atomic steps of the world. -/
inductive Act
  | tick (ms : Nat)
  | start (chatId : Option String) (opts : Opts)
  | lookup (q : Nat)
  | count (q : Nat)
  | judge (q : Nat)
  | probe (q : Nat) (answer : Option ColdRead)
  | grant (q : Nat)
  | commit (a : Nat)
  | settle (a : Nat) (mayHaveSent : Bool)
  | receive (chatId : String)
  | reserve (coldChats coldCount : Nat)
  | refund (r : GroupReachoutReservation)
  | sendFailure
  | sendSuccess

/-- The session whose sends are paced: the policy, and the creation date
of its row, if it has one. -/
structure Session where
  cfg : SendPacingConfig
  createdAt : Option Nat

/-- The session's age on the day that starts at `dayStart`. -/
def Session.age (ses : Session) (dayStart : Nat) : Int := ageInDays (ses.createdAt.getD 0) dayStart

/-- The session's allowance on the day that starts at `dayStart`. -/
def Session.allowance (ses : Session) (dayStart : Nat) : Nat :=
  allowanceForAge ses.cfg.warmupSchedule (ses.age dayStart)

/-- The session's cold allowance on that day. -/
def Session.coldAllowance (ses : Session) (dayStart : Nat) : Nat :=
  allowanceForAge ses.cfg.coldSchedule (ses.age dayStart)

/-- The count `assertSendAllowed` reads: outgoing rows created on or
after `dayStart`. -/
def countSince (rows : List MessageRow) (dayStart : Nat) : Nat :=
  rows.countP fun r => r.outgoing && decide (dayStart ≤ r.createdAt)

-- ======== the steps

/-- Update one point of a function. -/
def put {β : Type} (f : Nat → β) (i : Nat) (b : β) : Nat → β :=
  fun j => if j = i then b else f j

/-- Close a step: record the terms the clock has reached, and count the
step. -/
def World.close (w : World) : World :=
  { w with hist := { w.hist with
      stepNo := w.hist.stepNo + 1
      endedAt := fun a =>
        if (w.hist.endedAt a).isNone ∧ a < w.svc.next ∧ (w.svc.heap a).untilMs ≤ (w.now : ℕ∞)
        then some w.hist.stepNo else w.hist.endedAt a } }

/-- Move a call to another phase. -/
def World.setPhase (w : World) (q : Nat) (p : Phase) : World :=
  { w with calls := put w.calls q { w.calls q with phase := p } }

/-- End a call with a verdict. -/
def World.endCall (w : World) (q : Nat) (v : Verdict) : World :=
  { (w.setPhase q (.ended v)) with
    hist := { w.hist with
      judgedAt := put w.hist.judgedAt q (some w.hist.stepNo) } }

/-- The day check before both judgements: a call that resumes on another
day starts over. -/
def World.restart (ses : Session) (w : World) (q : Nat) : World :=
  match assertBreakerClosed w.now ses.cfg w.svc with
  | (svc, some r) => { w with svc := svc }.endCall q (.refused r)
  | (svc, none) => { w with svc := svc }.setPhase q .opening

/-- The first judgement of a counted call. -/
def World.judge (ses : Session) (w : World) (q dayStart sentToday : Nat) :
    World :=
  if startOfUtcDay w.now ≠ dayStart then w.restart ses q
  else
    match assertUnderDailyCap w.now dayStart (ses.age dayStart)
        (ses.allowance dayStart) sentToday w.svc with
    | (svc, some r) => { w with svc := svc }.endCall q (.refused r)
    | (svc, none) =>
      { w with svc := svc }.setPhase q (.probing dayStart sentToday)

/-- The second judgement, with the admission. -/
def World.grant (ses : Session) (w : World) (q dayStart sentToday : Nat)
    (cold : Option ColdRead) : World :=
  if startOfUtcDay w.now ≠ dayStart then w.restart ses q
  else
    let c := w.calls q
    match judgeAndAdmit w.now dayStart (ses.age dayStart)
        (ses.allowance dayStart) sentToday cold c.chatId c.opts w.svc with
    | (svc, .admitted a) =>
      let w := { w with svc := svc }.endCall q (.admitted a)
      { w with
        settled := put w.settled a false
        hist := { w.hist with
          admittedBy := put w.hist.admittedBy a (some q) } }
    | (svc, v) => { w with svc := svc }.endCall q v

/-- The chat an admission was taken for. -/
def World.chatOf (w : World) (a : Nat) : String :=
  ((w.hist.admittedBy a).bind fun q => (w.calls q).chatId).getD ""

/-- One step of the world, before `close`. A row is committed at most
once per admission and never for one handed back; a send that wrote its
row is not handed back. -/
def World.act (ses : Session) (w : World) : Act → Option World
  | .tick ms => some { w with now := w.now + ms }
  | .start chatId opts =>
    let q := w.nextCall
    let w := { w with
      calls := put w.calls q ⟨chatId, opts, .opening⟩
      nextCall := q + 1 }
    if ses.cfg.enabled then some (w.restart ses q)
    else some (w.endCall q .unheld)
  | .lookup q =>
    match (w.calls q).phase with
    | .opening =>
      if q < w.nextCall then
        match ses.createdAt with
        | none => some (w.endCall q .unheld)
        | some _ => some (w.setPhase q (.counting (startOfUtcDay w.now)))
      else none
    | _ => none
  | .count q =>
    match (w.calls q).phase with
    | .counting d =>
      if q < w.nextCall then
        let w := w.setPhase q (.counted d (countSince w.rows d))
        some { w with hist := { w.hist with
          readAt := put w.hist.readAt q (some w.hist.stepNo) } }
      else none
    | _ => none
  | .judge q =>
    match (w.calls q).phase with
    | .counted d n =>
      if q < w.nextCall then some (w.judge ses q d n) else none
    | _ => none
  | .probe q answer =>
    match (w.calls q).phase with
    | .probing d n =>
      if q < w.nextCall then some (w.setPhase q (.probed d n answer))
      else none
    | _ => none
  | .grant q =>
    match (w.calls q).phase with
    | .probed d n cold =>
      if q < w.nextCall then some (w.grant ses q d n cold) else none
    | _ => none
  | .commit a =>
    if (w.hist.admittedBy a).isSome ∧ w.hist.committedAt a = none ∧ w.hist.handedBack a = false then
      some { w with
        rows := w.rows ++ [⟨w.chatOf a, true, w.now⟩]
        hist := { w.hist with
          committedAt := put w.hist.committedAt a (some w.hist.stepNo) } }
    else none
  | .settle a mayHaveSent =>
    if a < w.svc.next then
      if w.settled a then some w
      else if mayHaveSent then
        some { w with
          svc := settle w.now a true w.svc
          settled := put w.settled a true }
      else if w.hist.committedAt a = none then
        some { w with
          svc := settle w.now a false w.svc
          settled := put w.settled a true
          hist := { w.hist with
            handedBack := put w.hist.handedBack a true } }
      else none
    else none
  | .receive chatId =>
    some { w with rows := w.rows ++ [⟨chatId, false, w.now⟩] }
  | .reserve coldChats coldCount =>
    let d := startOfUtcDay w.now
    match reserveReachouts w.now d (ses.age d) (ses.coldAllowance d) coldChats coldCount w.svc with
    | (svc, .inl r) =>
      some { w with svc := svc, reservations := r :: w.reservations }
    | (svc, .inr _) => some { w with svc := svc }
  | .refund r =>
    if r ∈ w.reservations then
      some { w with
        svc := refundGroupReachouts r w.svc
        reservations := w.reservations.erase r }
    else none
  | .sendFailure =>
    some { w with svc := recordSendFailure w.now ses.cfg w.svc }
  | .sendSuccess =>
    some { w with svc := recordSendSuccess ses.cfg w.svc }

/-- The governor's machine. -/
def pacing (ses : Session) : Machine World Act where
  step a w := (w.act ses a).map World.close

-- ======== starts and latency

/-- A moment at which the run of a day may begin: no call is in flight,
nothing has happened yet, and what the service still holds was admitted
on an earlier day. -/
structure Fresh (w : World) : Prop where
  calls : w.nextCall = 0
  hold : ∀ h ∈ w.svc.hold, h.dayStartMs ≠ startOfUtcDay w.now
  held : ∀ a ∈ w.svc.held, a < w.svc.next
  stepNo : w.hist.stepNo = 0
  readAt : ∀ q, w.hist.readAt q = none
  judgedAt : ∀ q, w.hist.judgedAt q = none
  admittedBy : ∀ a, w.hist.admittedBy a = none
  handedBack : ∀ a, w.hist.handedBack a = false
  committedAt : ∀ a, w.hist.committedAt a = none
  endedAt : ∀ a, w.hist.endedAt a = none

/-- The latency the hold is built on: whenever an admission's row was
committed, every check that had read its count before that commit was
judged before that admission's own term ended. -/
def Latency (w : World) : Prop :=
  ∀ q < w.nextCall, ∀ a < w.svc.next,
    ∀ r ∈ w.hist.readAt q, ∀ k ∈ w.hist.committedAt a, r < k →
      ∀ j ∈ w.hist.judgedAt q, ∀ e ∈ w.hist.endedAt a, j < e

instance (w : World) : Decidable (Latency w) := by
  unfold Latency
  infer_instance

end OpenWA.Pacing

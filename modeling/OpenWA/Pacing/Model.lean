/-
The send governor (src/modules/message/send-pacing.service.ts): the
per-session memory of `SendPacingService` and the synchronous pieces its
async methods are made of.

# Shape of the embedding

The service is single-threaded: between two `await`s a method runs
alone. Each such piece is one function here — `heldAdmissions`,
`assertUnderDailyCap`, `assertUnderColdCap`, `admit`, `settle`, the group
tally — over the record `Service`, and `Pacing/World.lean` interleaves
the pieces of any number of calls.

An admission is an object the hold's array and the caller's settle
closure share, so it lives in a heap (`Service.heap`) and the hold keeps
references. A dropped admission is still reachable through its closure:
settling it later writes the heap and finds no array entry to remove,
exactly as `indexOf` answers `-1`.

Times are epoch milliseconds; an end of term may be `Infinity`, so ends
are `ℕ∞`. Logging, metrics and the audit sampling of refusals decide
nothing and are left out; a refusal keeps its rule, its retry hint and
its message.
-/
import Mathlib.Data.ENat.Basic

namespace OpenWA.Pacing

-- ======== constants

/-- `DAY_MS`. -/
def dayMs : Nat := 86400000

/-- `ADMISSION_WINDOW_MS`. -/
def admissionWindowMs : Nat := 10000

/-- `UNSETTLED_ADMISSION_MAX_MS`. -/
def unsettledAdmissionMaxMs : Nat := 5 * 60000

/-- `startOfUtcDay`: days are whole multiples of `dayMs` since the
epoch. -/
def startOfUtcDay (at' : Nat) : Nat := at' / dayMs * dayMs

/-- `SendPacingConfig`. -/
structure SendPacingConfig where
  enabled : Bool
  warmupSchedule : List Nat
  coldSchedule : List Nat
  breakerThreshold : Nat
  breakerCooldownMs : Nat
deriving DecidableEq

/-- `allowanceForAge`: the schedule's entry for this age, saturating at
both ends. Reading past an empty schedule gives `undefined`, against
which no count is smaller; `0` refuses the same way. -/
def allowanceForAge (schedule : List Nat) (ageDays : Int) : Nat :=
  schedule.getD (min (max ageDays 0).toNat (schedule.length - 1)) 0

/-- Whole days between the session's creation day and `dayStart`. -/
def ageInDays (createdAt dayStart : Nat) : Int :=
  ((dayStart : Int) - startOfUtcDay createdAt) / dayMs

-- ======== the records

/-- `BreakerState`. -/
structure BreakerState where
  consecutiveFailures : Nat
  openedAt : Option Nat

/-- The `cold` part of an admission. -/
structure Cold where
  key : String
  coldToday : Option Nat
deriving DecidableEq

/-- `Admission`; `untilMs` is the source's `until`. -/
structure Admission where
  untilMs : ℕ∞
  unsettled : Bool
  heldUntil : ℕ∞
  sentToday : Option Nat
  cold : Option Cold

/-- `AdmissionHold`: the admissions in the order they were admitted, as
heap references. -/
structure AdmissionHold where
  dayStartMs : Nat
  admissions : List Nat

/-- A day's group-add reachouts. -/
structure GroupTally where
  dayStartMs : Nat
  count : Nat

/-- `GroupReachoutReservation`. -/
structure GroupReachoutReservation where
  coldCount : Nat
  dayStartMs : Nat
deriving DecidableEq

/-- `SendPacingRefusalReason`. -/
inductive RefusalReason
  | dailyCap | coldDailyCap | breakerOpen
deriving Repr, DecidableEq

/-- What `refuse` throws: the rule, the retry hint and the message of
the 429. -/
structure Refusal where
  rule : RefusalReason
  retryAfterSeconds : Nat
  message : String
deriving Repr, DecidableEq

/-- What the service remembers about one session, with the heap its
admissions live in. -/
structure Service where
  breaker : Option BreakerState
  groupReachoutTally : Option GroupTally
  hold : Option AdmissionHold
  heap : Nat → Admission
  next : Nat

/-- The references the hold's array lists; none when there is no
hold. -/
def Service.held (s : Service) : List Nat := (s.hold.map AdmissionHold.admissions).getD []

/-- `for (const a of list) f(a)` over distinct heap objects. -/
def forEach (l : List Nat) (f : Admission → Admission) (heap : Nat → Admission) : Nat → Admission :=
  fun i => if i ∈ l then f (heap i) else heap i

/-- Write one heap object. -/
def setAt (heap : Nat → Admission) (i : Nat) (a : Admission) : Nat → Admission :=
  fun j => if j = i then a else heap j

/-- The later of two ends. -/
def later (a b : ℕ∞) : ℕ∞ := if a < b then b else a

/-- The earlier of two ends. -/
def earlier (a b : ℕ∞) : ℕ∞ := if a < b then a else b

-- ======== retry hints

/-- `Math.ceil(ms / 1000)`, at least one second. -/
def ceilSeconds (ms : Nat) : Nat := max 1 ((ms + 999) / 1000)

/-- `secondsUntilLapsed`: an admission still unsettled is hinted as if
it settled now. -/
def secondsUntilLapsed (now : Nat) (holdEnds : List ℕ∞) : Nat :=
  let last : Nat := holdEnds.foldl
    (fun m e =>
      max m (earlier e ((now + admissionWindowMs : Nat) : ℕ∞)).toNat) now
  ceilSeconds (last - now)

/-- `secondsUntilNextUtcDay`. -/
def secondsUntilNextUtcDay (now : Nat) : Nat := ceilSeconds (startOfUtcDay now + dayMs - now)

-- ======== the hold

/-- The day change inside `heldAdmissions`: preparations and engine
calls still running are carried over with their counts forgotten, the
completed sends of an earlier day are dropped. -/
def rollover (now dayStart : Nat) (heap : Nat → Admission)
    (h : AdmissionHold) : (Nat → Admission) × AdmissionHold :=
  if h.dayStartMs = dayStart then (heap, h)
  else
    let kept := h.admissions.filter fun i =>
      (heap i).untilMs = ⊤ ∨ ((heap i).unsettled ∧ (now : ℕ∞) < (heap i).untilMs)
    (forEach kept
      (fun a => { a with
        sentToday := none
        cold := a.cold.map fun c => { c with coldToday := none } }) heap,
     { dayStartMs := dayStart, admissions := kept })

/-- The cold terms lapse as a whole, once no cold admission's own term
is running. -/
def lapseCold (now : Nat) (l : List Nat) (heap : Nat → Admission) : Nat → Admission :=
  if l.any fun i => (heap i).cold.isSome && decide ((now : ℕ∞) < (heap i).untilMs)
  then heap
  else forEach l (fun a => { a with cold := none }) heap

/-- The newest-first pass that keeps an admission held while the next
one is: the written heap and the head's `heldUntil` (`0` past the
end). -/
def refreshHeldUntil (heap : Nat → Admission) : List Nat → (Nat → Admission) × ℕ∞
  | [] => (heap, 0)
  | i :: rest =>
    let (heap', after) := refreshHeldUntil heap rest
    let e := later (heap' i).untilMs after
    (setAt heap' i { heap' i with heldUntil := e }, e)

/-- `heldAdmissions`: today's held admissions, oldest first. A hold
whose oldest admission is no longer held is deleted as a whole. -/
def heldAdmissions (now dayStart : Nat) (s : Service) : Service × List Nat :=
  match s.hold with
  | none => (s, [])
  | some h₀ =>
    let (heap₁, h) := rollover now dayStart s.heap h₀
    let heap₂ := lapseCold now h.admissions heap₁
    let (heap₃, oldest) := refreshHeldUntil heap₂ h.admissions
    if h.dayStartMs = dayStart ∧ (now : ℕ∞) < oldest then
      ({ s with heap := heap₃, hold := some h }, h.admissions)
    else ({ s with heap := heap₃, hold := none }, [])

-- ======== the two caps

/-- `a.sentToday ??= persisted`. -/
def fillSentToday (persisted : Nat) (a : Admission) : Admission :=
  { a with sentToday := some (a.sentToday.getD persisted) }

/-- The reduce of `assertUnderDailyCap`: the larger of the persisted
count and, for every held admission, the count it read plus the
admissions held from it on. -/
def judgedSentToday (persisted : Nat) (heap : Nat → Admission) (held : List Nat) : Nat :=
  held.zipIdx.foldl
    (fun m p =>
      max m ((heap p.1).sentToday.getD persisted + (held.length - p.2)))
    persisted

/-- `assertUnderDailyCap`: the service after it, and the refusal when
the judged count has reached the allowance. -/
def assertUnderDailyCap (now dayStart : Nat) (ageDays : Int)
    (allowance persisted : Nat) (s : Service) :
    Service × Option Refusal :=
  let (s, held) := heldAdmissions now dayStart s
  let sentToday := judgedSentToday persisted s.heap held
  let s := { s with heap := forEach held (fillSentToday persisted) s.heap }
  if sentToday < allowance then (s, none)
  else
    let retryAfter :=
      if persisted < allowance then
        secondsUntilLapsed now (held.map fun i => (s.heap i).heldUntil)
      else secondsUntilNextUtcDay now
    (s, some {
      rule := .dailyCap
      retryAfterSeconds := retryAfter
      message := s!"Daily send allowance of {allowance} reached for a session {ageDays} day(s) old" })

/-- The loop of `chatReachoutsToday`, newest first: the written heap,
the distinct cold chats so far and the running maximum. -/
def chatReachoutsLoop (persisted : Nat) :
    List Nat → (Nat → Admission) × List String × Nat → (Nat → Admission) × List String × Nat
  | [], acc => acc
  | i :: older, (heap, chats, count) =>
    match (heap i).cold with
    | none => chatReachoutsLoop persisted older (heap, chats, count)
    | some c =>
      let coldToday := c.coldToday.getD persisted
      let heap := setAt heap i
        { heap i with cold := some { c with coldToday := some coldToday } }
      let chats := if c.key ∈ chats then chats else c.key :: chats
      chatReachoutsLoop persisted older (heap, chats, max count (coldToday + chats.length))

/-- `chatReachoutsToday`: cold chat reachouts, persisted or held. -/
def chatReachoutsToday (now dayStart persisted : Nat) (s : Service) : Service × Nat :=
  let (s, held) := heldAdmissions now dayStart s
  let (heap, _, count) := chatReachoutsLoop persisted held.reverse (s.heap, [], persisted)
  ({ s with heap := heap }, count)

/-- `groupReachoutsToday`. -/
def groupReachoutsToday (dayStart : Nat) (s : Service) : Nat :=
  match s.groupReachoutTally with
  | some t => if t.dayStartMs = dayStart then t.count else 0
  | none => 0

/-- `addGroupReachouts`. -/
def addGroupReachouts (dayStart n : Nat) (s : Service) : Service :=
  match s.groupReachoutTally with
  | some t =>
    if t.dayStartMs = dayStart then
      let charged := { t with count := t.count + n }
      { s with groupReachoutTally := some charged }
    else { s with groupReachoutTally := some ⟨dayStart, n⟩ }
  | none => { s with groupReachoutTally := some ⟨dayStart, n⟩ }

/-- `refundGroupReachouts`: only the day it was taken from is
credited. -/
def refundGroupReachouts (r : GroupReachoutReservation) (s : Service) :
    Service :=
  if r.coldCount = 0 then s
  else
    match s.groupReachoutTally with
    | some t =>
      if t.dayStartMs = r.dayStartMs then
        let credited := { t with count := t.count - r.coldCount }
        { s with groupReachoutTally := some credited }
      else s
    | none => s

/-- The retry hint of a refusal that only held cold sends cause: it
lifts when their own terms have lapsed. -/
def secondsUntilColdLapsed (now dayStart : Nat) (s : Service) : Service × Nat :=
  let (s, held) := heldAdmissions now dayStart s
  let terms := (held.filter fun i => (s.heap i).cold.isSome).map fun i =>
    (s.heap i).untilMs
  (s, secondsUntilLapsed now terms)

/-- What `readColdReachouts` answers for a cold send. -/
structure ColdRead where
  allowance : Nat
  coldToday : Nat
deriving DecidableEq

/-- `assertUnderColdCap`. -/
def assertUnderColdCap (now dayStart : Nat) (ageDays : Int)
    (cold : ColdRead) (s : Service) : Service × Option Refusal :=
  let groupToday := groupReachoutsToday dayStart s
  let (s, chats) := chatReachoutsToday now dayStart cold.coldToday s
  if chats + groupToday < cold.allowance then (s, none)
  else
    let (s, retryAfter) :=
      if cold.coldToday + groupToday < cold.allowance then
        secondsUntilColdLapsed now dayStart s
      else (s, secondsUntilNextUtcDay now)
    (s, some {
      rule := .coldDailyCap
      retryAfterSeconds := retryAfter
      message := s!"Daily allowance of {cold.allowance} new conversation(s) reached for a session {ageDays} day(s) old" })

-- ======== admission

/-- The options of `assertSendAllowed`. -/
structure Opts where
  hold : Bool
  untilSettled : Bool
  whilePreparing : Bool
deriving DecidableEq

/-- `chatId.replace(pattern, replacement)` on characters: the first
occurrence only. -/
def replaceFirst (pattern replacement : List Char) : List Char → List Char
  | [] => []
  | c :: rest =>
    if pattern.isPrefixOf (c :: rest) then
      replacement ++ (c :: rest).drop pattern.length
    else c :: replaceFirst pattern replacement rest

/-- `coldChatKey`: the two user dialects of a contact fold to one
key. -/
def coldChatKey (chatId : String) : String :=
  String.ofList (replaceFirst "@s.whatsapp.net".toList "@c.us".toList chatId.toList)

/-- The end of the term an admission starts with. -/
def initialTerm (now : Nat) (opts : Opts) : ℕ∞ :=
  if opts.whilePreparing then ⊤
  else ((now + if opts.untilSettled then unsettledAdmissionMaxMs
    else admissionWindowMs : Nat) : ℕ∞)

/-- Push a new admission on today's hold, opening one when there is
none for the day. -/
def pushAdmission (dayStart : Nat) (a : Admission) (s : Service) :
    Service :=
  let hold := match s.hold with
    | some h =>
      if h.dayStartMs = dayStart then
        { h with admissions := h.admissions ++ [s.next] }
      else ⟨dayStart, [s.next]⟩
    | none => ⟨dayStart, [s.next]⟩
  { s with hold := some hold, heap := setAt s.heap s.next a, next := s.next + 1 }

/-- What the synchronous tail of `assertSendAllowed` ends in: a refusal,
a return without an admission, or the admission held. -/
inductive Verdict
  | refused (r : Refusal)
  | unheld
  | admitted (a : Nat)
deriving DecidableEq

/-- The cold stage of that tail: a chat already held as cold is the same
reachout again, not a new one. -/
def judgeCold (now dayStart : Nat) (ageDays : Int) (key : String)
    (cold : Option ColdRead) (s : Service) : Service × Option Refusal :=
  match cold with
  | none => (s, none)
  | some c =>
    let (s, held) := heldAdmissions now dayStart s
    if held.any fun i => (s.heap i).cold.any fun c' => c'.key = key
    then (s, none)
    else assertUnderColdCap now dayStart ageDays c s

/-- The tail of `assertSendAllowed` after its last `await`: judged
again, and admitted, in one piece. -/
def judgeAndAdmit (now dayStart : Nat) (ageDays : Int)
    (allowance sentToday : Nat) (cold : Option ColdRead)
    (chatId : Option String) (opts : Opts) (s : Service) :
    Service × Verdict :=
  match assertUnderDailyCap now dayStart ageDays allowance sentToday s with
  | (s, some r) => (s, .refused r)
  | (s, none) =>
    match chatId with
    -- a status post writes no row, so it is not held either
    | none => (s, .unheld)
    | some chatId =>
      let key := coldChatKey chatId
      match judgeCold now dayStart ageDays key cold s with
      | (s, some r) => (s, .refused r)
      | (s, none) =>
        if opts.hold then
          let until' := initialTerm now opts
          (pushAdmission dayStart {
              untilMs := until'
              unsettled := opts.untilSettled
              heldUntil := until'
              sentToday := some sentToday
              cold := cold.map fun c => ⟨key, some c.coldToday⟩ } s,
           .admitted s.next)
        else (s, .unheld)

/-- The first call of the settle closure of admission `a`; later calls
are no-ops, which the caller's `settled` flag decides. -/
def settle (now : Nat) (a : Nat) (mayHaveSent : Bool) (s : Service) :
    Service :=
  if mayHaveSent then
    { s with heap := setAt s.heap a { s.heap a with
        unsettled := false
        untilMs := ((now + admissionWindowMs : Nat) : ℕ∞) } }
  else
    let heap := setAt s.heap a { s.heap a with
      unsettled := false, untilMs := 0, heldUntil := 0 }
    match s.hold with
    | none => { s with heap := heap }
    | some h =>
      if a ∈ h.admissions then
        let left := h.admissions.erase a
        { s with
          heap := heap
          hold := if left = [] then none
            else some { h with admissions := left } }
      else { s with heap := heap }

-- ======== the breaker

/-- `assertBreakerClosed`: a breaker whose cooldown is served is
dropped. -/
def assertBreakerClosed (now : Nat) (cfg : SendPacingConfig)
    (s : Service) : Service × Option Refusal :=
  match s.breaker.bind BreakerState.openedAt with
  | none => (s, none)
  | some openedAt =>
    let elapsed := now - openedAt
    if cfg.breakerCooldownMs ≤ elapsed then
      ({ s with breaker := none }, none)
    else
      (s, some {
        rule := .breakerOpen
        retryAfterSeconds := (cfg.breakerCooldownMs - elapsed + 999) / 1000
        message := "Sends are paused after a run of consecutive send failures" })

/-- `recordSendFailure`. -/
def recordSendFailure (now : Nat) (cfg : SendPacingConfig) (s : Service) : Service :=
  if cfg.enabled then
    let b := s.breaker.getD ⟨0, none⟩
    let failures := b.consecutiveFailures + 1
    let openedAt :=
      if b.openedAt.isNone ∧ cfg.breakerThreshold ≤ failures then some now
      else b.openedAt
    { s with breaker := some ⟨failures, openedAt⟩ }
  else s

/-- `recordSendSuccess`: a success ends the streak and closes the
breaker. -/
def recordSendSuccess (cfg : SendPacingConfig) (s : Service) : Service :=
  if cfg.enabled then { s with breaker := none } else s

-- ======== group reachouts

/-- The synchronous tail of `assertReachoutAllowed`: judge the batch
against the day's cold budget and reserve it on the group tally. -/
def reserveReachouts (now dayStart : Nat) (ageDays : Int)
    (allowance coldChats coldCount : Nat) (s : Service) :
    Service × (GroupReachoutReservation ⊕ Refusal) :=
  let groupToday := groupReachoutsToday dayStart s
  let (s, chats) := chatReachoutsToday now dayStart coldChats s
  let usedToday := chats + groupToday
  if usedToday + coldCount ≤ allowance then
    (addGroupReachouts dayStart coldCount s, .inl ⟨coldCount, dayStart⟩)
  else
    let (s, retryAfter) :=
      if coldChats + groupToday + coldCount ≤ allowance then
        secondsUntilColdLapsed now dayStart s
      else (s, secondsUntilNextUtcDay now)
    (s, .inr {
      rule := .coldDailyCap
      retryAfterSeconds := retryAfter
      message := s!"Reaching {coldCount} new contact(s) would exceed the daily allowance of {allowance} new conversation(s) for a session {ageDays} day(s) old ({usedToday} already used)" })

end OpenWA.Pacing

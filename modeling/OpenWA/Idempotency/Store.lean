/-
The `Idempotency-Key` store (`send-idempotency.service.ts`) and the
decisions of its interceptor (`send-idempotency.interceptor.ts`).

# The table

One row per key a client sent on a send route, `UNIQUE(sessionId,
idempotencyKey)`: the uniqueness is a field of `Table`, and `insert`
answers `none` for a unique violation. Ids stand for UUIDs. Dates are
instants in milliseconds.

# Bodies

A response body is a value of `β`, or `none` for a handler that returned
nothing: `responseBody ?? null` stores both the same, and both are sent
as an empty answer.
-/
import OpenWA.Lib.Text
import Mathlib.Data.List.Nodup

namespace OpenWA.Idempotency

variable {β : Type}

/-- How long a key stays bound to its first send. -/
def sendIdempotencyTtlMs : Nat := 24 * 60 * 60 * 1000

/-- A pending row older than this is reported as outcome-unknown. -/
def sendIdempotencyStalePendingMs : Nat := 10 * 60 * 1000

/-- The most characters of a session id worth a claim. -/
def claimableSessionIdMaxLength : Nat := 255

/-- `/^[\x21-\x7E]{1,255}$/`. -/
def isValidIdempotencyKey (key : Text) : Bool :=
  0 < key.length && key.length ≤ 255 && key.all fun c => 0x21 ≤ c.toNat && c.toNat ≤ 0x7e

-- ======== the table

/-- The state of a row. -/
inductive SendIdempotencyState
  | pending
  | completed
  | failed
deriving DecidableEq

/-- A row of `send_idempotency_keys`. -/
structure SendIdempotencyKey (β : Type) where
  id : Nat
  sessionId : Text
  idempotencyKey : Text
  route : Text
  requestHash : Text
  state : SendIdempotencyState
  responseBody : Option β
  expiresAt : Nat

/-- What the unique index is on. -/
def SendIdempotencyKey.pair (r : SendIdempotencyKey β) : Text × Text :=
  (r.sessionId, r.idempotencyKey)

/-- The table, with its unique index. -/
structure Table (β : Type) where
  rows : List (SendIdempotencyKey β)
  unique : (rows.map (·.pair)).Nodup

namespace Table

/-- INSERT; `none` is the unique violation. -/
def insert (t : Table β) (r : SendIdempotencyKey β) : Option (Table β) :=
  if h : t.rows.any (·.pair = r.pair) = true then none
  else some
    { rows := r :: t.rows
      unique := List.nodup_cons.2 ⟨fun hr => h (by simpa using hr), t.unique⟩ }

/-- `findOne({ where: { sessionId, idempotencyKey } })`. -/
def findOne (t : Table β) (pair : Text × Text) : Option (SendIdempotencyKey β) :=
  t.rows.find? (·.pair = pair)

/-- DELETE of the rows that satisfy the condition. -/
def delete (t : Table β) (p : SendIdempotencyKey β → Bool) : Table β where
  rows := t.rows.filter fun r => !p r
  unique := t.unique.sublist (List.filter_sublist.map _)

/-- The row with the new state, if it is the one addressed. -/
def setRow (id : Nat) (state : SendIdempotencyState)
    (body : Option (Option β)) (r : SendIdempotencyKey β) :
    SendIdempotencyKey β :=
  if r.id = id then
    { r with state, responseBody := body.getD r.responseBody }
  else r

theorem pair_comp_setRow (id : Nat) (state : SendIdempotencyState)
    (body : Option (Option β)) : (·.pair) ∘ setRow id state body = (·.pair) := by
  funext r
  show (setRow id state body r).pair = r.pair
  unfold setRow
  split <;> rfl

/-- UPDATE of the state, and of the body where one is given, by id. -/
def update (t : Table β) (id : Nat) (state : SendIdempotencyState)
    (body : Option (Option β)) : Table β where
  rows := t.rows.map (setRow id state body)
  unique := by
    rw [List.map_map, pair_comp_setRow]
    exact t.unique

/-- `complete`. -/
def complete (t : Table β) (id : Nat) (responseBody : Option β) : Table β :=
  t.update id .completed (some responseBody)

/-- `release`. -/
def release (t : Table β) (id : Nat) : Table β := t.delete fun r => r.id = id && r.state = .pending

/-- `markFailed`. -/
def markFailed (t : Table β) (id : Nat) : Table β := t.update id .failed none

/-- `pruneExpired`. -/
def pruneExpired (t : Table β) (now : Nat) : Table β := t.delete fun r => r.expiresAt < now

end Table

-- ======== the claim

/-- What `claim` answers. -/
inductive SendIdempotencyClaim (β : Type)
  | claimed (id : Nat)
  | replay (body : Option β)
  | mismatch
  | inProgress
  | outcomeUnknown
deriving DecidableEq

/-- `classify`. -/
def classify (row : SendIdempotencyKey β) (requestHash : Text)
    (now : Nat) : SendIdempotencyClaim β :=
  if row.requestHash ≠ requestHash then .mismatch
  else if row.state = .completed then .replay row.responseBody
  else if row.state = .failed then .outcomeUnknown
  else
    let claimedAt : Int := row.expiresAt - sendIdempotencyTtlMs
    if (now : Int) - claimedAt > sendIdempotencyStalePendingMs then
      .outcomeUnknown
    else .inProgress

-- ======== the interceptor

/-- What a thrown value is to `sendFailureProvesNothingSent`. -/
structure SendError where
  /-- `provesNothingSent`: an `EngineNotSentError`, or marked so. -/
  provesNothingSent : Bool
  /-- An `EngineThrottledError`. -/
  throttled : Bool
  /-- `isEngineSendFailure`: it escaped an engine send. -/
  engineSendFailure : Bool
  /-- The status of an `HttpException`. -/
  httpStatus : Option Nat
deriving DecidableEq

/-- `sendFailureProvesNothingSent(error)`. -/
def sendFailureProvesNothingSent (error : SendError) : Bool :=
  if error.provesNothingSent || error.throttled then true
  else if error.engineSendFailure then false
  else error.httpStatus.any fun status => status < 500 || status = 501

/-- How a handler execution ended. -/
inductive Outcome (β : Type)
  | returned (body : Option β)
  | failed (error : SendError)
deriving DecidableEq

/-- The write `settle` makes for an outcome. -/
def Table.settle (t : Table β) (id : Nat) : Outcome β → Table β
  | .returned body => t.complete id body
  | .failed error =>
    if sendFailureProvesNothingSent error then t.release id
    else t.markFailed id

/-- The `Idempotency-Key` header of a request. -/
inductive Header
  | absent
  | one (key : Text)
  | several
deriving DecidableEq

/-- What the interceptor does with a request. -/
inductive Interception
  /-- The handler runs, nothing is read or written. -/
  | pass
  /-- 400 `IDEMPOTENCY_KEY_INVALID`. -/
  | refuse
  | claim (key : Text)
deriving DecidableEq

/-- `intercept`, up to the claim. -/
def intercept (header : Header) (sessionId : Text) : Interception :=
  match header with
  | .absent => .pass
  | .several => .refuse
  | .one key =>
    if !isValidIdempotencyKey key then .refuse
    else if sessionId.length > claimableSessionIdMaxLength then .pass
    else .claim key

end OpenWA.Idempotency

/-
The API-key mutations of any number of requests and nodes, interleaved
at their awaits.

# The calls

A call first reads its row (`findOne`), then builds one statement from
the request alone and the reading of its node's clock, then runs it, then
— when the statement touched nothing — reads the row again to say why.
Anything may happen between two of these. `guardNow` is whatever the
node's clock shows when the statement is built; the clocks of two nodes
need not agree, and nothing below assumes it.

`create` is a single INSERT of a row with a fresh id.
-/
import OpenWA.Lib.Reach
import OpenWA.Auth.ApiKeys

namespace OpenWA.Auth

/-- A request that can take an admin away. -/
inductive Request
  | update (id : Text) (dto : UpdateApiKeyDto)
  | delete (id : Text)
  | revoke (id : Text)
deriving DecidableEq

/-- The key a request is about. -/
def Request.id : Request → Text
  | .update id _ => id
  | .delete id => id
  | .revoke id => id

/-- The statement a request issues, built at the clock reading `now`. -/
def Request.statement (parseDate : Text → Option Nat) (r : Request)
    (now : Nat) : Except HttpError Statement :=
  match r with
  | .update id dto => Auth.update parseDate id dto now
  | .delete id => .ok (Auth.delete id now)
  | .revoke id => .ok (Auth.revoke id now)

/-- Where a call stands between two awaits. -/
inductive Phase
  | found
  | bound (s : Statement)
  | applied (s : Statement) (affected : Nat)
  | ended (answer : Except HttpError Unit)
deriving DecidableEq

/-- A request and how far it has got. -/
structure Call where
  request : Request
  phase : Phase

/-- The table and the calls. -/
structure World where
  keys : KeyTable
  calls : List Call

/-- The atomic steps. -/
inductive Act
  /-- `createApiKey`: the INSERT. -/
  | create (id : Text) (dto : CreateApiKeyDto)
  /-- A request arrives and its pre-read finds the row. -/
  | request (r : Request)
  /-- The call builds its statement. -/
  | bind (i : Nat) (guardNow : Nat)
  /-- The statement runs. -/
  | execute (i : Nat)
  /-- The statement's outcome is judged. -/
  | settle (i : Nat)

/-- Call `i` is now here. -/
def World.setPhase (w : World) (i : Nat) (phase : Phase) : World :=
  { w with calls := w.calls.modify i fun c => { c with phase } }

/-- The INSERT; a key that is taken violates the primary key. -/
def KeyTable.insert (keys : KeyTable) (k : ApiKey) : Option KeyTable :=
  if h : keys.rows.any (·.id = k.id) = true then none
  else some
    { rows := k :: keys.rows
      ids_nodup := List.nodup_cons.2 ⟨fun hk => h (by simpa using hk), keys.ids_nodup⟩ }

section Machine

variable (parseDate : Text → Option Nat)

/-- `create`: the row is inserted. -/
def World.create (w : World) (id : Text) (dto : CreateApiKeyDto) : Option World :=
  match createApiKey parseDate id dto with
  | .ok k => (w.keys.insert k).map fun keys => { w with keys }
  | .error _ => none

/-- The pre-read: a row that is not there ends the call at once. -/
def World.request (w : World) (r : Request) : Option World :=
  match findOne w.keys r.id with
  | .ok _ =>
    some { w with calls := w.calls ++ [{ request := r, phase := .found }] }
  | .error _ => none

/-- The call has its statement, with the guard's time bound. -/
def World.bind (w : World) (i guardNow : Nat) : Option World :=
  match w.calls[i]? with
  | some { request, phase := .found } =>
    match request.statement parseDate guardNow with
    | .ok s => some (w.setPhase i (.bound s))
    | .error e => some (w.setPhase i (.ended (.error e)))
  | _ => none

/-- The statement runs. -/
def World.execute (w : World) (i : Nat) : Option World :=
  match w.calls[i]? with
  | some { phase := .bound s, .. } =>
    some { w.setPhase i (.applied s (s.affected w.keys)) with
           keys := s.execute w.keys }
  | _ => none

/-- The call is answered by the rows affected. -/
def World.settle (w : World) (i : Nat) : Option World :=
  match w.calls[i]? with
  | some { phase := .applied s affected, .. } =>
    some (w.setPhase i (.ended (s.answer w.keys affected)))
  | _ => none

/-- The service among its callers. -/
def service : Machine World Act where
  step a w :=
    match a with
    | .create id dto => w.create parseDate id dto
    | .request r => w.request r
    | .bind i guardNow => w.bind parseDate i guardNow
    | .execute i => w.execute i
    | .settle i => w.settle i

end Machine

/-- A table and no call yet. -/
def World.start (keys : KeyTable) : World where
  keys := keys
  calls := []

end OpenWA.Auth

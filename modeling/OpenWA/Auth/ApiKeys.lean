/-
The API-key mutations of `auth.service.ts`: create, update, delete and
revoke, as the SQL statements they issue.

# The guard lives in the statement

A mutation that could take the last admin away is one UPDATE or DELETE
whose WHERE clause carries the last-admin guard: the row is touched only
if it is not a usable admin, or (for an expiry pushed later) if it
expires no later than the new date, or if another usable admin outlasts
it. `lastAdminGuard` is that clause, evaluated row by row on the table
the statement finds; `Statement.execute` is the statement, atomic.

# Columns

`allowedIps`, `allowedSessions` and `allowedChats` are `simple-array`
columns: NULL, or the entries joined by commas — an empty list is the
empty text. Dates are instants in milliseconds, so that comparing them is
comparing chronologically. The hash, the prefix and the usage columns of
a row decide nothing here and are left out.
-/
import OpenWA.Security.ChatScope

namespace OpenWA.Auth

open Security (normalizeChatAllowList)

-- ======== the rows

/-- The role of a key. -/
inductive ApiKeyRole
  | admin
  | operator
  | viewer
deriving DecidableEq

/-- A row of `api_keys`, as stored. -/
structure ApiKey where
  id : Text
  name : Text
  role : ApiKeyRole
  allowedIps : Option Text
  allowedSessions : Option Text
  allowedChats : Option Text
  isActive : Bool
  expiresAt : Option Nat
deriving DecidableEq

/-- The table; `id` is its primary key. -/
structure KeyTable where
  rows : List ApiKey
  ids_nodup : (rows.map (·.id)).Nodup

/-- What a `simple-array` column stores for a list. -/
def simpleArray (list : Option (List Text)) : Option Text := list.map (List.intercalate [','])

-- ======== the requests

/-- A property of a request body: absent, `null`, or there. -/
inductive Field (α : Type)
  | undefined
  | null
  | value (a : α)
deriving DecidableEq

/-- `f ?? null`. -/
def Field.toOption {α : Type} : Field α → Option α
  | .value a => some a
  | _ => none

/-- The body of a create request. -/
structure CreateApiKeyDto where
  name : Text
  role : Field ApiKeyRole
  allowedIps : Field (List Text)
  allowedSessions : Field (List Text)
  allowedChats : Field (List Text)
  expiresAt : Field Text

/-- The body of an update request. -/
structure UpdateApiKeyDto where
  name : Field Text
  role : Field ApiKeyRole
  allowedIps : Field (List Text)
  allowedSessions : Field (List Text)
  allowedChats : Field (List Text)
  expiresAt : Field Text
deriving DecidableEq

/-- What a mutation answers instead of a result. -/
inductive HttpError
  | badRequest (message : Text)
  | notFound (message : Text)
  | conflict (message : Text)
deriving DecidableEq

/-- `normalizeScopeList`: trimmed, without blanks; NULL when nothing is
left. -/
def normalizeScopeList (list : Option (List Text)) : Option (List Text) :=
  match list with
  | none => none
  | some l =>
    let cleaned := (l.map Text.trim).filter (· ≠ [])
    if cleaned = [] then none else some cleaned

/-- `(list?.length ?? 0) > 0`. -/
def restricts (list : Option (List Text)) : Bool := list.any (0 < ·.length)

section Expiry

-- `new Date(value).getTime()`, `none` for an Invalid Date
variable (parseDate : Text → Option Nat)

/-- `parseExpiry`. -/
def parseExpiry (value : Text) : Except HttpError Nat :=
  match parseDate value with
  | some date => .ok date
  | none =>
    .error (.badRequest "expiresAt is not a parseable date".toList)

/-- `dto.expiresAt ? parseExpiry(dto.expiresAt) : null`. -/
def expiryOf (expiresAt : Field Text) : Except HttpError (Option Nat) :=
  match expiresAt with
  | .value s =>
    if s = [] then .ok none else (parseExpiry parseDate s).map some
  | _ => .ok none

end Expiry

-- ======== the statements

/-- The SET list of an UPDATE: a column that is `none` is not written. -/
structure Patch where
  name : Option Text := none
  role : Option ApiKeyRole := none
  allowedIps : Option (Option Text) := none
  allowedSessions : Option (Option Text) := none
  allowedChats : Option (Option Text) := none
  isActive : Option Bool := none
  expiresAt : Option (Option Nat) := none
deriving DecidableEq

/-- The row after the SET list has been written to it. -/
def Patch.apply (p : Patch) (k : ApiKey) : ApiKey where
  id := k.id
  name := p.name.getD k.name
  role := p.role.getD k.role
  allowedIps := p.allowedIps.getD k.allowedIps
  allowedSessions := p.allowedSessions.getD k.allowedSessions
  allowedChats := p.allowedChats.getD k.allowedChats
  isActive := p.isActive.getD k.isActive
  expiresAt := p.expiresAt.getD k.expiresAt

/-- `column = '' OR column IS NULL`. -/
def unscoped (column : Option Text) : Bool := column = some [] || column = none

/-- `usableAdminCondition`, at `guardNow`. An IP allowlist does not make
an admin unusable. -/
def usableAdminCondition (guardNow : Nat) (k : ApiKey) : Bool :=
  k.role = .admin && k.isActive
    && k.expiresAt.all (guardNow < ·)
    && unscoped k.allowedSessions
    && unscoped k.allowedChats

/-- `OUTLASTS_TARGET`. -/
def outlastsTarget (other target : ApiKey) : Bool :=
  match other.expiresAt, target.expiresAt with
  | none, _ => true
  | some o, some t => t ≤ o
  | some _, none => false

/-- What `withLastAdminGuard` binds. -/
structure Guard where
  guardNow : Nat
  extendsTo : Option Nat
deriving DecidableEq

/-- The clause `withLastAdminGuard` adds, on the row `k` of a table with
the rows `rows`. -/
def lastAdminGuard (g : Guard) (rows : List ApiKey) (k : ApiKey) : Bool :=
  !usableAdminCondition g.guardNow k
    || g.extendsTo.any (fun e => k.expiresAt.any (· ≤ e))
    || rows.any fun other =>
      other.id ≠ k.id && usableAdminCondition g.guardNow other && outlastsTarget other k

/-- The write a request makes to its row. -/
inductive Write
  | update (patch : Patch)
  | delete
deriving DecidableEq

/-- A single-row UPDATE or DELETE, guarded or not. -/
structure Statement where
  id : Text
  write : Write
  guard : Option Guard
deriving DecidableEq

namespace Statement

/-- The WHERE clause. -/
def selects (s : Statement) (rows : List ApiKey) (k : ApiKey) : Bool :=
  k.id = s.id && s.guard.all fun g => lastAdminGuard g rows k

/-- The rows after the statement. -/
def rowsAfter (s : Statement) (rows : List ApiKey) : List ApiKey :=
  match s.write with
  | .update patch =>
    rows.map fun k => if s.selects rows k then patch.apply k else k
  | .delete => rows.filter fun k => !s.selects rows k

theorem rowsAfter_ids_sublist (s : Statement) (rows : List ApiKey) :
    ((s.rowsAfter rows).map (·.id)).Sublist (rows.map (·.id)) := by
  unfold rowsAfter
  split
  next patch _ =>
    rw [List.map_map]
    have hid : ∀ k ∈ rows, ((·.id) ∘ fun k =>
        if s.selects rows k then patch.apply k else k) k = k.id := by
      intro k _
      show (if s.selects rows k then patch.apply k else k).id = k.id
      split <;> rfl
    have hids := List.map_congr_left hid
    exact hids ▸ List.Sublist.refl _
  next => exact List.filter_sublist.map _

/-- The statement, run on the table. -/
def execute (s : Statement) (keys : KeyTable) : KeyTable where
  rows := s.rowsAfter keys.rows
  ids_nodup := keys.ids_nodup.sublist (s.rowsAfter_ids_sublist keys.rows)

/-- `result.affected`. -/
def affected (s : Statement) (keys : KeyTable) : Nat := keys.rows.countP (s.selects keys.rows)

end Statement

-- ======== the mutations

/-- The SET list `update` builds. -/
def UpdateApiKeyDto.patch (dto : UpdateApiKeyDto) (expiry : Option Nat) : Patch where
  name := dto.name.toOption.filter (· ≠ [])
  role := dto.role.toOption
  allowedIps :=
    if dto.allowedIps = .undefined then none
    else some (simpleArray dto.allowedIps.toOption)
  allowedSessions :=
    if dto.allowedSessions = .undefined then none
    else some (simpleArray (normalizeScopeList dto.allowedSessions.toOption))
  allowedChats :=
    if dto.allowedChats = .undefined then none
    else some (simpleArray (normalizeChatAllowList dto.allowedChats.toOption))
  expiresAt := if dto.expiresAt = .undefined then none else some expiry

/-- `stripsAdmin`. -/
def UpdateApiKeyDto.stripsAdmin (dto : UpdateApiKeyDto) : Bool :=
  (dto.role ≠ .undefined && dto.role ≠ .value .admin)
    || restricts (normalizeScopeList dto.allowedSessions.toOption)
    || restricts (normalizeChatAllowList dto.allowedChats.toOption)

/-- The statement of `update`, bound at the clock reading `now`: guarded
if the change strips the key or sets an expiry, and let through on its
own if it only pushes an expiry later; otherwise
`applyUnguardedUpdate`. -/
def update (parseDate : Text → Option Nat) (id : Text)
    (dto : UpdateApiKeyDto) (now : Nat) : Except HttpError Statement := do
  let expiry ← expiryOf parseDate dto.expiresAt
  let patch := dto.patch expiry
  if dto.stripsAdmin || expiry.isSome then
    return { id, write := .update patch
             guard := some { guardNow := now
                             extendsTo := if dto.stripsAdmin then none
                               else expiry } }
  else
    return { id, write := .update patch, guard := none }

/-- The statement of `delete`. -/
def delete (id : Text) (now : Nat) : Statement where
  id := id
  write := .delete
  guard := some { guardNow := now, extendsTo := none }

/-- The statement of `revoke`. -/
def revoke (id : Text) (now : Nat) : Statement where
  id := id
  write := .update { isActive := some false }
  guard := some { guardNow := now, extendsTo := none }

/-- The row `createApiKey` inserts. -/
def createApiKey (parseDate : Text → Option Nat) (id : Text)
    (dto : CreateApiKeyDto) : Except HttpError ApiKey := do
  let expiresAt ← expiryOf parseDate dto.expiresAt
  return { id
           name := dto.name
           role := dto.role.toOption.getD .operator
           allowedIps := simpleArray dto.allowedIps.toOption
           allowedSessions := simpleArray (normalizeScopeList dto.allowedSessions.toOption)
           allowedChats := simpleArray (normalizeChatAllowList dto.allowedChats.toOption)
           isActive := true
           expiresAt }

/-- `findOne`. -/
def findOne (keys : KeyTable) (id : Text) : Except HttpError ApiKey :=
  match keys.rows.find? (·.id = id) with
  | some k => .ok k
  | none =>
    .error (.notFound ("API key with id '".toList ++ id ++ "' not found".toList))

/-- `assertMutationApplied`: an unaffected row that is still there was
refused by the guard. -/
def assertMutationApplied (keys : KeyTable) (id : Text) (affected : Nat) :
    Except HttpError Unit := do
  if affected ≠ 0 then return
  let _ ← findOne keys id
  throw (.conflict ("Cannot remove the last active admin key: ".toList
    ++ "no other admin key lasts as long".toList))

/-- What follows a statement that ran: a guarded one is asserted; an
unguarded one that touched nothing re-reads the row, which is gone. -/
def Statement.answer (s : Statement) (keys : KeyTable) (affected : Nat) : Except HttpError Unit :=
  if s.guard.isSome then assertMutationApplied keys s.id affected
  else if affected = 0 then (findOne keys s.id).map fun _ => ()
  else .ok ()

end OpenWA.Auth

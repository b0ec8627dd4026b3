/-
The chat fence of an API key: `src/common/security/chat-scope.ts`, with
the check of a stored entry, `src/modules/auth/dto/is-chat-id.validator.ts`.

# Two paths, one relation

The guard asks about one id: it expands the id through the lid table and
looks for any form of it in the allowlist's literal forms. A list
endpoint asks about many: it expands the allowlist through the table once
and looks up the literal forms of each row. `ContactDirectory` and
`ChatScopeDirectory` are the two faces of the one table, `LidTable`.

A set of ids is a list here: only membership is ever asked. The lookups
are awaited in the source and answer at once here.
-/
import OpenWA.Identity.WaId

namespace OpenWA.Security

open Text Identity

-- ======== the lid table

/-- The `lid_mappings` table: one phone for a lid, any number of lids for
a phone. -/
structure LidTable where
  rows : List (Text × Text)
  unique : (rows.map Prod.fst).Nodup

/-- The phone of a lid. -/
def LidTable.phoneFor (t : LidTable) (lid : Text) : Option Text := t.rows.lookup lid

/-- The lids of a phone. -/
def LidTable.lidsFor (t : LidTable) (phone : Text) : List Text :=
  (t.rows.filter fun r => r.2 = phone).map Prod.fst

/-- The table as the guard reads it. -/
def LidTable.directory (t : LidTable) : ContactDirectory where
  resolveLid := t.phoneFor
  lidsForPhone := t.lidsFor

/-- `ChatScopeDirectory`: the batched lookups of the list path. -/
structure ChatScopeDirectory where
  phonesForLids : List Text → List (Text × Option Text)
  lidsForPhones : List Text → List (Text × List Text)

/-- The table as a list filter reads it. -/
def LidTable.batched (t : LidTable) : ChatScopeDirectory where
  phonesForLids lids := lids.map fun lid => (lid, t.phoneFor lid)
  lidsForPhones phones := phones.map fun phone => (phone, t.lidsFor phone)

-- ======== the scope

/-- `isChatScopeRestricted`. -/
def isChatScopeRestricted (allowedChats : Option (List Text)) : Bool :=
  (allowedChats.getD []).length > 0

/-- A bare number becomes `<digits>@c.us`. -/
def qualify (entry : Text) : Text :=
  if isNumericId entry then entry ++ "@c.us".toList else entry

/-- `normalizeChatAllowList`: trimmed, without blanks, qualified. -/
def normalizeChatAllowList (list : Option (List Text)) : Option (List Text) :=
  match list with
  | none => none
  | some l =>
    let cleaned := (l.map trim).filter (· ≠ [])
    let qualified := (cleaned.map qualify).eraseDups
    if qualified = [] then none else some qualified

/-- `addressForms`: the stored forms of an id, by dialect only. -/
def addressForms (chatId : Text) : List Text :=
  let parsed := parseWaId chatId
  match parsed.kind with
  | .user => userForms parsed.userPart
  | .lid => [parsed.userPart ++ "@lid".toList]
  | .group => [parsed.userPart ++ "@g.us".toList]
  | _ => []

/-- `ChatScope`: the ids a key may reach; `none` is unrestricted. -/
abbrev ChatScope := Option (List Text)

/-- `buildChatScope`. -/
def buildChatScope (allowedChats : Option (List Text)) : ChatScope :=
  if isChatScopeRestricted allowedChats then
    some (((normalizeChatAllowList allowedChats).getD []).flatMap addressForms)
  else none

/-- `chatScopeAllows`: membership by literal form. -/
def chatScopeAllows (scope : ChatScope) (chatId : Text) : Bool :=
  match scope with
  | none => true
  | some allowed => (addressForms chatId).any fun form => allowed.contains form

/-- `chatIdAllowed`: the guard's question. -/
def chatIdAllowed (scope : ChatScope) (chatId : Text)
    (directory : Option ContactDirectory) : Bool :=
  match scope with
  | none => true
  | some allowed =>
    (resolveJidCandidates chatId directory).any fun candidate =>
      allowed.contains candidate

/-- The user parts of the entries of one kind. -/
def partsOfKind (kind : WaIdKind) (entries : List Text) : List Text :=
  ((entries.map fun e => parseWaId e).filter fun p => p.kind = kind).map (·.userPart)

/-- `buildExpandedChatScope`: the allowlist expanded with the table. -/
def buildExpandedChatScope (allowedChats : Option (List Text))
    (directory : Option ChatScopeDirectory) : ChatScope :=
  match buildChatScope allowedChats, directory with
  | none, _ => none
  | some allowed, none => some allowed
  | some allowed, some directory =>
    let entries := (normalizeChatAllowList allowedChats).getD []
    let lidToPhone := directory.phonesForLids (partsOfKind .lid entries)
    let phoneToLids := directory.lidsForPhones (partsOfKind .user entries)
    some (allowed
      ++ lidToPhone.flatMap (fun r => resolvedForms r.2)
      ++ phoneToLids.flatMap fun r => r.2.map (· ++ "@lid".toList))

/-- `filterByChatScope`. -/
def filterByChatScope {α : Type} (scope : ChatScope) (items : List α)
    (chatIdOf : α → Option Text) : List α :=
  match scope with
  | none => items
  | some allowed => items.filter fun item =>
    (chatIdOf item).any fun id => chatScopeAllows (some allowed) id

-- ======== stored entries

/-- `/^\d+(?:-\d+)?$/`: the user part of a group id. -/
def isGroupUserPart (s : Text) : Bool :=
  match s.splitOn '-' with
  | [a] => a ≠ [] && a.all Char.isDigit
  | [a, b] => (a ≠ [] && a.all Char.isDigit) && (b ≠ [] && b.all Char.isDigit)
  | _ => false

/-- `isChatId`: what an entry of an allowlist may be. -/
def isChatId (value : Text) : Bool :=
  let trimmed := trim value
  if trimmed = [] ∨ trimmed ≠ value ∨ ',' ∈ trimmed then false
  else if isNumericId trimmed then true
  else
    match trimmed.splitOn '@' with
    | [address, domain] =>
      let user := (address.splitOn ':').headD []
      let domain := toLowerCase domain
      if domain = "g.us".toList then isGroupUserPart user
      else if domain = "c.us".toList ∨ domain = "s.whatsapp.net".toList ∨ domain = "lid".toList then
        isNumericId user
      else false
    | _ => false

end OpenWA.Security

/-
WhatsApp ids: `src/engine/identity/wa-id.ts`, and their expansion to
every form of one entity, `src/engine/identity/jid-candidates.ts`.

# One entity, many spellings

A user is written `<phone>@c.us`, `<phone>@s.whatsapp.net` or
`<phone>@hosted`, a privacy id `<lid>@lid` or `<lid>@hosted.lid`, in any
case, with or without a `:device`. `parseWaId` reads all of them as a
kind and a user part. A lid's digits are no phone number: the two are
tied by the lid table only, which is the `ContactDirectory`.
-/
import OpenWA.Lib.Text

namespace OpenWA.Identity

open Text

-- ======== parseWaId

/-- `WaIdKind`. -/
inductive WaIdKind where
  | user
  | group
  | lid
  | status
  | newsletter
  | broadcast
  | unknown
  deriving DecidableEq

/-- `DOMAIN_KINDS`. -/
def domainKinds : List (Text × WaIdKind) :=
  [ ("c.us".toList, .user),
    ("s.whatsapp.net".toList, .user),
    ("lid".toList, .lid),
    ("hosted".toList, .user),
    ("hosted.lid".toList, .lid),
    ("g.us".toList, .group),
    ("newsletter".toList, .newsletter),
    ("broadcast".toList, .broadcast) ]

/-- `ParsedWaId`, without the original text. -/
structure ParsedWaId where
  kind : WaIdKind
  userPart : Text
  device : Option Text := none
  deriving DecidableEq

/-- `parseWaId`: classify any id into its kind and parts. -/
def parseWaId (jid : Text) (lowerCase : Text → Text := toLowerCase) : ParsedWaId :=
  let lower := lowerCase (trim jid)
  if lower = "status@broadcast".toList then
    { kind := .status, userPart := "status".toList }
  else
    match lower.splitOn '@' with
    | [_] => { kind := .unknown, userPart := lower }
    | [address, domain] =>
      let parts := address.splitOn ':'
      let localPart := parts.headD []
      if localPart = [] then { kind := .unknown, userPart := [] }
      else
        { kind := (domainKinds.lookup domain).getD .unknown,
          userPart := localPart, device := parts[1]? }
    -- more than one `@`
    | _ => { kind := .unknown, userPart := [] }

/-- `/^\d{5,}$/`: a phone number or a lid without its domain. -/
def isNumericId (s : Text) : Bool := 5 ≤ s.length && s.all Char.isDigit

/-- `isIndividualWid`. -/
def isIndividualWid (value : Text) (lowerCase : Text → Text := toLowerCase) : Bool :=
  let parsed := parseWaId (trim value) lowerCase
  (parsed.kind == .user || parsed.kind == .lid) && isNumericId parsed.userPart

/-- `toNeutralJid`: an id in the neutral dialect; `resolvePhone` knows
the phone behind some lids. -/
def toNeutralJid (jid : Text) (resolvePhone : Text → Option Text := fun _ => none)
    (lowerCase : Text → Text := toLowerCase) : Text :=
  if jid = [] then jid
  else
    let parsed := parseWaId jid lowerCase
    match parsed.kind with
    | .user => parsed.userPart ++ "@c.us".toList
    | .group => parsed.userPart ++ "@g.us".toList
    | .lid =>
      match resolvePhone jid with
      | some (c :: rest) => (c :: rest) ++ "@c.us".toList
      | _ => parsed.userPart ++ "@lid".toList
    | .status => "status@broadcast".toList
    | .newsletter => parsed.userPart ++ "@newsletter".toList
    | .broadcast => parsed.userPart ++ "@broadcast".toList
    | .unknown => jid

/-- `toParticipantWid`. -/
def toParticipantWid (value : Text) (lowerCase : Text → Text := toLowerCase) : Text :=
  let trimmed := trim value
  if isNumericId trimmed then trimmed ++ "@c.us".toList
  else if isIndividualWid trimmed lowerCase then
    toNeutralJid trimmed (fun _ => none) lowerCase
  else trimmed

-- ======== jid candidates

/-- `ContactDirectory`: the phone a lid resolves to, and the lids of a
phone. -/
structure ContactDirectory where
  resolveLid : Text → Option Text
  lidsForPhone : Text → List Text

/-- The two user dialects of a phone. -/
def userForms (phone : Text) : List Text :=
  [phone ++ "@c.us".toList, phone ++ "@s.whatsapp.net".toList]

/-- `resolved ? [...] : []`: the user dialects of a phone, if there is
one. -/
def resolvedForms : Option Text → List Text
  | some (c :: rest) => userForms (c :: rest)
  | _ => []

/-- `resolveJidCandidates`: every form of the entity an id names. -/
def resolveJidCandidates (value : Text) (directory : Option ContactDirectory) : List Text :=
  let parsed := parseWaId value
  match parsed.kind with
  | .group => [parsed.userPart ++ "@g.us".toList]
  | .lid =>
    (parsed.userPart ++ "@lid".toList) ::
      resolvedForms (directory.bind fun d => d.resolveLid parsed.userPart)
  | .status | .newsletter | .broadcast => [value]
  | kind =>
    -- only a bare number is qualified into the user dialects
    if kind = .unknown ∧ '@' ∈ value then [value]
    else
      value :: userForms parsed.userPart
        ++ ((directory.map fun d => d.lidsForPhone parsed.userPart).getD []).map
            (· ++ "@lid".toList)

end OpenWA.Identity

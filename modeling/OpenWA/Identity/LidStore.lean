/-
The lid store of one process (`engine/identity/lid-mapping-store.service.ts`):
the capped mirror of the `lid_mappings` table and the bookkeeping of the
writes that have not settled.

# What is kept

The forward mirror `lidToPhone` in the order of its last uses, the marks
`unreported` and `failedWrites`, the sets of counted sessions (`seenBy`,
compared by reference), the unsettled writes (one shared record per lid,
compared by reference too) and the sets that guard a warm-up. The reverse
mirror `phoneToLids` is the forward one read backwards, so it is computed
(`lidsForPhone`). The checks for a second lid and the warnings are left out:
no lookup reads them.

A lid, a phone and a session are numbers here; the code treats their texts
as opaque. `null` is a phone that is known to be unresolved.
-/
import Mathlib.Logic.Function.Basic
import OpenWA.Lib.Record

namespace OpenWA.Lid

open Function (update)

/-- A row of `lid_mappings`. -/
structure Row where
  phone : Option Nat
  sessionId : Option Nat
  isReported : Bool
  updatedAt : Nat

/-- A write operation, named by its call, and the phone it brings. -/
structure Operation where
  call : Nat
  phone : Option Nat
deriving DecidableEq

/-- The record the overlapping writes of one lid share. -/
structure Writing where
  count : Nat
  latestReport : Option Nat
  latestOperation : Option Operation

/-- The maps of the store, sets and counters by reference. -/
structure Store where
  maxCachedLids : Nat
  lidToPhone : Record Nat (Option Nat)
  unreported : Nat → Bool
  /-- The set counting the reporters of a lid's phone, by reference. -/
  seenBy : Nat → Option Nat
  seen : Nat → List Nat
  nextSeen : Nat
  failedWrites : Nat → Bool
  /-- The unsettled writes of a lid, by reference. -/
  unsettledWrites : Nat → Option Nat
  writing : Nat → Writing
  nextWriting : Nat
  /-- Oldest first. -/
  absentFromTable : List Nat
  pendingLookups : Nat → Bool
  racedLookups : Nat → Bool

namespace Store

variable (s : Store)

/-- A store that holds nothing. -/
def init (maxCachedLids : Nat) : Store where
  maxCachedLids := maxCachedLids
  lidToPhone := Record.empty
  unreported := fun _ => false
  seenBy := fun _ => none
  seen := fun _ => []
  nextSeen := 0
  failedWrites := fun _ => false
  unsettledWrites := fun _ => none
  writing := fun _ => { count := 0, latestReport := none, latestOperation := none }
  nextWriting := 0
  absentFromTable := []
  pendingLookups := fun _ => false
  racedLookups := fun _ => false

/-- `lidToPhone.get(lid)`: nothing, `null` or a phone. -/
def cached (lid : Nat) : Option (Option Nat) := s.lidToPhone.get lid

/-- `unstored(lid)`. -/
def unstored (lid : Nat) : Bool := (s.unsettledWrites lid).isSome || s.failedWrites lid

/-- `rowPhone(lid, phone, isReported)`. -/
def rowPhone (lid : Nat) (row : Row) : Option Nat :=
  if !row.isReported || (s.unreported lid && s.unstored lid) then none
  else
    match s.cached lid with
    | some phone => if s.unstored lid && phone ≠ row.phone then none else row.phone
    | none => row.phone

/-- What the mirror answers when the table cannot be read. -/
def mirrored (lid : Nat) : Option Nat :=
  if s.unreported lid then none else (s.cached lid).join

/-- `lidsForPhone(phone)`. -/
def lidsForPhone (phone : Nat) : List Nat :=
  (s.lidToPhone.entries.filter fun e =>
    e.2 = some phone && !s.unreported e.1).map Prod.fst

-- ======== the mirror

/-- The least recently used entry goes, with the marks of its lid. -/
def evictOldest : Store :=
  match s.lidToPhone.entries with
  | [] => s
  | (oldest, _) :: _ =>
    { s with
      lidToPhone := s.lidToPhone.delete oldest
      unreported := update s.unreported oldest false
      seenBy := update s.seenBy oldest none
      failedWrites := update s.failedWrites oldest false
      writing :=
        match s.unsettledWrites oldest with
        | some ref =>
          update s.writing ref
            { s.writing ref with latestReport := none, latestOperation := none }
        | none => s.writing }

/-- The `n` oldest entries leave. -/
def evict : Nat → Store → Store
  | 0, s => s
  | n + 1, s => evict n s.evictOldest

/-- `evictIfOverCap()`: the entries past the cap, none if there is no cap. -/
def evictIfOverCap : Store :=
  if s.maxCachedLids = 0 then s
  else evict (s.lidToPhone.size - s.maxCachedLids) s

/-- Set an entry as the most recently used. -/
def place (lid : Nat) (phone : Option Nat) : Record Nat (Option Nat) :=
  (s.lidToPhone.delete lid).set lid phone

/-- The set `index` leaves for the lid: the one there if the phone is the
same and was reported, else a new one. -/
def reporters (lid : Nat) (phone : Option Nat) (isReported : Bool) : Nat × Store :=
  match s.seenBy lid with
  | some ref =>
    if isReported && !s.unreported lid && s.cached lid = some phone then (ref, s)
    else (s.nextSeen, { s with nextSeen := s.nextSeen + 1
                               seen := update s.seen s.nextSeen [] })
  | none =>
    (s.nextSeen, { s with nextSeen := s.nextSeen + 1
                          seen := update s.seen s.nextSeen [] })

/-- `seen.add(session)`. -/
def count (ref : Nat) (session : Option Nat) : Store :=
  match session with
  | some id => { s with seen := update s.seen ref (id :: s.seen ref) }
  | none => s

/-- `index(lid, phone, sessionId, isReported)`. -/
def index (lid : Nat) (phone : Option Nat) (session : Option Nat) (isReported : Bool) : Store :=
  let (ref, s₁) := s.reporters lid phone isReported
  let s₂ := if isReported then s₁.count ref session else s₁
  evictIfOverCap
    { s₂ with
      unreported := update s.unreported lid (!isReported)
      seenBy := update s.seenBy lid (if phone.isSome then some ref else none)
      lidToPhone := s.place lid phone
      absentFromTable := s.absentFromTable.filter (· ≠ lid) }

/-- `noteAbsent(lid)`: skipped without a cap, the oldest dropped past it. -/
def noteAbsent (lid : Nat) : Store :=
  if s.maxCachedLids = 0 then s
  else
    let noted := if lid ∈ s.absentFromTable then s.absentFromTable
      else s.absentFromTable ++ [lid]
    { s with absentFromTable := noted.drop (noted.length - s.maxCachedLids) }

-- ======== the writes

/-- `beginWrite(lid, operation, actual)`: the shared record and the store. -/
def beginWrite (lid : Nat) (operation : Operation) (actual : Bool) : Nat × Store :=
  let ref := (s.unsettledWrites lid).getD s.nextWriting
  let fresh : Writing := { count := 0, latestReport := none, latestOperation := none }
  let shared := if (s.unsettledWrites lid).isSome then s.writing ref else fresh
  let latest := if actual then some operation.call else shared.latestReport
  (ref,
    { s with
      unsettledWrites := update s.unsettledWrites lid (some ref)
      writing := update s.writing ref
        { count := shared.count + 1
          latestReport := latest
          latestOperation := some operation }
      nextWriting :=
        if (s.unsettledWrites lid).isSome then s.nextWriting else s.nextWriting + 1
      racedLookups :=
        if s.pendingLookups lid then update s.racedLookups lid true
        else s.racedLookups })

/-- `endWrite(lid, writing)`. -/
def endWrite (lid ref : Nat) : Store :=
  if s.unsettledWrites lid ≠ some ref then s
  else
    let shared := s.writing ref
    let s₁ : Store :=
      { s with writing := update s.writing ref { shared with count := shared.count - 1 } }
    if shared.count - 1 > 0 then s₁
    else { s₁ with unsettledWrites := update s.unsettledWrites lid none }

/-- `clear` drops the entry of a lid whose row it emptied. -/
def drop (lid : Nat) : Store :=
  { s with
    lidToPhone := s.lidToPhone.delete lid
    unreported := update s.unreported lid false
    seenBy := update s.seenBy lid none
    failedWrites := update s.failedWrites lid false
    absentFromTable := s.absentFromTable.filter (· ≠ lid) }

/-- `reload` with the rows read, newest first. -/
def reloadWith (rows : List (Nat × Row)) : Store :=
  let writing := fun ref =>
    { s.writing ref with latestReport := none, latestOperation := none }
  let cleared : Store :=
    { s with
      lidToPhone := Record.empty
      unreported := fun _ => false
      seenBy := fun _ => none
      failedWrites := fun _ => false
      writing := writing
      absentFromTable := [] }
  rows.reverse.foldl (fun st e => st.index e.1 e.2.phone e.2.sessionId e.2.isReported) cleared

end Store

end OpenWA.Lid

/-
The lid store at work: reports, display lookups, fence lookups, warm-ups,
reloads and releases, several at a time, over the shared table.

# Statements and replies

A statement is one atomic step (`exec`) or is refused (`fail`), at some time
after it was issued; what the store does with the answer is a later step
(`reply`). The part of a call before its first statement runs when it is
called. No other process writes the table.
-/
import Mathlib.Data.List.Sort
import OpenWA.Identity.LidStore
import OpenWA.Lib.Reach

namespace OpenWA.Lid

open Function (update)

/-- A `remember` under way. -/
structure Report where
  lid : Nat
  phone : Option Nat
  session : Option Nat
  seen : Bool
  reporters : Option Nat
  writing : Nat
  updatedAt : Nat

/-- A `rememberIfUnknown` under way. -/
structure Offer where
  lid : Nat
  phone : Nat
  session : Option Nat
  reporters : Option Nat
  writing : Nat
  updatedAt : Nat

/-- What an operation answers. -/
inductive Answer
  | nothing
  | phone (lid : Nat) (phone : Option Nat)
  | phones (out : Nat → Option Nat)
  | lids (out : Nat → List Nat)

/-- How far an operation has got. -/
inductive Phase
  | unused
  -- `remember` of a phone
  | storing (r : Report)
  | stored (r : Report)
  | checking (r : Report) (operation : Option Operation)
  | checked (r : Report) (operation : Option Operation) (row : Option Row)
  -- `remember` of `null`: the two statements of `clear`
  | emptying (r : Report)
  | emptied (r : Report)
  | clearing (r : Report)
  | cleared (r : Report) (affected : Bool)
  | refused (r : Report)
  -- `rememberIfUnknown`
  | offering (o : Offer)
  | offered (o : Offer)
  | revoking (o : Offer)
  | revoked (o : Offer) (affected : Bool)
  | offerRefused (o : Offer)
  -- `findPhoneForLid`
  | findingPhone (lid : Nat)
  | foundPhone (lid : Nat) (row : Option Row)
  | phoneRefused (lid : Nat)
  -- `phonesForLidsPersisted`, batch by batch
  | findingPhones (out : Nat → Option Nat) (batch : List Nat) (rest : List (List Nat))
  | foundPhones (out : Nat → Option Nat) (batch : List Nat) (rest : List (List Nat))
      (rows : Nat → Option Row)
  | phonesRefused (out : Nat → Option Nat)
  -- `lidsForPhonesPersisted`, batch by batch
  | findingLids (phones : List Nat) (out : Nat → List Nat) (batch : List Nat)
      (rest : List (List Nat))
  | foundLids (phones : List Nat) (out : Nat → List Nat) (rest : List (List Nat))
      (rows : List (Nat × Row))
  | lidsRefused (phones : List Nat)
  -- `warmFromTable`
  | warming (lid : Nat) (writeInFlight : Bool)
  | warmed (lid : Nat) (writeInFlight : Bool) (row : Option Row)
  | warmRefused (lid : Nat)
  -- `reload`
  | reloading
  | reloaded (rows : List (Nat × Row))
  | reloadRefused
  -- `releaseSession`
  | releasing (session : Nat)
  | done (answer : Answer)

/-- The operation has not begun. -/
def Phase.isUnused : Phase → Bool
  | .unused => true
  | _ => false

/-- The store, the table and the operations on them. -/
structure World where
  now : Nat
  store : Store
  table : Record Nat Row
  /-- Sessions that exist and have a phone. -/
  linked : Nat → Bool
  phase : Nat → Phase

/-- A store over this table, nothing begun. -/
def World.init (maxCachedLids : Nat) (table : Record Nat Row) : World where
  now := 0
  store := Store.init maxCachedLids
  table := table
  linked := fun _ => false
  phase := fun _ => .unused

/-- What can happen, one step each. -/
inductive Act
  | tick
  | link (session : Nat) (linked : Bool)
  | remember (j lid : Nat) (phone session : Option Nat)
  | rememberIfUnknown (j lid phone : Nat) (session : Option Nat)
  | findPhoneForLid (j lid : Nat)
  | phonesForLidsPersisted (j : Nat) (lids : List Nat)
  | lidsForPhonesPersisted (j : Nat) (phones : List Nat)
  /-- A display lookup through the mirror. -/
  | getCached (j lid : Nat)
  | reload (j : Nat)
  | releaseSession (j session : Nat)
  | exec (j : Nat)
  | fail (j : Nat)
  /-- `spare` names the warm-up the step may start. -/
  | reply (j spare : Nat)

/-- `chunk(items)`, for lists of at most `fuel` items. -/
def chunk (size : Nat) : Nat → List Nat → List (List Nat)
  | 0, _ => []
  | _ + 1, [] => []
  | fuel + 1, items => items.take size :: chunk size fuel (items.drop size)

namespace World

variable (w : World) (j : Nat)

/-- Operation `j` is now here. -/
def setPhase (p : Phase) : World := { w with phase := update w.phase j p }

/-- The store is replaced. -/
def setStore (s : Store) : World := { w with store := s }

/-- A row is written. -/
def setRow (lid : Nat) (row : Row) : World := { w with table := w.table.set lid row }

-- ======== the calls

/-- Whether a report of this phone by this session has been counted. -/
def seen (lid : Nat) (phone session : Option Nat) : Bool :=
  !w.store.unreported lid && w.store.cached lid = some phone &&
    (phone.isNone ||
      match session with
      | none => true
      | some id =>
        match w.store.seenBy lid with
        | some ref => (w.store.seen ref).contains id
        | none => false)

/-- `remember(lid, phone, sessionId)` up to its statement. -/
def remember (lid : Nat) (phone session : Option Nat) : World :=
  let seen := w.seen lid phone session
  let s₁ := if !seen && phone.isSome then w.store.index lid phone none true else w.store
  let s₂ : Store := if phone.isSome then
      { s₁ with failedWrites := update s₁.failedWrites lid true } else s₁
  let (ref, s₃) := s₂.beginWrite lid { call := j, phone := phone } true
  let r : Report :=
    { lid := lid, phone := phone, session := session, seen := seen
      reporters := s₂.seenBy lid, writing := ref, updatedAt := w.now }
  (w.setStore s₃).setPhase j (if phone.isSome then .storing r else .emptying r)

/-- `rememberIfUnknown(lid, phone, sessionId)` up to its statement. -/
def rememberIfUnknown (lid phone : Nat) (session : Option Nat) : World :=
  let s := w.store
  let differs : Bool :=
    match s.cached lid with
    | some (some known) => known ≠ phone
    | _ => false
  let s₁ : Store := if differs then
      { s with
        unreported := update s.unreported lid true
        seenBy := update s.seenBy lid (some s.nextSeen)
        seen := update s.seen s.nextSeen []
        nextSeen := s.nextSeen + 1 }
    else s
  let (ref, s₂) := s₁.beginWrite lid { call := j, phone := some phone } false
  (w.setStore s₂).setPhase j
    (.offering { lid := lid, phone := phone, session := session
                 reporters := s₁.seenBy lid, writing := ref, updatedAt := w.now })

/-- The next batch of a lookup by lids, or its answer. -/
def nextPhones (out : Nat → Option Nat) : List (List Nat) → World
  | [] => w.setPhase j (.done (.phones out))
  | batch :: rest => w.setPhase j (.findingPhones out batch rest)

/-- The answers are preset from the mirror. -/
def phonesForLidsPersisted (lids : List Nat) : World :=
  w.nextPhones j
    (fun lid => if lids.contains lid then w.store.mirrored lid else none)
    (chunk 500 lids.length lids)

/-- The next batch of a lookup by phones, or its answer. -/
def nextLids (phones : List Nat) (out : Nat → List Nat) : List (List Nat) → World
  | [] => w.setPhase j (.done (.lids out))
  | batch :: rest => w.setPhase j (.findingLids phones out batch rest)

/-- `lidsForPhonesPersisted(phones)`, in chunks of 500. -/
def lidsForPhonesPersisted (phones : List Nat) : World :=
  w.nextLids j phones (fun _ => []) (chunk 500 phones.length phones)

/-- `warmFromTable(lid)`, as operation `spare`. -/
def warmFromTable (spare lid : Nat) : World :=
  let s := w.store
  if s.pendingLookups lid || s.absentFromTable.contains lid then w
  else
    (w.setStore { s with pendingLookups := update s.pendingLookups lid true }).setPhase
      spare (.warming lid (s.unsettledWrites lid).isSome)

/-- `getCached(lid)`: a hit is used anew, a miss is warmed. -/
def getCached (spare lid : Nat) : World :=
  match w.store.cached lid with
  | some phone => w.setStore { w.store with lidToPhone := w.store.place lid phone }
  | none => w.warmFromTable spare lid

-- ======== the statements

/-- The upsert of a report, or the conditional one of a counted report. -/
def store? (r : Report) : World :=
  let row : Row :=
    { phone := r.phone, sessionId := r.session, isReported := true
      updatedAt := r.updatedAt }
  if !r.seen then w.setRow r.lid row
  else
    match w.table.get r.lid with
    | none => w.setRow r.lid row
    | some old =>
      if old.phone ≠ r.phone then w.setRow r.lid row
      else if !old.isReported then w.setRow r.lid { old with isReported := true }
      else w

/-- The row may be emptied by a negative of this session. -/
def clearable (r : Report) (row : Row) : Bool :=
  let owned :=
    match row.sessionId with
    | none => true
    | some owner => !w.linked owner || r.session = some owner
  if r.seen then row.phone.isSome && owned else row.phone.isNone || owned

/-- The statement in flight executes. -/
def exec : Option World :=
  match w.phase j with
  | .storing r => some ((w.store? r).setPhase j (.stored r))
  | .checking r operation =>
    some (w.setPhase j (.checked r operation (w.table.get r.lid)))
  | .emptying r =>
    let row : Row :=
      { phone := none, sessionId := r.session, isReported := true
        updatedAt := r.updatedAt }
    let w₁ := if (w.table.get r.lid).isNone then w.setRow r.lid row else w
    some (w₁.setPhase j (.emptied r))
  | .clearing r =>
    match w.table.get r.lid with
    | none => some (w.setPhase j (.cleared r false))
    | some row =>
      if w.clearable r row then
        let empty : Row :=
          { phone := none, sessionId := r.session, isReported := true
            updatedAt := r.updatedAt }
        some ((w.setRow r.lid empty).setPhase j (.cleared r true))
      else some (w.setPhase j (.cleared r false))
  | .offering o =>
    let row : Row :=
      { phone := some o.phone, sessionId := o.session, isReported := false
        updatedAt := o.updatedAt }
    let w₁ := if (w.table.get o.lid).isNone then w.setRow o.lid row else w
    some (w₁.setPhase j (.offered o))
  | .revoking o =>
    match w.table.get o.lid with
    | none => some (w.setPhase j (.revoked o false))
    | some row =>
      if row.isReported && row.phone.isSome && row.phone ≠ some o.phone then
        some ((w.setRow o.lid { row with isReported := false }).setPhase j (.revoked o true))
      else some (w.setPhase j (.revoked o false))
  | .findingPhone lid => some (w.setPhase j (.foundPhone lid (w.table.get lid)))
  | .findingPhones out batch rest =>
    some (w.setPhase j (.foundPhones out batch rest w.table.get))
  | .findingLids phones out batch rest =>
    let rows := w.table.entries.filter fun e =>
      match e.2.phone with
      | some phone => batch.contains phone
      | none => false
    some (w.setPhase j (.foundLids phones out rest rows))
  | .warming lid inFlight => some (w.setPhase j (.warmed lid inFlight (w.table.get lid)))
  | .reloading =>
    let newest := w.table.entries.insertionSort fun a b =>
      b.2.updatedAt ≤ a.2.updatedAt
    let cap := w.store.maxCachedLids
    some (w.setPhase j (.reloaded (if cap = 0 then newest else newest.take cap)))
  | .releasing session =>
    let release (row : Row) : Row :=
      if row.sessionId = some session then { row with sessionId := none } else row
    let table := w.table.entries.foldl (fun t e => t.set e.1 (release e.2)) w.table
    some ({ w with table := table }.setPhase j (.done .nothing))
  | _ => none

/-- The statement in flight is refused. -/
def fail : Option World :=
  match w.phase j with
  | .storing r => some (w.setPhase j (.refused r))
  -- the check reads a failure as no row
  | .checking r operation => some (w.setPhase j (.checked r operation none))
  | .emptying r => some (w.setPhase j (.refused r))
  | .clearing r => some (w.setPhase j (.refused r))
  | .offering o => some (w.setPhase j (.offerRefused o))
  | .revoking o => some (w.setPhase j (.offerRefused o))
  | .findingPhone lid => some (w.setPhase j (.phoneRefused lid))
  | .findingPhones out _ _ => some (w.setPhase j (.phonesRefused out))
  | .findingLids phones _ _ _ => some (w.setPhase j (.lidsRefused phones))
  | .warming lid _ => some (w.setPhase j (.warmRefused lid))
  | .reloading => some (w.setPhase j .reloadRefused)
  | .releasing _ => some (w.setPhase j (.done .nothing))
  | _ => none

-- ======== the replies

/-- The write settles. -/
def settle (lid ref : Nat) : World :=
  (w.setStore (w.store.endWrite lid ref)).setPhase j (.done .nothing)

/-- A stored report is taken as the lid's, if it still is the latest. -/
def conclude (r : Report) (operation : Option Operation) (reported : Bool) : World :=
  let s := w.store
  let shared := s.writing r.writing
  let current := s.seenBy r.lid = r.reporters
  let latest := reported && current && shared.latestReport = some j
    && shared.latestOperation = operation && operation.map (·.phone) = some r.phone
  let s₁ : Store := if latest then
      { s with
        failedWrites := update s.failedWrites r.lid false
        unreported := update s.unreported r.lid false }
    else s
  let s₂ :=
    match r.reporters with
    | some ref => if current then s₁.count ref r.session else s₁
    | none => s₁
  (w.setStore s₂).settle j r.lid r.writing

/-- The phones of one batch. -/
def answerPhones (out : Nat → Option Nat) (batch : List Nat)
    (rows : Nat → Option Row) : Nat → Option Nat :=
  fun lid =>
    if batch.contains lid then
      match rows lid with
      | some row => w.store.rowPhone lid row
      | none => none
    else out lid

/-- The lids of one batch. -/
def answerLids (out : Nat → List Nat) (rows : List (Nat × Row)) : Nat → List Nat :=
  fun phone =>
    out phone ++ (rows.filter fun e =>
      e.2.phone = some phone && w.store.rowPhone e.1 e.2 = some phone).map Prod.fst

/-- The operation goes on with the answer it has. -/
def reply (spare : Nat) : Option World :=
  let s := w.store
  match w.phase j with
  | .stored r =>
    let operation := (s.writing r.writing).latestOperation
    let reported := !s.unreported r.lid
    if r.reporters.isNone || s.seenBy r.lid ≠ r.reporters then
      some (w.settle j r.lid r.writing)
    else if !reported && (s.writing r.writing).latestReport = some j
        && operation.map (·.phone) = some r.phone then
      some (w.setPhase j (.checking r operation))
    else some (w.conclude j r operation reported)
  | .checked r operation row =>
    let reported :=
      match row with
      | some row => row.isReported && row.phone = r.phone
      | none => false
    some (w.conclude j r operation reported)
  | .emptied r => some (w.setPhase j (.clearing r))
  | .cleared r affected =>
    let latest := (s.unsettledWrites r.lid).bind fun ref => (s.writing ref).latestReport
    if affected && latest = some j then
      some ((w.setStore (s.drop r.lid)).settle j r.lid r.writing)
    else some (w.settle j r.lid r.writing)
  | .refused r => some (w.settle j r.lid r.writing)
  | .offered o => some (w.setPhase j (.revoking o))
  | .revoked o affected =>
    let current := (s.writing o.writing).latestOperation.map (·.call) = some j
      && s.seenBy o.lid = o.reporters
    let s₁ : Store := if affected && current && (s.cached o.lid).isSome then
        { s with unreported := update s.unreported o.lid true } else s
    let s₂ : Store :=
      { s₁ with absentFromTable := s₁.absentFromTable.filter (· ≠ o.lid) }
    some ((w.setStore s₂).settle j o.lid o.writing)
  | .offerRefused o =>
    let current := (s.writing o.writing).latestOperation.map (·.call) = some j
      && s.seenBy o.lid = o.reporters
    let s₁ : Store := if current && s.unreported o.lid then
        { s with failedWrites := update s.failedWrites o.lid true } else s
    some ((w.setStore s₁).settle j o.lid o.writing)
  | .foundPhone lid row =>
    let phone :=
      match row with
      | some row => s.rowPhone lid row
      | none => none
    some (w.setPhase j (.done (.phone lid phone)))
  | .phoneRefused lid =>
    let answered := w.setPhase j (.done (.phone lid (s.mirrored lid)))
    if s.unreported lid then some answered
    else if (w.phase spare).isUnused then some (answered.getCached spare lid)
    else none
  | .foundPhones out batch rest rows =>
    some (w.nextPhones j (w.answerPhones out batch rows) rest)
  | .phonesRefused out => some (w.setPhase j (.done (.phones out)))
  | .foundLids phones out rest rows =>
    some (w.nextLids j phones (w.answerLids out rows) rest)
  | .lidsRefused phones =>
    let out : Nat → List Nat := fun phone =>
      if phones.contains phone then s.lidsForPhone phone else []
    some (w.setPhase j (.done (.lids out)))
  | .warmed lid inFlight row =>
    let skip := inFlight || s.racedLookups lid
    let s₁ :=
      match row with
      | some row =>
        if !skip && (s.cached lid).isNone then
          s.index lid row.phone row.sessionId row.isReported
        else s
      | none => if !skip && (s.cached lid).isNone then s.noteAbsent lid else s
    let s₂ : Store :=
      { s₁ with
        pendingLookups := update s₁.pendingLookups lid false
        racedLookups := update s₁.racedLookups lid false }
    some ((w.setStore s₂).setPhase j (.done .nothing))
  | .warmRefused lid =>
    let s₁ : Store :=
      { s with
        pendingLookups := update s.pendingLookups lid false
        racedLookups := update s.racedLookups lid false }
    some ((w.setStore s₁).setPhase j (.done .nothing))
  | .reloaded rows =>
    some ((w.setStore (s.reloadWith rows)).setPhase j (.done .nothing))
  | .reloadRefused => some (w.setPhase j (.done .nothing))
  | _ => none

end World

/-- An operation under a fresh name begins. -/
def World.begin (w : World) (j : Nat) (v : World) : Option World :=
  if (w.phase j).isUnused then some v else none

/-- One step of an operation or of the world around it. -/
def World.step : Act → World → Option World
  | .tick, w => some { w with now := w.now + 1 }
  | .link session linked, w => some { w with linked := update w.linked session linked }
  | .remember j lid phone session, w => w.begin j (w.remember j lid phone session)
  | .rememberIfUnknown j lid phone session, w =>
    w.begin j (w.rememberIfUnknown j lid phone session)
  | .findPhoneForLid j lid, w => w.begin j (w.setPhase j (.findingPhone lid))
  | .phonesForLidsPersisted j lids, w => w.begin j (w.phonesForLidsPersisted j lids)
  | .lidsForPhonesPersisted j phones, w =>
    w.begin j (w.lidsForPhonesPersisted j phones)
  | .getCached j lid, w => w.begin j (w.getCached j lid)
  | .reload j, w =>
    w.begin j ((w.setStore { w.store with absentFromTable := [] }).setPhase j .reloading)
  | .releaseSession j session, w =>
    w.begin j ((w.setStore { w.store with seenBy := fun _ => none }).setPhase j
      (.releasing session))
  | .exec j, w => w.exec j
  | .fail j, w => w.fail j
  | .reply j spare, w => w.reply j spare

/-- Every interleaving of the operations. -/
def system : Machine World Act where
  step := World.step

end OpenWA.Lid

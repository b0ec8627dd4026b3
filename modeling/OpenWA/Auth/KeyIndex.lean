/-
The in-memory index of the active API keys (`auth/active-key-index.ts`):
`refreshSoon`, the loop it starts and the loads the loop runs.

# The steps

A load is one SELECT: it is issued, reads the table at some later moment,
and its result comes back later still, or an error does. Then the loop
looks at `reloadAgain`. Writes to the table fall anywhere between; a write
of this node calls `refreshSoon` once it has committed, one made directly
on the database does not. The timer and the bootstrap call it too.

The versions of the table and the counts of calls and starts say what
happened when; no step reads them.
-/
import OpenWA.Lib.Reach
import OpenWA.Lib.Record
import OpenWA.Lib.Text

namespace OpenWA.Auth

/-- The columns of `api_keys` the index reads. -/
structure KeyRow where
  keyHash : Text
  isActive : Bool
  allowedIps : Option (List Text)
  expiresAt : Option ℤ

/-- The table; the hash of a key is unique. -/
structure KeyRows where
  rows : List KeyRow
  nodup : (rows.map KeyRow.keyHash).Nodup

/-- What the index keeps of a key. -/
structure IndexedKey where
  allowedIps : Option (List Text)
  expiresAt : Option ℤ

/-- The indexed part of a row. -/
def KeyRow.indexed (row : KeyRow) : IndexedKey :=
  { allowedIps := row.allowedIps, expiresAt := row.expiresAt }

/-- `new Map(rows.map(...))` over the rows `where: { isActive: true }`. -/
def KeyRows.active (table : KeyRows) : Record Text IndexedKey :=
  (table.rows.filter KeyRow.isActive).foldl
    (fun keys row => keys.set row.keyHash row.indexed) Record.empty

-- ======== the state

/-- Where a running load stands; its result is the table's version it read. -/
inductive Load
  | selecting
  | selected (version : Nat)
  | settled

/-- The index, its load under way, and the table it reads. -/
structure KeyIndex where
  keys : Record Text IndexedKey
  loading : Option Load
  reloadAgain : Bool
  destroyed : Bool
  /-- The table at each of its versions, and the latest. -/
  tableAt : Nat → KeyRows
  version : Nat
  /-- Writes whose `refreshSoon` is still to come, and the last of all. -/
  unrefreshed : Nat
  lastWrite : Nat
  /-- The calls of `refreshSoon`, and the version at the last one. -/
  asked : Nat
  askedAt : Nat
  /-- The calls made, and the version, when the last load started. -/
  started : Nat
  startedAt : Nat
  /-- The version the index was read at, and whether the last load read. -/
  readAt : Nat
  lastLoad : Option Bool

namespace KeyIndex

/-- An index before its first load. -/
def new (table : KeyRows) : KeyIndex where
  keys := Record.empty
  loading := none
  reloadAgain := false
  destroyed := false
  tableAt _ := table
  version := 0
  unrefreshed := 0
  lastWrite := 0
  asked := 0
  askedAt := 0
  started := 0
  startedAt := 0
  readAt := 0
  lastLoad := none

variable (w : KeyIndex)

/-- The head of the loop: `reloadAgain = false`, and a load is issued. -/
def begin : KeyIndex :=
  { w with
    reloadAgain := false
    loading := some .selecting
    started := w.asked
    startedAt := w.version }

/-- `refreshSoon`. -/
def refreshSoon : KeyIndex :=
  if w.destroyed then w
  else
    let w := { w with asked := w.asked + 1, askedAt := w.version }
    if w.loading.isSome then { w with reloadAgain := true } else w.begin

/-- The end of the loop's body. -/
def turn : KeyIndex :=
  if w.reloadAgain && !w.destroyed then w.begin else { w with loading := none }

/-- A statement commits. -/
def commit (table : KeyRows) : KeyIndex :=
  { w with
    tableAt := fun v => if v = w.version + 1 then table else w.tableAt v
    version := w.version + 1 }

end KeyIndex

-- ======== the steps

/-- What can happen to the index. -/
inductive IndexAct
  /-- A key is written on this node. -/
  | write (table : KeyRows)
  /-- The write calls `refreshSoon`. -/
  | wrote
  /-- A write to the database by hand. -/
  | writeDirectly (table : KeyRows)
  /-- The timer or the bootstrap calls `refreshSoon`. -/
  | refresh
  /-- The SELECT reads the table. -/
  | select
  /-- Its result replaces the index. -/
  | store
  /-- It fails; the index stays. -/
  | fail
  /-- The loop goes on. -/
  | turn
  /-- `onModuleDestroy`. -/
  | destroy

/-- The steps of a running load and its loop. -/
def IndexAct.ofLoader : IndexAct → Bool
  | select | store | fail | turn => true
  | _ => false

/-- Every interleaving of writes, loads and requests. -/
def keyIndex : Machine KeyIndex IndexAct where
  step
    | .write table, w =>
      some { w.commit table with
        unrefreshed := w.unrefreshed + 1
        lastWrite := w.version + 1 }
    | .wrote, w =>
      if 0 < w.unrefreshed then
        some ({ w with unrefreshed := w.unrefreshed - 1 } : KeyIndex).refreshSoon
      else none
    | .writeDirectly table, w => some (w.commit table)
    | .refresh, w => some w.refreshSoon
    | .select, w =>
      match w.loading with
      | some .selecting => some { w with loading := some (.selected w.version) }
      | _ => none
    | .store, w =>
      match w.loading with
      | some (.selected v) =>
        some { w with
          loading := some .settled
          keys := (w.tableAt v).active
          readAt := v
          lastLoad := some true }
      | _ => none
    | .fail, w =>
      match w.loading with
      | some .selecting => some { w with loading := some .settled, lastLoad := some false }
      | some (.selected _) => some { w with loading := some .settled, lastLoad := some false }
      | _ => none
    | .turn, w =>
      match w.loading with
      | some .settled => some w.turn
      | _ => none
    | .destroy, w => some { w with destroyed := true }

end OpenWA.Auth

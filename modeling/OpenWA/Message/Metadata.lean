/-
Metadata changes of a stored message (`message-metadata.ts`,
`updateMessageMetadata`): read the row, change its metadata, and write it if
the column still holds what was read; three attempts.

# The column

Metadata is stored as text, and the conditional update compares texts, so
the row keeps the text. JSON itself is a parameter (`JsonCodec`): what is
used of it is that a value's own text reads back as the value. A text may
also be no JSON, or `null`.

# The steps

Every statement is one step. `fail` is a statement that was refused: it
changed nothing and the call throws. The change a call makes may throw; it is
given as a function of the snapshot (`change({ ...snapshot })`), one for each
call. A revoke (`revokeRow`) and the writes of anyone else happen at any
time, the latter giving the row any content, or taking it away.

`log` records what was written, in order; no step reads it.
-/
import Mathlib.Logic.Function.Basic
import OpenWA.Lib.Reach
import OpenWA.Lib.Text

namespace OpenWA.Message

open Function (update)

/-- `JSON.stringify` and `JSON.parse` for metadata. -/
structure JsonCodec (M : Type) where
  stringify : M → Text
  /-- Nothing if the text is no JSON; `some none` is `null`. -/
  parse : Text → Option (Option M)
  parse_stringify : ∀ m, parse (stringify m) = some (some m)

variable {M : Type}

/-- The row, as far as a metadata change sees it. -/
structure Row where
  revoked : Bool
  metadata : Option Text
deriving DecidableEq

/-- `row.metadata`, as the entity has it; nothing if reading it throws. -/
def Row.snapshot (codec : JsonCodec M) (row : Row) : Option (Option M) :=
  match row.metadata with
  | none => some none
  | some text => codec.parse text

/-- The conditions of the update: not revoked, and the column as it was
read. -/
def Row.unchanged (codec : JsonCodec M) (row : Row) (snapshot : Option M) : Bool :=
  !row.revoked &&
    match snapshot with
    | none => row.metadata.isNone
    | some m => row.metadata = some (codec.stringify m)

/-- The row with new metadata. -/
def Row.store (codec : JsonCodec M) (row : Row) (metadata : M) : Row :=
  { row with metadata := some (codec.stringify metadata) }

/-- `REVOKED_ROW_PATCH`. -/
def Row.revoke (row : Row) : Row := { row with revoked := true, metadata := none }

/-- Where a call stands. -/
inductive Call (M : Type)
  | unused
  | reading (attempt : Nat)
  | writing (attempt : Nat) (snapshot : Option M) (metadata : M)
  | returned (metadata : M)
  /-- It returned `null`. -/
  | absent
  | threw
deriving DecidableEq

/-- The call has returned. -/
def Call.isReturned : Call M → Bool
  | .returned _ => true
  | _ => false

/-- What is written to the row. -/
inductive Effect
  /-- The change of a call. -/
  | change (k : Nat)
  | revoke
  | other (row : Option Row)
deriving DecidableEq

/-- The row, the calls on it and what was written. -/
structure World (M : Type) where
  row : Option Row
  call : Nat → Call M
  log : List Effect

/-- No call has begun. -/
def World.init (row : Option Row) : World M where
  row := row
  call := fun _ => .unused
  log := []

/-- What can happen to the row. -/
inductive Act
  | start (k : Nat)
  /-- `findOne`, and the change of what it found. -/
  | find (k : Nat)
  /-- The conditional update. -/
  | update (k : Nat)
  | fail (k : Nat)
  | revoke
  | other (row : Option Row)

section Calls

variable (codec : JsonCodec M) (change : Nat → Option M → Option M)

/-- What a call makes of the row `findOne` gives it. -/
def found (k attempt : Nat) (row : Option Row) : Call M :=
  match row with
  | none => .absent
  | some row =>
    if row.revoked then .absent
    else
      match row.snapshot codec with
      | none => .threw
      | some snapshot =>
        match change k snapshot with
        | none => .threw
        | some metadata => .writing attempt snapshot metadata

/-- After an attempt that matched nothing. -/
def again (attempt : Nat) : Call M :=
  if attempt + 1 < 3 then .reading (attempt + 1) else .threw

namespace World

variable (w : World M) (k : Nat)

/-- Call `k` is now here. -/
def setCall (c : Call M) : World M := { w with call := update w.call k c }

/-- The row is written. -/
def setRow (row : Option Row) (e : Effect) : World M :=
  { w with row := row, log := w.log ++ [e] }

/-- The call begins. -/
def begin : Option (World M) :=
  match w.call k with
  | .unused => some (w.setCall k (.reading 0))
  | _ => none

/-- The call reads the row. -/
def find : Option (World M) :=
  match w.call k with
  | .reading attempt => some (w.setCall k (found codec change k attempt w.row))
  | _ => none

/-- The row is written if it is there and as it was read. -/
def write (attempt : Nat) (snapshot : Option M) (metadata : M) : World M :=
  match w.row with
  | some row =>
    if row.unchanged codec snapshot then
      (w.setRow (some (row.store codec metadata)) (.change k)).setCall k (.returned metadata)
    else w.setCall k (again attempt)
  | none => w.setCall k (again attempt)

/-- The call's conditional update. -/
def tryUpdate : Option (World M) :=
  match w.call k with
  | .writing attempt snapshot metadata => some (w.write codec k attempt snapshot metadata)
  | _ => none

/-- A statement of the call fails. -/
def fail : Option (World M) :=
  match w.call k with
  | .reading _ => some (w.setCall k .threw)
  | .writing _ _ _ => some (w.setCall k .threw)
  | _ => none

end World

/-- One step of a call or of someone else. -/
def World.step : Act → World M → Option (World M)
  | .start k, w => w.begin k
  | .find k, w => w.find codec change k
  | .update k, w => w.tryUpdate codec k
  | .fail k, w => w.fail k
  | .revoke, w => some (w.setRow (w.row.map Row.revoke) .revoke)
  | .other row, w => some (w.setRow row (.other row))

/-- The calls on one row, with its other writers. -/
def metadataWrites : Machine (World M) Act where
  step := World.step codec change

/-- What an entry of the log makes of the row: the change of a call is
applied to the metadata that is there. -/
def applyEffect (row : Option Row) : Effect → Option Row
  | .change k => row.map fun row =>
    match row.snapshot codec with
    | none => row
    | some snapshot =>
      match change k snapshot with
      | none => row
      | some metadata => row.store codec metadata
  | .revoke => row.map Row.revoke
  | .other row => row

end Calls

end OpenWA.Message

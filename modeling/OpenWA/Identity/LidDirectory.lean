/-
The reverse mirror `phoneToLids` of the lid store, as the code keeps it.

The lookups of `LidStore` read the forward mirror backwards; the code has a
second map, which `index`, `clear`, `reload` and the eviction change next to
the first. Nothing else writes either map, but for the order of its entries.
-/
import OpenWA.Identity.LidWorld

namespace OpenWA.Lid

open Function (update)

/-- What a step writes to the mirrors. -/
inductive Call
  | none
  | index (lid : Nat) (phone session : Option Nat) (isReported : Bool)
  | drop (lid : Nat)
  | reload (rows : List (Nat × Row))

/-- The store after the call. -/
def Store.calls (s : Store) : Call → Store
  | .none => s
  | .index lid phone session isReported => s.index lid phone session isReported
  | .drop lid => s.drop lid
  | .reload rows => s.reloadWith rows

/-- The call an act makes to the directory. -/
def World.call (w : World) : Act → Call
  | .remember _ lid phone session =>
    if !w.seen lid phone session && phone.isSome then .index lid phone none true else .none
  | .reply j _ =>
    let s := w.store
    match w.phase j with
    | .cleared r affected =>
      let latest := (s.unsettledWrites r.lid).bind fun ref => (s.writing ref).latestReport
      if affected && latest = some j then .drop r.lid else .none
    | .warmed lid inFlight (some row) =>
      if !(inFlight || s.racedLookups lid) && (s.cached lid).isNone then
        .index lid row.phone row.sessionId row.isReported
      else .none
    | .reloaded rows => .reload rows
    | _ => .none
  | _ => .none

/-- `phoneToLids`: the set of a phone in insertion order. -/
abbrev Reverse := Nat → Option (List Nat)

namespace Reverse

variable (r : Reverse)

/-- `unindex(lid, phone)`. -/
def unindex (lid phone : Nat) : Reverse :=
  match r phone with
  | none => r
  | some set =>
    if !set.contains lid then r
    else if set.filter (· ≠ lid) = [] then update r phone none
    else update r phone (some (set.filter (· ≠ lid)))

/-- An entry of the forward mirror goes. -/
def forget (lid : Nat) : Option Nat → Reverse
  | some phone => r.unindex lid phone
  | none => r

/-- A lid is listed under its phone. -/
def add (lid : Nat) : Option Nat → Reverse
  | some phone =>
    let set := (r phone).getD []
    update r phone (some (if set.contains lid then set else set ++ [lid]))
  | none => r

/-- `index(lid, phone)`, with the entries its eviction takes. -/
def index (s : Store) (lid : Nat) (phone : Option Nat) : Reverse :=
  let prev := (s.cached lid).join
  let r₁ := if prev ≠ phone then r.forget lid prev else r
  let placed := (s.place lid phone).entries
  let excess := if s.maxCachedLids = 0 then 0 else placed.length - s.maxCachedLids
  (placed.take excess).foldl (fun r e => r.forget e.1 e.2) (r₁.add lid phone)

/-- The reverse map after the call. -/
def calls (s : Store) : Call → Reverse
  | .none => r
  | .index lid phone _ _ => r.index s lid phone
  | .drop lid => r.forget lid (s.cached lid).join
  | .reload rows =>
    (rows.reverse.foldl (fun (st, (r : Reverse)) e =>
      (st.index e.1 e.2.phone e.2.sessionId e.2.isReported, r.index st e.1 e.2.phone))
      (s.reloadWith [], fun _ => none)).2

end Reverse

/-- The store's world and the reverse map. -/
structure Directory where
  world : World
  phoneToLids : Reverse

/-- Every run, with the reverse map kept beside it. -/
def directory : Machine Directory Act where
  step a d := do
    let w ← system.step a d.world
    some ⟨w, d.phoneToLids.calls d.world.store (d.world.call a)⟩

end OpenWA.Lid

/-
The listing memo of a session's chats or contacts
(`common/utils/listing-memo.ts`).

`load` is an async function, so it does not throw at the call; its promise
settles at any later time or never. The loads are numbered in the order they
begin. What they list is left out: a read answers what its load resolves to.
-/
import Mathlib.Logic.Function.Basic
import OpenWA.Lib.Reach
import OpenWA.Lib.Text

namespace OpenWA.Session.ListingMemo

open Function (update)

/-- `LISTING_MEMO_TTL_MS`. -/
def listingMemoTtlMs : Nat := 5000

/-- The entry of a session. -/
structure Entry where
  /-- The load whose promise is `items`. -/
  load : Nat
  /-- `none` is `Infinity`. -/
  expiresAt : Option Nat
  /-- History: the drops of the session before the load. -/
  drops : Nat

/-- A `read`: the entry whose promise it awaits, as it was then. -/
structure Read where
  sessionId : Text
  offset : Option Int
  entry : Entry
  time : Nat
  drops : Nat

/-- The memo, its loads and timers, and what readers got. -/
structure World where
  now : Nat
  entries : Text → Option Entry
  next : Nat
  /-- The `sessionId` that the callbacks and the timer of a load close on. -/
  session : Nat → Text
  /-- The callbacks of the load have not run. -/
  pending : Nat → Bool
  /-- When the evictor of a load's entry is due, while it is set. -/
  evictor : Nat → Option Nat
  drops : Text → Nat
  /-- The latest first. -/
  reads : List Read

/-- An empty memo. -/
def World.new : World :=
  ⟨0, fun _ => none, 0, fun _ => [], fun _ => false, fun _ => none, fun _ => 0, []⟩

namespace World

variable (w : World) (sessionId : Text)

/-- `clearTimeout(this.entries.get(sessionId)?.evictor)`. -/
def clearEvictor : World :=
  match w.entries sessionId with
  | some entry => { w with evictor := update w.evictor entry.load none }
  | none => w

/-- A reader gets the items of an entry. -/
def answer (offset : Option Int) (entry : Entry) : World :=
  { w with reads := ⟨sessionId, offset, entry, w.now, w.drops sessionId⟩ :: w.reads }

/-- The entry of a new load, without expiry, replaces that of the session. -/
def install : World :=
  { w with
    entries := update w.entries sessionId (some ⟨w.next, none, w.drops sessionId⟩)
    next := w.next + 1
    session := update w.session w.next sessionId
    pending := update w.pending w.next true }

/-- `read(sessionId, offset)`: a page of a live entry, or a new load. -/
def read (offset : Option Int) : World :=
  match (w.entries sessionId).filter fun entry =>
      decide (0 < offset.getD 0) && entry.expiresAt.all fun t => decide (w.now < t) with
  | some entry => w.answer sessionId offset entry
  | none =>
    let w := w.clearEvictor sessionId
    (w.install sessionId).answer sessionId offset ⟨w.next, none, w.drops sessionId⟩

/-- `drop(sessionId)`. -/
def drop : World :=
  let w := w.clearEvictor sessionId
  { w with
    entries := update w.entries sessionId none
    drops := update w.drops sessionId (w.drops sessionId + 1) }

/-- The callbacks of a load that was resolved or rejected. -/
def handle (ttlMs load : Nat) (resolved : Bool) : Option World :=
  if w.pending load then
    let sessionId := w.session load
    let w := { w with pending := update w.pending load false }
    match w.entries sessionId with
    | some entry =>
      -- the expiry of an entry that was replaced is set too, and not read again
      if entry.load ≠ load then some w
      else if resolved then
        let expiresAt := some (w.now + ttlMs)
        some { w with
          entries := update w.entries sessionId (some { entry with expiresAt })
          evictor := update w.evictor load expiresAt }
      else some { w with entries := update w.entries sessionId none }
    | none => some w
  else none

/-- The evictor of a load's entry fires. -/
def evict (load : Nat) : Option World :=
  if (w.evictor load).any (· ≤ w.now) then
    some { w with
      entries := update w.entries (w.session load) none
      evictor := update w.evictor load none }
  else none

end World

/-- What can happen to the memo. -/
inductive Act
  | tick (ms : Nat)
  | read (sessionId : Text) (offset : Option Int)
  | drop (sessionId : Text)
  | handle (load : Nat) (resolved : Bool)
  | evict (load : Nat)

/-- Every interleaving of reads, loads and timers. -/
def memo (ttlMs : Nat) : Machine World Act where
  step
    | .tick ms, w => some { w with now := w.now + ms }
    | .read sessionId offset, w => some (w.read sessionId offset)
    | .drop sessionId, w => some (w.drop sessionId)
    | .handle load resolved, w => w.handle ttlMs load resolved
    | .evict load, w => w.evict load

end OpenWA.Session.ListingMemo

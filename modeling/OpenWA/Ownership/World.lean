/-
Session ownership (`modules/session/session-ownership.service.ts`): the
row of one session, the memory of every node and the operations they run
on it, several at a time.

# Statements and replies

A conditional `UPDATE` or a `SELECT` is one atomic step (`exec`), taken at
some time after it was issued; what the node does with the answer is a
later step (`reply`). Between the two anything else may happen, other
operations of the same node included. A transaction only keeps other
writers away between its statements, so its statements are single steps
too. Statements succeed.

A time an operation captured on its first line is part of its phase:
`claim` compares and writes leases with the time it was called at.

# Left out

What an adoption does for batches, `prepareStart`, the detection of a
second process under one id (`noteForeignRenewals`) and the columns
`claimedAt` and `nodeUrl`, which no statement here reads.

# The history

`lease k` is the expiry node `k` last wrote, until a statement of its own
clears the row; `found` is the row a claim's `UPDATE` matched and when.
Nothing reads them.
-/
import Mathlib.Logic.Function.Basic
import OpenWA.Lib.Reach

namespace OpenWA.Ownership

open Function (update)

/-- The wanted state of a session. -/
inductive DesiredState
  | stopped
  | deleting
  | deletingStopped
deriving DecidableEq

/-- The columns of a session's row that ownership uses. -/
structure Row where
  nodeId : Option Nat
  leaseExpiresAt : Option Nat
  desiredState : Option DesiredState

/-- What a node keeps of the session. -/
structure Memory where
  owned : Bool
  claimGen : Option Nat
  claimSeq : Nat

/-- Where an operation stands. A phase in `-ing` has a statement in
flight; the others have an answer to handle. -/
inductive Phase
  | unused
  -- `claim`
  | claimRenewing (t : Nat) (gen : Option Nat)
  | claimRenewed (t : Nat) (gen : Option Nat) (affected : Bool)
  /-- The transaction begins and the previous owner is read. -/
  | claimOpened (t gen : Nat)
  | claimUpdating (t gen : Nat)
  | claimUpdated (t gen : Nat) (affected : Bool)
  | claimReplied (t gen : Nat) (claimed : Bool)
  -- `release`
  | releasing (t : Nat)
  | released (t : Nat) (affected : Bool)
  | releasingLapsed (t : Nat)
  -- `release` of a captured claim
  | locking (gen : Option Nat)
  | locked (gen : Option Nat) (affected : Bool)
  | clearing (gen : Option Nat)
  | cleared (gen : Option Nat)
  -- `releaseAll`
  | releasingAll
  -- `stopExpiredForeignClaim`
  | stopping (t : Nat)
  -- `renew`
  | renewRead (held : Bool) (gen : Option Nat) (live : Bool)
  | renewWriting (gen : Option Nat) (t : Nat)
  | renewFinding (gen : Option Nat)
  | renewFound (gen : Option Nat) (kept : Bool)
  | done (result : Option Bool)
deriving DecidableEq

/-- The row, the nodes' memories and their operations. -/
structure World where
  now : Nat
  row : Row
  memory : Nat → Memory
  /-- The operations of a node. -/
  phase : Nat → Nat → Phase
  lease : Nat → Option Nat
  found : Nat → Nat → Option (Row × Nat)

/-- No node owns the session. -/
def World.init : World where
  now := 0
  row := { nodeId := none, leaseExpiresAt := none, desiredState := none }
  memory := fun _ => { owned := false, claimGen := none, claimSeq := 0 }
  phase := fun _ _ => .unused
  lease := fun _ => none
  found := fun _ _ => none

/-- What can happen, one step each. -/
inductive Act
  | tick
  /-- Other code writes the wanted state. -/
  | setDesired (desired : Option DesiredState)
  | claim (k j : Nat)
  | release (k j : Nat)
  | releaseOwned (k j : Nat) (gen : Option Nat)
  | releaseAll (k j : Nat) (keep : Bool)
  | stop (k j : Nat)
  | renew (k j : Nat) (live : Bool)
  | exec (k j : Nat)
  /-- `suspended`: an import has suspended the detection of losses. -/
  | reply (k j : Nat) (suspended : Bool)

/-- The row may be taken by `k`: `claimableWhere` at the time `t`. -/
def Row.claimable (row : Row) (k t : Nat) : Bool :=
  row.nodeId = none || row.nodeId = some k
    || row.leaseExpiresAt.any fun e => e < t

/-- The session is being deleted. -/
def Row.deleting (row : Row) : Bool :=
  row.desiredState = some .deleting || row.desiredState = some .deletingStopped

/-- The row is another node's. -/
def Row.foreign (row : Row) (k : Nat) : Bool := row.nodeId ≠ none && row.nodeId ≠ some k

/-- The row without an owner. -/
def Row.cleared (row : Row) : Row :=
  { row with nodeId := none, leaseExpiresAt := none }

/-- A release also ends a delete that keeps the session stopped. -/
def Row.releasedState (row : Row) : Option DesiredState :=
  if row.desiredState = some .deletingStopped then some .stopped
  else row.desiredState

namespace World

variable (ttl : Nat) (w : World) (k j : Nat)

/-- Operation `j` of node `k` is now here. -/
def setPhase (p : Phase) : World :=
  { w with phase := update w.phase k (update (w.phase k) j p) }

/-- The memory of node `k`. -/
def setMemory (m : Memory) : World :=
  { w with memory := update w.memory k m }

/-- Node `k` ends its ownership in memory. -/
def disown : World := w.setMemory k { w.memory k with owned := false, claimGen := none }

/-- A statement of `k` writes its lease. -/
def writeLease (e : Nat) : World :=
  { w with
    row := { w.row with nodeId := some k, leaseExpiresAt := some e }
    lease := update w.lease k (some e) }

/-- A statement of `k` clears its own row. -/
def clearOwn (desired : Option DesiredState) : World :=
  { w with
    row := { w.row.cleared with desiredState := desired }
    lease := update w.lease k none }

/-- A statement clears another node's row. -/
def clearForeign (desired : Option DesiredState) : World :=
  { w with row := { w.row.cleared with desiredState := desired } }

/-- The row a claim's statement matches. -/
def note : World :=
  { w with
    found := update w.found k (update (w.found k) j (some (w.row, w.now))) }

-- ======== the operations

/-- A new generation for a claim about to be written. -/
def allocate (t : Nat) : World :=
  let m := w.memory k
  (w.setMemory k
    { m with claimGen := some (m.claimSeq + 1), claimSeq := m.claimSeq + 1 }).setPhase
    k j (.claimOpened t (m.claimSeq + 1))

/-- `claim(id)`. -/
def claim : World :=
  let m := w.memory k
  if m.owned || m.claimGen.isSome then
    w.setPhase k j (.claimRenewing w.now m.claimGen)
  else w.allocate k j w.now

/-- `release(id)`. -/
def release : World := (w.disown k).setPhase k j (.releasing w.now)

/-- `releaseOwned` under the generation it captured. -/
def releaseOwned (gen : Option Nat) : World := w.setPhase k j (.locking gen)

/-- `releaseAll()`. -/
def releaseAll (keep : Bool) : World :=
  if (w.memory k).owned && !keep then
    (w.disown k).setPhase k j .releasingAll
  else w.setPhase k j (.done none)

/-- `stopExpiredForeignClaim(id)`. -/
def stop : World := w.setPhase k j (.stopping w.now)

/-- The first query of `renew` reads who else renews; it decides nothing
for the session. -/
def renew (live : Bool) : World :=
  let m := w.memory k
  w.setPhase k j (.renewRead m.owned m.claimGen live)

-- ======== the statements

/-- The statement in flight executes. -/
def exec : Option World :=
  let mine := w.row.nodeId = some k
  match w.phase k j with
  | .claimRenewing t gen =>
    if mine then
      some (((w.note k j).writeLease k (t + ttl)).setPhase k j (.claimRenewed t gen true))
    else some (w.setPhase k j (.claimRenewed t gen false))
  | .claimUpdating t gen =>
    if w.row.claimable k t then
      some (((w.note k j).writeLease k (t + ttl)).setPhase k j (.claimUpdated t gen true))
    else some (w.setPhase k j (.claimUpdated t gen false))
  | .releasing t =>
    if mine then
      some ((w.clearOwn k w.row.releasedState).setPhase k j (.released t true))
    else some (w.setPhase k j (.released t false))
  | .releasingLapsed t =>
    if w.row.foreign k && !w.row.deleting && w.row.leaseExpiresAt.any (fun e => e < t) then
      some ((w.clearForeign w.row.desiredState).setPhase k j (.done none))
    else some (w.setPhase k j (.done none))
  | .locking gen => some (w.setPhase k j (.locked gen mine))
  | .clearing gen =>
    if mine then
      some ((w.clearOwn k w.row.desiredState).setPhase k j (.cleared gen))
    else some (w.setPhase k j (.cleared gen))
  | .releasingAll =>
    if mine then
      some ((w.clearOwn k w.row.desiredState).setPhase k j (.done none))
    else some (w.setPhase k j (.done none))
  | .stopping t =>
    if w.row.foreign k && !w.row.deleting && w.row.leaseExpiresAt.all (fun e => e ≤ t) then
      some ((w.clearForeign (some .stopped)).setPhase k j (.done none))
    else some (w.setPhase k j (.done none))
  | .renewWriting gen t =>
    if mine then
      some ((w.writeLease k (t + ttl)).setPhase k j (.renewFinding gen))
    else some (w.setPhase k j (.renewFinding gen))
  | .renewFinding gen => some (w.setPhase k j (.renewFound gen mine))
  | _ => none

-- ======== the replies

/-- `captureClaim`'s answer for the generation `gen`. -/
def ownsClaim (gen : Option Nat) : Bool :=
  gen.isSome && (w.memory k).owned && (w.memory k).claimGen = gen

/-- A successful claim. -/
def own : World :=
  let m := w.memory k
  w.setMemory k { m with owned := true }

/-- A successful renewal in `claim`. -/
def ownRenewed : World :=
  let m := w.memory k
  match m.claimGen with
  | some _ => w.setMemory k { m with owned := true }
  | none =>
    w.setMemory k { owned := true, claimGen := some (m.claimSeq + 1),
                    claimSeq := m.claimSeq + 1 }

/-- A claim that did not get the row: an existing claim is reconciled
through `renew`, which the operation then goes on as. -/
def claimRefused (live : Bool) : World :=
  let m := w.memory k
  if m.owned then w.renew k j live
  else (w.setMemory k { m with claimGen := none }).setPhase k j (.done (some false))

/-- The end of a renewal: a claim it read that the row does not confirm is
lost. -/
def renewEnds (gen : Option Nat) (kept suspended : Bool) : World :=
  let m := w.memory k
  if suspended then w.setPhase k j (.done none)
  else if !kept && m.owned && m.claimGen = gen then
    (w.disown k).setPhase k j (.done none)
  else w.setPhase k j (.done none)

/-- The operation goes on with the answer it has. `flag` is what the step
asks of its surroundings: whether an engine runs, or losses are not to be
concluded. -/
def reply (flag : Bool) : Option World :=
  let m := w.memory k
  match w.phase k j with
  | .claimRenewed t gen affected =>
    if m.claimGen ≠ gen then some (w.setPhase k j (.done (some false)))
    else if affected then
      some ((w.ownRenewed k).setPhase k j (.done (some true)))
    else some (w.allocate k j t)
  | .claimOpened t gen =>
    if m.claimGen ≠ some gen then some (w.setPhase k j (.claimReplied t gen false))
    else some (w.setPhase k j (.claimUpdating t gen))
  | .claimUpdated t gen affected =>
    some (w.setPhase k j (.claimReplied t gen (affected && m.claimGen = some gen)))
  | .claimReplied _ gen claimed =>
    if m.claimGen ≠ some gen then some (w.setPhase k j (.done (some false)))
    else if claimed then some ((w.own k).setPhase k j (.done (some true)))
    else some (w.claimRefused k j flag)
  | .released t affected =>
    if affected then some (w.setPhase k j (.done none))
    else some (w.setPhase k j (.releasingLapsed t))
  | .locked gen affected =>
    if !w.ownsClaim k gen then some (w.setPhase k j (.done none))
    else if affected then some (w.setPhase k j (.clearing gen))
    else some ((w.disown k).setPhase k j (.done none))
  | .cleared gen =>
    if w.ownsClaim k gen then some ((w.disown k).setPhase k j (.done none))
    else some (w.setPhase k j (.done none))
  | .renewRead held gen live =>
    if !held then some (w.setPhase k j (.done none))
    else if live then some (w.setPhase k j (.renewWriting gen w.now))
    else some (w.setPhase k j (.renewFinding gen))
  | .renewFound gen kept => some (w.renewEnds k j gen kept flag)
  | _ => none

end World

/-- An operation under a fresh name begins. -/
def World.begin (w : World) (k j : Nat) (v : World) : Option World :=
  if w.phase k j = .unused then some v else none

/-- One step of a node or of the world around it. -/
def World.step (ttl : Nat) : Act → World → Option World
  | .tick, w => some { w with now := w.now + 1 }
  | .setDesired desired, w =>
    some { w with row := { w.row with desiredState := desired } }
  | .claim k j, w => w.begin k j (w.claim k j)
  | .release k j, w => w.begin k j (w.release k j)
  | .releaseOwned k j gen, w => w.begin k j (w.releaseOwned k j gen)
  | .releaseAll k j keep, w => w.begin k j (w.releaseAll k j keep)
  | .stop k j, w => w.begin k j (w.stop k j)
  | .renew k j live, w => w.begin k j (w.renew k j live)
  | .exec k j, w => w.exec ttl k j
  | .reply k j flag, w => w.reply k j flag

/-- Every interleaving of the operations of every node. -/
def system (ttl : Nat) : Machine World Act where
  step := World.step ttl

-- ======== the vocabulary

/-- Not in progress. -/
def Phase.idle : Phase → Bool
  | .unused => true
  | .done _ => true
  | _ => false

/-- A claim is in progress that has not been refused. -/
def Phase.claiming : Phase → Bool
  | .claimRenewing _ _ => true
  | .claimRenewed _ _ _ => true
  | .claimOpened _ _ => true
  | .claimUpdating _ _ => true
  | .claimUpdated _ _ _ => true
  | .claimReplied _ _ _ => true
  | _ => false

/-- Node `k`'s lease has not run out. -/
def World.Live (w : World) (k : Nat) : Prop := ∃ e, w.lease k = some e ∧ w.now < e

/-- No operation of node `k` on the session is in progress. -/
def World.Quiet (w : World) (k : Nat) : Prop := ∀ j, (w.phase k j).idle = true

/-- The row an `UPDATE` of `k` may take at the time `t`: unowned, its own,
or held under a lapsed lease. -/
def Row.Takeable (row : Row) (k t : Nat) : Prop :=
  row.nodeId = none ∨ row.nodeId = some k ∨ ∃ e, row.leaseExpiresAt = some e ∧ e < t

/-- A node runs no other operation on the session while it claims it:
every call waits for a claim in progress, a claim for every call. -/
def ClaimsAlone : Act → World → Prop
  | .claim k _, w => w.Quiet k
  | .release k _, w => ∀ j, (w.phase k j).claiming = false
  | .releaseOwned k _ _, w => ∀ j, (w.phase k j).claiming = false
  | .releaseAll k _ _, w => ∀ j, (w.phase k j).claiming = false
  | .stop k _, w => ∀ j, (w.phase k j).claiming = false
  | .renew k _ _, w => ∀ j, (w.phase k j).claiming = false
  | _, _ => True

end OpenWA.Ownership

/-
Leases exclude each other: a node's live lease is the row's.

# Why captured times do no harm

A claim compares the row with the time of its call, which may be long past
when the statement executes. An old time can only make the comparison
stricter: a lease that had run out then has run out now (`time_le`). What
it writes may be past on arrival; such a lease is not live and promises
nothing.
-/
import OpenWA.Ownership.World

namespace OpenWA.Ownership

open Function (update update_self update_of_ne)

/-- The time an operation captured. -/
def Phase.time : Phase → Nat
  | .claimRenewing t _ => t
  | .claimRenewed t _ _ => t
  | .claimOpened t _ => t
  | .claimUpdating t _ => t
  | .claimUpdated t _ _ => t
  | .claimReplied t _ _ => t
  | .releasing t => t
  | .released t _ => t
  | .releasingLapsed t => t
  | .stopping t => t
  | .renewWriting _ t => t
  | _ => 0

/-- A claim whose statement matched the row. -/
def Phase.won : Phase → Bool
  | .claimRenewed _ _ affected => affected
  | .claimUpdated _ _ affected => affected
  | .claimReplied _ _ claimed => claimed
  | .done (some true) => true
  | _ => false

/-- The claim found a row it could take. -/
def World.FoundTakeable (w : World) (k j : Nat) : Prop :=
  ∃ row t, w.found k j = some (row, t) ∧ row.Takeable k t

/-- Leases and rows belong to each other. -/
structure Leased (w : World) : Prop where
  time_le : ∀ k j, (w.phase k j).time ≤ w.now
  row_of_live : ∀ k e, w.lease k = some e → w.now < e →
    w.row.nodeId = some k ∧ w.row.leaseExpiresAt = some e
  found : ∀ k j, (w.phase k j).won = true → w.FoundTakeable k j

theorem leased_init : Leased World.init where
  time_le := fun _ _ => Nat.le_refl 0
  row_of_live := by intro k e h; cases h
  found := by intro k j h; cases h

-- ======== the changes

variable {w : World} {k j : Nat}

/-- The phase of an operation after one of them moved. -/
theorem phase_setPhase (w : World) (k j : Nat) (p : Phase) (i l : Nat) :
    (w.setPhase k j p).phase i l = if i = k ∧ l = j then p else w.phase i l := by
  change update w.phase k (update (w.phase k) j p) i l = _
  by_cases hi : i = k
  · by_cases hl : l = j
    · rw [hi, hl, update_self, update_self, if_pos ⟨rfl, rfl⟩]
    · rw [hi, update_self, update_of_ne hl, if_neg fun h => hl h.2]
  · rw [update_of_ne hi, if_neg fun h => hi h.1]

variable {p : Phase} {ttl : Nat} {w' : World}

theorem Leased.setPhase (h : Leased w) (ht : p.time ≤ w.now)
    (hw : p.won = true → w.FoundTakeable k j) : Leased (w.setPhase k j p) where
  time_le := by
    intro i l
    rw [phase_setPhase]
    split
    · exact ht
    · exact h.time_le i l
  row_of_live := h.row_of_live
  found := by
    intro i l hl
    rw [phase_setPhase] at hl
    split at hl
    next heq =>
      rw [heq.1, heq.2]
      exact hw hl
    next => exact h.found i l hl

/-- An operation moves to a phase that won nothing. -/
theorem Leased.goes (h : Leased w) (ht : p.time ≤ w.now) (hw : p.won = false) :
    Leased (w.setPhase k j p) := h.setPhase ht (by simp [hw])

theorem Leased.setMemory (h : Leased w) (m : Memory) : Leased (w.setMemory k m) := { h with }

theorem Leased.disown (h : Leased w) : Leased (w.disown k) := h.setMemory _

/-- The statement's note is of a takeable row if the row it matched is. -/
theorem foundTakeable_note (ht : w.row.Takeable k w.now) : (w.note k j).FoundTakeable k j := by
  refine ⟨w.row, w.now, ?_, ht⟩
  change update w.found k (update (w.found k) j _) k j = _
  rw [update_self, update_self]

section

variable (h : Leased w)
include h

section

variable (ht : w.row.Takeable k w.now)
include ht

theorem Leased.note : Leased (w.note k j) :=
  { h with
    found := by
      intro i l hl
      by_cases heq : i = k ∧ l = j
      · rw [heq.1, heq.2]
        exact foundTakeable_note ht
      · obtain ⟨row, t, hf, hrow⟩ := h.found i l hl
        refine ⟨row, t, ?_, hrow⟩
        rw [← hf]
        change update w.found k (update (w.found k) j _) i l = _
        by_cases hi : i = k
        · have hl : l ≠ j := fun hl => heq ⟨hi, hl⟩
          rw [hi, update_self, update_of_ne hl]
        · rw [update_of_ne hi] }

/-- No other node is live on a row that may be taken. -/
theorem Leased.not_live_of_takeable {i e : Nat} (hi : i ≠ k) (he : w.lease i = some e) :
    ¬ w.now < e := by
  intro hlt
  obtain ⟨hnode, hexp⟩ := h.row_of_live i e he hlt
  obtain hn | hn | ⟨e', he', hlt'⟩ := ht
  · rw [hnode] at hn
    cases hn
  · rw [hnode] at hn
    exact hi (Option.some.inj hn)
  · rw [hexp] at he'
    have := Option.some.inj he'
    omega

/-- A node that may take the row writes its lease. -/
theorem Leased.writeLease (e : Nat) : Leased (w.writeLease k e) :=
  { h with
    row_of_live := by
      intro i e' he hlt
      change update w.lease k (some e) i = some e' at he
      by_cases hi : i = k
      · rw [hi, update_self] at he
        rw [hi]
        exact ⟨rfl, he⟩
      · rw [update_of_ne hi] at he
        exact absurd hlt (h.not_live_of_takeable ht hi he) }

end

/-- A node clears its own row. -/
theorem Leased.clearOwn (hm : w.row.nodeId = some k)
    (desired : Option DesiredState) : Leased (w.clearOwn k desired) :=
  { h with
    row_of_live := by
      intro i e he hlt
      change update w.lease k none i = some e at he
      by_cases hi : i = k
      · rw [hi, update_self] at he
        cases he
      · rw [update_of_ne hi] at he
        exact absurd hlt (h.not_live_of_takeable (.inr (.inl hm)) hi he) }

/-- A lapsed row of another node is cleared. -/
theorem Leased.clearForeign (hexp : ∀ e, w.row.leaseExpiresAt = some e → e ≤ w.now)
    (desired : Option DesiredState) : Leased (w.clearForeign desired) :=
  { h with
    row_of_live := by
      intro i e he hlt
      have := hexp e (h.row_of_live i e he hlt).2
      exact absurd hlt (Nat.not_lt.mpr this) }

-- ======== the operations

theorem Leased.allocate {t : Nat} (ht : t ≤ w.now) :
    Leased (w.allocate k j t) := (h.setMemory _).goes ht rfl

theorem Leased.claim : Leased (w.claim k j) := by
  unfold World.claim
  dsimp only
  split
  · exact h.goes (Nat.le_refl _) rfl
  · exact h.allocate (Nat.le_refl _)

theorem Leased.releaseAll (keep : Bool) : Leased (w.releaseAll k j keep) := by
  unfold World.releaseAll
  split
  · exact h.disown.goes (Nat.zero_le _) rfl
  · exact h.goes (Nat.zero_le _) rfl

theorem Leased.renew (live : Bool) : Leased (w.renew k j live) := h.goes (Nat.zero_le _) rfl

end

-- ======== the statements

/-- What can be claimed is unowned, the node's own or lapsed. -/
theorem takeable_of_claimable {row : Row} {t now : Nat} (ht : t ≤ now)
    (h : row.claimable k t = true) : row.Takeable k now := by
  simp only [Row.claimable, Bool.or_eq_true, decide_eq_true_eq, Option.any_eq_true] at h
  obtain (h | h) | ⟨e, he, hlt⟩ := h
  · exact .inl h
  · exact .inr (.inl h)
  · exact .inr (.inr ⟨e, he, Nat.lt_of_lt_of_le hlt ht⟩)

/-- A claim's statement that matched a takeable row. -/
theorem Leased.take (h : Leased w) (ht : w.row.Takeable k w.now) {e : Nat} (hp : p.time ≤ w.now) :
    Leased (((w.note k j).writeLease k e).setPhase k j p) :=
  ((h.note ht).writeLease ht e).setPhase hp fun _ => foundTakeable_note (j := j) ht

theorem Leased.exec (h : Leased w) : Leads Leased (w.exec ttl k j) := by
  have hle := h.time_le k j
  unfold World.exec
  dsimp only
  split
  case h_1 t gen hp =>
    rw [hp] at hle
    split
    next hm => exact h.take (.inr (.inl hm)) hle
    next => exact h.goes hle rfl
  case h_2 t gen hp =>
    rw [hp] at hle
    split
    next hc => exact h.take (takeable_of_claimable hle hc) hle
    next => exact h.goes hle rfl
  case h_3 t hp =>
    rw [hp] at hle
    split
    next hm => exact (h.clearOwn hm _).goes hle rfl
    next => exact h.goes hle rfl
  case h_4 t hp =>
    rw [hp] at hle
    split
    next hc =>
      simp only [Bool.and_eq_true, Option.any_eq_true, decide_eq_true_eq] at hc
      obtain ⟨e, he, hlt⟩ := hc.2
      refine (h.clearForeign ?_ _).goes (Nat.zero_le _) rfl
      intro e' he'
      obtain rfl := Option.some.inj (he.symm.trans he')
      exact Nat.le_trans (Nat.le_of_lt hlt) hle
    next => exact h.goes (Nat.zero_le _) rfl
  case h_5 | h_10 => exact h.goes (Nat.zero_le _) rfl
  case h_6 | h_7 =>
    split
    next hm => exact (h.clearOwn hm _).goes (Nat.zero_le _) rfl
    next => exact h.goes (Nat.zero_le _) rfl
  case h_8 t hp =>
    rw [hp] at hle
    split
    next hc =>
      simp only [Bool.and_eq_true, Option.all_eq_true, decide_eq_true_eq] at hc
      exact (h.clearForeign (fun e he => Nat.le_trans (hc.2 e he) hle) _).goes (Nat.zero_le _) rfl
    next => exact h.goes (Nat.zero_le _) rfl
  case h_9 =>
    split
    next hm =>
      exact (h.writeLease (.inr (.inl hm)) _).goes (Nat.zero_le _) rfl
    next => exact h.goes (Nat.zero_le _) rfl
  case h_11 => trivial

-- ======== the replies

/-- What the reply of a won claim writes to memory. -/
theorem ownRenewed_eq (w : World) (k : Nat) :
    ∃ m, w.ownRenewed k = w.setMemory k m ∧ m.owned = true := by
  unfold World.ownRenewed
  dsimp only
  split <;> exact ⟨_, rfl, rfl⟩

theorem Leased.claimRefused (h : Leased w) (live : Bool) : Leased (w.claimRefused k j live) := by
  unfold World.claimRefused
  dsimp only
  split
  · exact h.renew live
  · exact (h.setMemory _).goes (Nat.zero_le _) rfl

theorem Leased.renewEnds (h : Leased w) (gen : Option Nat)
    (kept suspended : Bool) : Leased (w.renewEnds k j gen kept suspended) := by
  unfold World.renewEnds
  dsimp only
  repeat' split
  · exact h.goes (Nat.zero_le _) rfl
  · exact h.disown.goes (Nat.zero_le _) rfl
  · exact h.goes (Nat.zero_le _) rfl

theorem Leased.reply {flag : Bool} (h : Leased w) : Leads Leased (w.reply k j flag) := by
  have hle := h.time_le k j
  have hfound := h.found k j
  unfold World.reply
  dsimp only
  split
  case h_1 t gen affected hp =>
    rw [hp] at hle hfound
    repeat' split
    next => exact h.goes (Nat.zero_le _) rfl
    next ha =>
      obtain ⟨m, hm, _⟩ := ownRenewed_eq w k
      rw [hm]
      exact (h.setMemory m).setPhase (Nat.zero_le _) fun _ => hfound ha
    next => exact h.allocate hle
  case h_2 t gen hp =>
    rw [hp] at hle
    split <;> exact h.goes hle rfl
  case h_3 t gen affected hp =>
    rw [hp] at hle hfound
    refine h.setPhase hle ?_
    intro hw
    exact hfound ((Bool.and_eq_true _ _).mp hw).1
  case h_4 t gen claimed hp =>
    rw [hp] at hfound
    repeat' split
    next => exact h.goes (Nat.zero_le _) rfl
    next hc =>
      exact (h.setMemory _).setPhase (Nat.zero_le _) fun _ => hfound hc
    next => exact h.claimRefused flag
  case h_5 t affected hp =>
    rw [hp] at hle
    split
    next => exact h.goes (Nat.zero_le _) rfl
    next => exact h.goes hle rfl
  case h_6 | h_7 =>
    repeat' split
    all_goals first
      | exact h.goes (Nat.zero_le _) rfl
      | exact h.disown.goes (Nat.zero_le _) rfl
  case h_8 =>
    repeat' split
    · exact h.goes (Nat.zero_le _) rfl
    · exact h.goes (Nat.le_refl _) rfl
    · exact h.goes (Nat.zero_le _) rfl
  case h_9 gen kept hp => exact h.renewEnds gen kept flag
  case h_10 => trivial

-- ======== the run

/-- An operation begins under a fresh name. -/
theorem leads_begin {P : World → Prop} {v : World} (h : w.phase k j = .unused → P v) :
    Leads P (w.begin k j v) := Leads.guard h

/-- Every step keeps the leases with the row. -/
theorem Leased.step (a : Act) {w : World} (h : Leased w) :
    Leads Leased ((system ttl).step a w) := by
  cases a with
  | tick =>
    exact
      { h with
        time_le := fun k j => Nat.le_succ_of_le (h.time_le k j)
        row_of_live := fun k e he hlt =>
          h.row_of_live k e he (Nat.lt_of_succ_lt hlt) }
  | setDesired desired => exact { h with }
  | claim k j => exact leads_begin fun _ => h.claim
  | release k j => exact leads_begin fun _ => h.disown.goes (Nat.le_refl _) rfl
  | releaseOwned k j gen => exact leads_begin fun _ => h.goes (Nat.zero_le _) rfl
  | releaseAll k j keep => exact leads_begin fun _ => h.releaseAll keep
  | stop k j => exact leads_begin fun _ => h.goes (Nat.le_refl _) rfl
  | renew k j live => exact leads_begin fun _ => h.renew live
  | exec k j => exact h.exec
  | reply k j flag => exact h.reply

/-- In every interleaving, live leases are the row's. -/
theorem leased_of_reach (hr : (system ttl).Reach World.init w) :
    Leased w := hr.leads leased_init fun a _ h => h.step a

end OpenWA.Ownership

/-
What a node knows of its row, when its claims run alone.

# The invariant

`Tracked` has one clause that the result reads (`kept`): a row that names a
node is in that node's memory, unless an operation of the node is between
the statement and the memory write that belong together (`covers`). The
others carry it over the steps that forget an ownership: each of them acts
on an answer that said "not yours", and such an answer stays true
(`away`), since only a claim of the node itself can write its name. That is
where claims that run alone are needed: a claim executing between another
operation's statement and its reply makes the answer stale.
-/
import OpenWA.Ownership.Proofs.Lease

namespace OpenWA.Ownership

open Function (update update_self update_of_ne)

/-- The row is written and memory will follow, or the other way round. -/
def Phase.covers : Phase → Bool
  | .claimRenewed _ _ affected => affected
  | .claimUpdated _ _ affected => affected
  | .claimReplied _ _ claimed => claimed
  | .releasing _ => true
  | .releasingAll => true
  | _ => false

/-- The operation has seen, or made, that the row is not its node's. -/
def Phase.away : Phase → Bool
  | .claimRenewed _ _ affected => !affected
  | .claimOpened _ _ => true
  | .claimUpdating _ _ => true
  | .claimUpdated _ _ affected => !affected
  | .claimReplied _ _ claimed => !claimed
  | .locked _ affected => !affected
  | .cleared _ => true
  | .renewFound _ kept => !kept
  | _ => false

/-- The generation a claim goes by is the node's. -/
def Phase.Fits (gen : Option Nat) : Phase → Prop
  | .claimRenewing _ g => gen = g
  | .claimRenewed _ g _ => gen = g
  | .claimOpened _ g => gen = some g
  | .claimUpdating _ g => gen = some g
  | .claimUpdated _ g _ => gen = some g
  | .claimReplied _ g _ => gen = some g
  | _ => True

/-- A node's memory follows the row. -/
structure Tracked (w : World) : Prop where
  alone : ∀ k j l, (w.phase k j).claiming = true → l ≠ j → (w.phase k l).idle = true
  fits : ∀ k j, (w.phase k j).Fits (w.memory k).claimGen
  away : ∀ k j, (w.phase k j).away = true → w.row.nodeId ≠ some k
  kept : ∀ k, w.row.nodeId = some k → (w.memory k).owned = true ∨ ∃ j, (w.phase k j).covers = true

theorem tracked_init : Tracked World.init where
  alone := by intro k j l h; cases h
  fits := fun _ _ => trivial
  away := by intro k j h; cases h
  kept := by intro k h; cases h

-- ======== phases compared

variable {w w' : World} {k j : Nat} {p : Phase}

theorem not_covers_of_idle (h : p.idle = true) : p.covers = false := by
  cases p <;> first | rfl | cases h

theorem not_away_of_idle (h : p.idle = true) : p.away = false := by
  cases p <;> first | rfl | cases h

theorem not_idle_of_claiming (h : p.claiming = true) : p.idle = false := by
  cases p <;> first | rfl | cases h

theorem fits_of_not_claiming {gen : Option Nat} (h : p.claiming = false) : p.Fits gen := by
  cases p <;> trivial

-- ======== one move

/-- Operation `j` of node `k` moves to the phase `p`: what the move may do
to the row and to memory. -/
structure Moves (w w' : World) (k j : Nat) (p : Phase) : Prop where
  phase : w'.phase = (w.setPhase k j p).phase
  memory : ∀ i, i ≠ k → w'.memory i = w.memory i
  /-- Only a node whose other operations are idle is newly named. -/
  row : ∀ i, w'.row.nodeId = some i → w.row.nodeId = some i ∨
    i = k ∧ ∀ l, l ≠ j → (w.phase k l).idle = true
  others : ∀ l, l ≠ j → (w.phase k l).claiming = false
  alone : p.claiming = true → ∀ l, l ≠ j → (w.phase k l).idle = true
  fits : p.Fits (w'.memory k).claimGen
  away : p.away = true → w'.row.nodeId ≠ some k
  kept : w'.row.nodeId = some k → (w'.memory k).owned = true ∨
    p.covers = true ∨ ∃ l, l ≠ j ∧ (w.phase k l).covers = true

theorem Moves.phase_self (m : Moves w w' k j p) : w'.phase k j = p := by
  rw [m.phase, phase_setPhase, if_pos ⟨rfl, rfl⟩]

theorem Moves.phase_other (m : Moves w w' k j p) {i l : Nat}
    (h : ¬ (i = k ∧ l = j)) : w'.phase i l = w.phase i l := by
  rw [m.phase, phase_setPhase, if_neg h]

section

variable (h : Tracked w) (m : Moves w w' k j p)
include h m

/-- Two operations of a node never both claim, and a claim has no company. -/
theorem Moves.keeps_alone (i l n : Nat)
    (hc : (w'.phase i l).claiming = true) (hne : n ≠ l) : (w'.phase i n).idle = true := by
  by_cases hl : i = k ∧ l = j
  · obtain ⟨rfl, rfl⟩ := hl
    rw [m.phase_self] at hc
    rw [m.phase_other fun hn => hne hn.2]
    exact m.alone hc n hne
  · rw [m.phase_other hl] at hc
    by_cases hn : i = k ∧ n = j
    · obtain ⟨rfl, rfl⟩ := hn
      rw [m.others l (Ne.symm hne)] at hc
      cases hc
    · rw [m.phase_other hn]
      exact h.alone i l n hc hne

theorem Moves.keeps_fits (i l : Nat) : (w'.phase i l).Fits (w'.memory i).claimGen := by
  by_cases hl : i = k ∧ l = j
  · obtain ⟨rfl, rfl⟩ := hl
    rw [m.phase_self]
    exact m.fits
  · rw [m.phase_other hl]
    by_cases hi : i = k
    · have hne : l ≠ j := fun hlj => hl ⟨hi, hlj⟩
      rw [hi]
      exact fits_of_not_claiming (m.others l hne)
    · rw [m.memory i hi]
      exact h.fits i l

theorem Moves.keeps_away (i l : Nat)
    (ha : (w'.phase i l).away = true) : w'.row.nodeId ≠ some i := by
  by_cases hl : i = k ∧ l = j
  · obtain ⟨rfl, rfl⟩ := hl
    rw [m.phase_self] at ha
    exact m.away ha
  · rw [m.phase_other hl] at ha
    intro hrow
    obtain hold | ⟨rfl, hidle⟩ := m.row i hrow
    · exact h.away i l ha hold
    · have hne : l ≠ j := fun hlj => hl ⟨rfl, hlj⟩
      rw [not_away_of_idle (hidle l hne)] at ha
      cases ha

theorem Moves.keeps_kept (i : Nat)
    (hrow : w'.row.nodeId = some i) :
    (w'.memory i).owned = true ∨ ∃ l, (w'.phase i l).covers = true := by
  by_cases hi : i = k
  · subst hi
    obtain ho | hc | ⟨l, hl, hc⟩ := m.kept hrow
    · exact .inl ho
    · exact .inr ⟨j, by rw [m.phase_self]; exact hc⟩
    · exact .inr ⟨l, by rw [m.phase_other fun hn => hl hn.2]; exact hc⟩
  · obtain hold | ⟨hik, -⟩ := m.row i hrow
    · rw [m.memory i hi]
      obtain ho | ⟨l, hl⟩ := h.kept i hold
      · exact .inl ho
      · exact .inr ⟨l, by rw [m.phase_other fun hn => hi hn.1]; exact hl⟩
    · exact absurd hik hi

/-- A move of one operation keeps the memory with the row. -/
theorem Moves.tracked : Tracked w' where
  alone := m.keeps_alone h
  fits := m.keeps_fits h
  away := m.keeps_away h
  kept := m.keeps_kept h

end

-- ======== kinds of moves

theorem memory_setMemory (w : World) (k : Nat) (m : Memory) : (w.setMemory k m).memory k = m := by
  change update w.memory k m k = m
  rw [update_self]

/-- An operation in progress has no claim beside it. -/
theorem Tracked.others (h : Tracked w) (hb : (w.phase k j).idle = false)
    (l : Nat) (hl : l ≠ j) : (w.phase k l).claiming = false := by
  cases hc : (w.phase k l).claiming with
  | false => rfl
  | true =>
    rw [h.alone k l j hc (Ne.symm hl)] at hb
    cases hb

/-- A row kept by memory or another operation stays so when `j` was not
the one to cover it, or still is. -/
theorem Tracked.kept_of_covers (h : Tracked w) (hc : (w.phase k j).covers = true → p.covers = true)
    (hrow : w.row.nodeId = some k) :
    (w.memory k).owned = true ∨ p.covers = true ∨ ∃ l, l ≠ j ∧ (w.phase k l).covers = true := by
  obtain ho | ⟨l, hl⟩ := h.kept k hrow
  · exact .inl ho
  · by_cases hlj : l = j
    · rw [hlj] at hl
      exact .inr (.inl (hc hl))
    · exact .inr (.inr ⟨l, hlj, hl⟩)

/-- What every move of an operation in progress has to show: the phase it
goes to is no claim it was not, and what it says of row and memory. -/
structure Keeps (w w' : World) (k j : Nat) (p : Phase) : Prop where
  busy : (w.phase k j).idle = false
  claiming : p.claiming = true → (w.phase k j).claiming = true
  fits : p.Fits (w'.memory k).claimGen
  away : p.away = true → w'.row.nodeId ≠ some k
  kept : w'.row.nodeId = some k → (w'.memory k).owned = true ∨
    p.covers = true ∨ ∃ l, l ≠ j ∧ (w.phase k l).covers = true

/-- A move of an operation in progress that names no one new. -/
theorem Tracked.move (h : Tracked w) (hphase : w'.phase = (w.setPhase k j p).phase)
    (hmem : ∀ i, i ≠ k → w'.memory i = w.memory i)
    (hrow : ∀ i, w'.row.nodeId = some i → w.row.nodeId = some i)
    (m : Keeps w w' k j p) : Tracked w' := Moves.tracked h
    { phase := hphase
      memory := hmem
      row := fun i hi => .inl (hrow i hi)
      others := h.others m.busy
      alone := fun hc l hl => h.alone k j l (m.claiming hc) hl
      fits := m.fits
      away := m.away
      kept := m.kept }

section

variable (h : Tracked w) (hb : (w.phase k j).idle = false)
include h hb

/-- A move that leaves row and memory alone. -/
theorem Tracked.goes (hc : p.claiming = true → (w.phase k j).claiming = true)
    (hf : p.Fits (w.memory k).claimGen) (ha : p.away = true → w.row.nodeId ≠ some k)
    (hk : w.row.nodeId = some k → (w.phase k j).covers = true → p.covers = true) :
    Tracked (w.setPhase k j p) := h.move rfl (fun _ _ => rfl) (fun _ hi => hi)
    { busy := hb
      claiming := hc
      fits := hf
      away := ha
      kept := fun hrow => h.kept_of_covers (hk hrow) hrow }

/-- An operation of no further effect ends, or goes on as one that says
nothing of the row. -/
theorem Tracked.leaves (hk : w.row.nodeId = some k → (w.phase k j).covers = false)
    (hc : p.claiming = false) (ha : p.away = false) : Tracked (w.setPhase k j p) := by
  refine h.goes hb (by simp [hc]) (fits_of_not_claiming hc) (by simp [ha]) ?_
  intro hrow
  simp [hk hrow]

/-- An ownership is forgotten for a row that is not the node's. -/
theorem Tracked.forgets (hrow : w.row.nodeId ≠ some k) (m : Memory)
    (hc : p.claiming = true → (w.phase k j).claiming = true)
    (hf : p.Fits m.claimGen) : Tracked ((w.setMemory k m).setPhase k j p) := by
  have hself : ((w.setMemory k m).setPhase k j p).memory k = m := memory_setMemory w k m
  refine h.move rfl (fun i hi => update_of_ne hi _ _) (fun _ hi => hi)
    { busy := hb
      claiming := hc
      fits := ?_
      away := fun _ => hrow
      kept := fun hk => absurd hk hrow }
  rw [hself]
  exact hf

/-- An ownership is recorded. -/
theorem Tracked.records {m : Memory} (hm : m.owned = true) (result : Option Bool) :
    Tracked ((w.setMemory k m).setPhase k j (.done result)) := by
  have hself : ((w.setMemory k m).setPhase k j (.done result)).memory k = m :=
    memory_setMemory w k m
  refine h.move rfl (fun i hi => update_of_ne hi _ _) (fun _ hi => hi)
    { busy := hb
      claiming := by intro hc; cases hc
      fits := trivial
      away := by intro ha; cases ha
      kept := ?_ }
  intro _
  rw [hself]
  exact .inl hm

/-- A statement clears the row, whoever's it was. -/
theorem Tracked.clears {lease : Nat → Option Nat} {desired : Option DesiredState}
    (hc : p.claiming = false) :
    Tracked
      ({ w with row := { w.row.cleared with desiredState := desired }
                lease := lease }.setPhase k j p) := by
  refine h.move rfl (fun _ _ => rfl) (by intro i hi; cases hi)
    { busy := hb
      claiming := by simp [hc]
      fits := fits_of_not_claiming hc
      away := by intro _ hk; cases hk
      kept := by intro hk; cases hk }

/-- The node's own lease is pushed out. -/
theorem Tracked.renews (hm : w.row.nodeId = some k) (e : Nat)
    (hc : p.claiming = true → (w.phase k j).claiming = true)
    (hf : p.Fits (w.memory k).claimGen) (ha : p.away = false)
    (hk : (w.phase k j).covers = true → p.covers = true) :
    Tracked ((w.writeLease k e).setPhase k j p) := by
  refine h.move rfl (fun _ _ => rfl) ?_
    { busy := hb
      claiming := hc
      fits := hf
      away := by simp [ha]
      kept := fun _ => h.kept_of_covers hk hm }
  intro i hi
  change some k = some i at hi
  rw [hm, hi]

end

/-- Notes of the history concern nothing here. -/
theorem Tracked.note (h : Tracked w) : Tracked (w.note k j) := { h with }

/-- A claim's own statement takes the row. -/
theorem Tracked.takes (h : Tracked w) {t g e : Nat}
    (hp : w.phase k j = .claimUpdating t g) :
    Tracked ((w.writeLease k e).setPhase k j (.claimUpdated t g true)) := by
  have hc : (w.phase k j).claiming = true := by rw [hp]; rfl
  have hfits := h.fits k j
  rw [hp] at hfits
  exact Moves.tracked h
    { phase := rfl
      memory := fun _ _ => rfl
      row := fun i hi =>
        .inr ⟨(Option.some.inj hi).symm, fun l hl => h.alone k j l hc hl⟩
      others := h.others (not_idle_of_claiming hc)
      alone := fun _ l hl => h.alone k j l hc hl
      fits := hfits
      away := by intro ha; cases ha
      kept := fun _ => .inr (.inl rfl) }

end OpenWA.Ownership

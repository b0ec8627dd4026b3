/-
Counters that stand for a set: `Counts p n` says that exactly `n` indices
have the property `p`. A component that keeps a number where it means a
set — references held, requests open — is right as long as every change
of the set comes with the change of the number stated here.
-/
import Mathlib.Data.Set.Card
import OpenWA.Lib.Update

namespace OpenWA

variable {ι : Type*} {p q : ι → Prop} {n : Nat} {i : ι}

/-- Exactly `n` indices have `p`. -/
def Counts (p : ι → Prop) (n : Nat) : Prop := {i | p i}.encard = n

theorem Counts.congr (h : Counts p n) (hq : ∀ j, q j ↔ p j) : Counts q n := by
  have hset : {j | q j} = {j | p j} := Set.ext hq
  unfold Counts
  rw [hset]
  exact h

theorem counts_zero_iff : Counts p 0 ↔ ∀ j, ¬ p j := by
  unfold Counts
  rw [Nat.cast_zero, Set.encard_eq_zero, Set.eq_empty_iff_forall_notMem]
  rfl

theorem Counts.pos_iff (h : Counts p n) : 0 < n ↔ ∃ j, p j := by
  constructor
  · intro hn
    by_contra hnone
    have h0 : Counts p 0 := counts_zero_iff.2 (not_exists.1 hnone)
    have heq : (n : ℕ∞) = (0 : Nat) := h.symm.trans h0
    rw [Nat.cast_inj] at heq
    omega
  · rintro ⟨j, hj⟩
    rcases Nat.eq_zero_or_pos n with rfl | hpos
    · exact absurd hj (counts_zero_iff.1 h j)
    · exact hpos

/-- One more. -/
theorem Counts.add (h : Counts p n) (hi : ¬ p i)
    (hq : ∀ j, q j ↔ j = i ∨ p j) : Counts q (n + 1) := by
  have hset : {j | q j} = insert i {j | p j} := Set.ext hq
  have hcard : (insert i {j | p j} : Set ι).encard = {j | p j}.encard + 1 :=
    Set.encard_insert_of_notMem hi
  unfold Counts at h ⊢
  rw [hset, hcard, h]
  rfl

/-- One less. -/
theorem Counts.remove (h : Counts p n) (hi : p i)
    (hq : ∀ j, q j ↔ p j ∧ j ≠ i) : Counts q (n - 1) := by
  have hset : {j | q j} = {j | p j} \ {i} := Set.ext hq
  have hcard : ({j | p j} \ {i} : Set ι).encard + 1 = {j | p j}.encard :=
    Set.encard_sdiff_singleton_add_one hi
  obtain ⟨m, rfl⟩ : ∃ m, n = m + 1 := ⟨n - 1, by have := h.pos_iff.2 ⟨i, hi⟩; omega⟩
  unfold Counts at h ⊢
  rw [h, Nat.cast_add, Nat.cast_one] at hcard
  rw [hset, Nat.add_sub_cancel]
  exact ENat.add_left_injective_of_ne_top ENat.one_ne_top hcard

section Families

/-! Counters kept for each key of a map. -/

variable {κ : Type*} [DecidableEq κ] {f : κ → Nat} {r r' : κ → ι → Prop} {k k' : κ}

/-- One more under the key `k`. -/
theorem Counts.add_at (h : Counts (r k') (f k')) (hi : ¬ r k i)
    (hr : ∀ k' j, r' k' j ↔ (k' = k ∧ j = i) ∨ r k' j) :
    Counts (r' k') (Function.update f k (f k + 1) k') := by
  by_cases hk : k' = k
  · subst hk
    rw [Function.update_self]
    exact h.add hi fun j => by simp [hr]
  · rw [Function.update_of_ne hk]
    exact h.congr fun j => by simp [hr, hk]

/-- One less under the key `k`, the only one it was counted under. -/
theorem Counts.remove_at (h : Counts (r k') (f k')) (hi : r k i) (honly : ∀ k', r k' i → k' = k)
    (hr : ∀ k' j, r' k' j ↔ r k' j ∧ j ≠ i) :
    Counts (r' k') (Function.update f k (f k - 1) k') := by
  by_cases hk : k' = k
  · subst hk
    rw [Function.update_self]
    exact h.remove hi (hr k')
  · rw [Function.update_of_ne hk]
    refine h.congr fun j => (hr k' j).trans (and_iff_left_of_imp ?_)
    rintro hj rfl
    exact hk (honly k' hj)

end Families

end OpenWA

/-
Running totals: a component that keeps the sum of what its parties hold
is right as long as every change of one party comes with the change of
the total stated here. Parties are numbered in the order they appear.
-/
import Mathlib.Algebra.BigOperators.Intervals
import Mathlib.Algebra.Order.BigOperators.Group.Finset
import Mathlib.Tactic.Abel

namespace OpenWA

open Finset

variable {M : Type*} [AddCommGroup M] {f g : Nat → M} {n i : Nat}

/-- What the first `n` parties hold. -/
def tally (n : Nat) (f : Nat → M) : M := ∑ i ∈ range n, f i

theorem tally_congr (h : ∀ j, j < n → g j = f j) : tally n g = tally n f :=
  sum_congr rfl fun j hj => h j (mem_range.1 hj)

/-- A new party brings what it holds. -/
theorem tally_succ (h : ∀ j, j < n → g j = f j) : tally (n + 1) g = tally n f + g n := by
  unfold tally
  rw [sum_range_succ]
  exact congrArg (· + g n) (tally_congr h)

/-- One party changes what it holds. -/
theorem tally_change (hi : i < n) (h : ∀ j, j ≠ i → g j = f j) :
    tally n g = tally n f + (g i - f i) := by
  have hmem : i ∈ range n := mem_range.2 hi
  have hrest : ∑ j ∈ (range n).erase i, g j = ∑ j ∈ (range n).erase i, f j :=
    sum_congr rfl fun j hj => h j (ne_of_mem_erase hj)
  unfold tally
  rw [← add_sum_erase _ g hmem, ← add_sum_erase _ f hmem, hrest]
  abel

/-- Nobody holds anything. -/
theorem tally_zero (h : ∀ j, j < n → f j = 0) : tally n f = 0 :=
  sum_eq_zero fun j hj => h j (mem_range.1 hj)

/-- A positive total has a party that holds something. -/
theorem exists_of_tally_pos {f : Nat → Int} (h : 0 < tally n f) : ∃ j, j < n ∧ 0 < f j := by
  have hlt : ∑ _j ∈ range n, (0 : Int) < ∑ j ∈ range n, f j := by
    simpa [tally] using h
  obtain ⟨j, hj, hpos⟩ := exists_lt_of_sum_lt hlt
  exact ⟨j, mem_range.1 hj, hpos⟩

/-- Nobody holds more than all together. -/
theorem le_tally {f : Nat → Int} (hi : i < n) (h : ∀ j, 0 ≤ f j) :
    f i ≤ tally n f := single_le_sum (fun j _ => h j) (mem_range.2 hi)

/-- Who holds less party by party holds less. -/
theorem tally_le {f g : Nat → Int} (h : ∀ j, j < n → f j ≤ g j) :
    tally n f ≤ tally n g := sum_le_sum fun j hj => h j (mem_range.1 hj)

end OpenWA

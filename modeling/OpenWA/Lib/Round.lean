/-
A cursor that goes round a list of `n` entries, `b` at a time.

# The turn

A position `p ≤ n` says that the next turn reads from entry `p` on. A turn
reads at most `b` entries and stops at the end of the list; only a turn that
starts there begins again at the front. So a page at the end may be short,
and one turn more than `n / b` (rounded up) may be needed to read all
entries: the part behind the cursor and the part before it are each rounded
up (`turns_le`).

# The measure

`turns n b p i` counts the turns until entry `i` is read. Each turn reads
the entry or brings it one turn nearer (`reads_or_nearer`).
-/
import Mathlib.Data.Nat.Basic
import Mathlib.Order.Basic

namespace OpenWA.Round

/-- The position after a turn. -/
def next (n b p : Nat) : Nat := if p < n then min (p + b) n else min b n

/-- The entry the turn starts at. -/
def start (n p : Nat) : Nat := if p < n then p else 0

/-- How many turns it takes to read entry `i`. -/
def turns (n b p i : Nat) : Nat :=
  if p ≤ i then (i - p) / b + 1 else (n - p + b - 1) / b + i / b + 1

variable {n b p i : Nat}

theorem next_le : next n b p ≤ n := by
  unfold next
  split
  · exact Nat.min_le_right _ _
  · exact Nat.min_le_right _ _

theorem turns_pos : 0 < turns n b p i := by
  unfold turns
  split
  · exact Nat.succ_pos _
  · exact Nat.succ_pos _

theorem div_sub_one (hb : 0 < b) {m : Nat} (h : b ≤ m) : (m - b) / b + 1 = m / b := by
  have hdiv : (m - b + b) / b = (m - b) / b + 1 := Nat.add_div_right (m - b) hb
  rw [Nat.sub_add_cancel h] at hdiv
  exact hdiv.symm

/-- A turn reads the entry, or one turn less is needed after it. -/
theorem reads_or_nearer (hb : 0 < b) (hi : i < n) (hp : p ≤ n) :
    (start n p ≤ i ∧ i < start n p + b) ∨ turns n b (next n b p) i + 1 = turns n b p i := by
  unfold start next
  by_cases hlt : p < n
  · rw [if_pos hlt, if_pos hlt]
    by_cases hpi : p ≤ i
    · by_cases hread : i < p + b
      · exact .inl ⟨hpi, hread⟩
      · -- the entry is ahead, behind this page
        right
        have hmin : min (p + b) n = p + b := Nat.min_eq_left (by omega)
        have hahead : p + b ≤ i := by omega
        have hback : i - (p + b) = i - p - b := by omega
        rw [hmin]
        unfold turns
        rw [if_pos hahead, if_pos hpi, hback, div_sub_one hb (by omega)]
    · -- the entry has been passed: the end comes first
      right
      have hpassed : ¬ min (p + b) n ≤ i := by omega
      unfold turns
      rw [if_neg hpassed, if_neg hpi]
      by_cases hend : p + b ≤ n
      · have hmin : min (p + b) n = p + b := Nat.min_eq_left hend
        have hback : n - (p + b) + b - 1 = n - p + b - 1 - b := by omega
        have hstep := div_sub_one hb (m := n - p + b - 1) (by omega)
        rw [hmin, hback]
        omega
      · have hmin : min (p + b) n = n := Nat.min_eq_right (by omega)
        have hzero : (n - n + b - 1) / b = 0 := Nat.div_eq_of_lt (by omega)
        have hstep := div_sub_one hb (m := n - p + b - 1) (by omega)
        have hone : (n - p + b - 1 - b) / b = 0 := Nat.div_eq_of_lt (by omega)
        rw [hmin, hzero]
        omega
  · rw [if_neg hlt, if_neg hlt]
    by_cases hread : i < b
    · exact .inl ⟨Nat.zero_le i, by omega⟩
    · right
      have hmin : min b n = b := Nat.min_eq_left (by omega)
      have hahead : b ≤ i := by omega
      have hpassed : ¬ p ≤ i := by omega
      have hzero : (n - p + b - 1) / b = 0 := Nat.div_eq_of_lt (by omega)
      have hstep := div_sub_one hb hahead
      unfold turns
      rw [hmin, if_pos hahead, if_neg hpassed, hzero]
      omega

/-- Wherever the cursor is, `n / b` turns (rounded up) and one more are
enough. -/
theorem turns_le (hi : i < n) (hp : p ≤ n) : turns n b p i ≤ (n + b - 1) / b + 1 := by
  unfold turns
  split
  next hpi => exact Nat.succ_le_succ (Nat.div_le_div_right (by omega))
  next hpi =>
    have hsum : (n - p + b - 1) / b + i / b ≤ (n - p + b - 1 + i) / b := Nat.div_add_div_le_add_div
    have hle : (n - p + b - 1 + i) / b ≤ (n + b - 1) / b := Nat.div_le_div_right (by omega)
    omega

end OpenWA.Round

/-
Maps kept as functions: what a read finds after `Function.update`.
-/
import Mathlib.Logic.Function.Basic

namespace OpenWA

open Function (update update_self update_of_ne)

/-- A read after a write finds what was written, or what was there. -/
theorem of_update {α β : Type*} [DecidableEq α] {f : α → β} {a b : α} {x y : β}
    (h : update f a x b = y) : (b = a ∧ x = y) ∨ (b ≠ a ∧ f b = y) := by
  by_cases hb : b = a
  · rw [hb, update_self] at h
    exact .inl ⟨hb, h⟩
  · rw [update_of_ne hb] at h
    exact .inr ⟨hb, h⟩

end OpenWA

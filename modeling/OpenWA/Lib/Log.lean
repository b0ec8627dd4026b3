/-
Logs of effects: a state that is the replay of what was written to it.

An entry is written on the state that the entries before it left. `Met P`
says of a whole log that each entry met `P` on that state; a log grows at its
end, so the rule is for one more entry (`met_snoc`).
-/
namespace OpenWA.Log

variable {σ ε : Type} (apply : σ → ε → σ)

/-- The state a log leaves. -/
def replay (start : σ) (log : List ε) : σ := log.foldl apply start

variable {apply} {start : σ} {log : List ε} {e : ε}

theorem replay_snoc : replay apply start (log ++ [e]) = apply (replay apply start log) e := by
  unfold replay
  rw [List.foldl_append]
  rfl

variable (apply) in
/-- Every entry met `P` on the state it was written on. -/
def Met (P : σ → ε → Prop) (start : σ) (log : List ε) : Prop :=
  ∀ before e after, log = before ++ e :: after → P (replay apply start before) e

variable {P Q : σ → ε → Prop}

theorem met_nil : Met apply P start [] := by
  intro before e after h
  cases before with
  | nil | cons => cases h

/-- One more entry. -/
theorem met_snoc (hlog : Met apply P start log) (he : P (replay apply start log) e) :
    Met apply P start (log ++ [e]) := by
  intro before x after h
  -- the entry asked for is the last one, or one of those before
  rcases List.eq_nil_or_concat after with hnil | ⟨rest, last, hlast⟩
  · rw [hnil] at h
    obtain ⟨hbefore, hx⟩ := List.append_inj' h rfl
    rw [← hbefore, ← (List.cons.inj hx).1]
    exact he
  · rw [hlast, List.concat_eq_append, ← List.cons_append, ← List.append_assoc] at h
    exact hlog before x rest (List.append_inj' h rfl).1

/-- The entries still meet what follows for those of the log. -/
theorem Met.imp (hlog : Met apply P start log)
    (h : ∀ s, ∀ e ∈ log, P s e → Q s e) : Met apply Q start log := by
  intro before e after heq
  refine h _ e ?_ (hlog before e after heq)
  rw [heq]
  simp

end OpenWA.Log

/-
The drain part of the invariant: no write starts on a fenced scope, so
what a drain found is all it has to wait for.
-/
import OpenWA.WriteScope.Proofs.Lives

namespace OpenWA.WriteScope

set_option linter.unusedSectionVars false

open Function (update update_self update_of_ne update_apply)

variable {κ : Type} [DecidableEq κ] {w v : World κ} {k : κ}
  {s i c x d : Nat} {scope : Scope κ} {closing : Closing κ}

section

variable (h : Drained w)
include h

theorem Drained.captureOn (ht : Table w)
    (hi : w.scopes i = none) : Drained (w.captureOn i k s) where
  closing := h.closing
  waits := by
    intro d drain closing x i' scope hd hc htaken hx hi' hsid hf hst
    rcases of_update hi' with ⟨rfl, -⟩ | ⟨-, hi'⟩
    · have hsome := ht.writer _ _ hx
      rw [hi] at hsome
      cases hsome
    · exact h.waits _ _ _ _ _ _ hd hc htaken hx hi' hsid hf hst

theorem Drained.closeOn (hc : w.closings c = none) : Drained (w.closeOn c k s) where
  closing := by
    have hold := h.closing
    unfold World.closeOn
    grind [update_apply]
  waits := by
    intro d drain closing x i scope hd hc' htaken hx hi hsid hf hst
    rcases of_update hc' with ⟨heq, -⟩ | ⟨-, hc'⟩
    · have hsome := h.closing _ _ hd
      rw [heq, hc] at hsome
      cases hsome
    · exact h.waits _ _ _ _ _ _ hd hc' htaken hx hi hsid hf hst

/-- A write starts only on a scope that no closing fences. -/
theorem Drained.startWrite (hl : Lives w)
    (hi : w.scopes i = some scope) (hcur : ¬ w.stale i scope = true) :
    Drained (w.startWrite x i scope.state) where
  closing := h.closing
  waits := by
    intro d drain closing x' i' scope' hd hc htaken hx hi' hsid hf hst
    rcases of_update hx with ⟨-, ⟨⟩⟩ | ⟨hxx, hx⟩
    · obtain rfl := Option.some.inj (hi.symm.trans hi')
      obtain ⟨ho, hlive, -, -⟩ := stale_eq_false hcur
      have hret := (hl.fenced _ _ hi ho).2 ⟨_, closing, hc, hsid.symm, hf⟩
      rw [hlive] at hret
      cases hret
    · replace hst := (update_of_ne hxx _ _).symm.trans hst
      exact h.waits _ _ _ _ _ _ hd hc htaken hx hi' hsid hf hst

/-- A write that stops running is one less to wait for. -/
theorem Drained.setStatus {status : WriteStatus}
    (hst : status ≠ .running) : Drained { w with status := update w.status x status } where
  closing := h.closing
  waits := by
    intro d drain closing x' i scope hd hc htaken hx hi hsid hf hst'
    rcases of_update hst' with ⟨-, hst'⟩ | ⟨-, hst'⟩
    · exact absurd hst' hst
    · exact h.waits _ _ _ _ _ _ hd hc htaken hx hi hsid hf hst'

/-- What a drain finds is every running write of the fenced scopes. -/
theorem Drained.drain (ht : Table w) (hp : Past w w.now)
    (hd : w.resolvedAt d = none) (hc : w.closings c = some closing) :
    Drained { w with drains := update w.drains d (some
      { closing := c, waits := w.writes closing.state,
        takenAt := w.now }) } where
  closing := by
    have hold := h.closing
    grind [update_apply]
  waits := by
    intro d' drain closing' x i scope hd' hc' htaken hx hi hsid hf hst
    rcases of_update hd' with ⟨rfl, ⟨⟩⟩ | ⟨-, hd'⟩
    · obtain rfl := Option.some.inj (hc.symm.trans hc')
      have hr : w.releasedAt c = none := by
        cases hr : w.releasedAt c with
        | none => rfl
        | some t =>
          have hlt : w.now < t := htaken t hr
          have hpast := hp.released _ _ hr
          omega
      have hmapped := ht.closingMapped _ _ hc hr
      have hover : w.status x ≠ .over := by
        rw [show w.status x = .running from hst]
        decide
      have hscope := ht.writeMapped _ _ _ hx hi hover
      rw [hsid, hmapped] at hscope
      refine ⟨?_, hd⟩
      exact (ht.writes _ _ _ hmapped).2 ⟨i, scope, hx, hi, (Option.some.inj hscope).symm, hover⟩
    · exact h.waits _ _ _ _ _ _ hd' hc' htaken hx hi hsid hf hst

theorem Drained.resolve {drain : Drain} (hd : w.drains d = some drain)
    (hall : ∀ x ∈ drain.waits, w.running x = false) :
    Drained { w with resolvedAt := update w.resolvedAt d (some w.now) } where
  closing := h.closing
  waits := by
    intro d' drain' closing x i scope hd' hc htaken hx hi hsid hf hst
    have hold := h.waits _ _ _ _ _ _ hd' hc htaken hx hi hsid hf hst
    by_cases hdd : d' = d
    · subst hdd
      obtain rfl := Option.some.inj (hd.symm.trans hd')
      have hx' : w.writer x = some i := hx
      have hst' : w.status x = .running := hst
      have hrun : w.running x = true := by
        unfold World.running
        rw [hx', hst']
        rfl
      rw [hall x hold.1] at hrun
      cases hrun
    · refine ⟨hold.1, ?_⟩
      change update w.resolvedAt d _ d' = none
      rw [update_of_ne hdd]
      exact hold.2

/-- A release changes neither what its drains wait for nor whom it fences. -/
theorem Drained.leave (hr : w.releasedAt c = none) : Drained (w.leave c s) where
  closing := h.closing
  waits := by
    intro d drain closing x i scope hd hc htaken hx hi hsid hf hst
    by_cases hcc : drain.closing = c
    · have hvac : ∀ t, w.releasedAt drain.closing = some t → False := by
        intro t ht
        rw [hcc, hr] at ht
        cases ht
      exact h.waits _ _ _ _ _ _ hd hc (fun t ht => (hvac t ht).elim) hx hi
        hsid (fun t ht => (hvac t ht).elim) hst
    · have heq : (w.leave c s).releasedAt drain.closing
          = w.releasedAt drain.closing := update_of_ne hcc _ _
      unfold Fences at hf
      rw [heq] at htaken hf
      exact h.waits _ _ _ _ _ _ hd hc htaken hx hi hsid hf hst

theorem Drained.regenerate : Drained (w.regenerate k s) := by
  unfold World.regenerate
  split <;> exact { h with }

theorem Drained.releaseIdle : Drained (w.releaseIdle k s) := by
  unfold World.releaseIdle
  split <;> exact { h with }

theorem Drained.stateFor : Drained (w.stateFor k).1 := by
  unfold World.stateFor
  split <;> exact { h with }

end

end OpenWA.WriteScope

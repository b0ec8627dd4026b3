/-
The write fence of a session. Every part is a statement about one
reachable state; times carry the order of events, so that "for ever" is
"in every reachable state".
-/
import OpenWA.WriteScope.Proofs.Steps

namespace OpenWA.WriteScope

set_option linter.unusedSectionVars false

open Function (update update_self update_of_ne)

variable {κ : Type} [DecidableEq κ] {w v : World κ} {k : κ}
  {s i c l x d t : Nat} {scope : Scope κ} {closing : Closing κ}
  {listener : Listener}

/-- A scope is current exactly while it is open and no closing of its
session fences it. -/
theorem Inv.assertCurrent_iff (h : Inv w t) (hi : w.scopes i = some scope) :
    w.assertCurrent i = true ↔ w.closedAt i = none
      ∧ ∀ c closing, w.closings c = some closing →
        closing.sessionId = scope.sessionId → ¬ Fences w c scope := by
  unfold World.assertCurrent
  rw [hi, Option.any_some, Bool.not_eq_true']
  constructor
  · intro hcur
    obtain ⟨ho, hlive, -, -⟩ := stale_eq_false (by rw [hcur]; decide)
    refine ⟨ho, ?_⟩
    intro c closing hc hsid hf
    have hret := (h.lives.fenced _ _ hi ho).2 ⟨c, closing, hc, hsid, hf⟩
    rw [hlive] at hret
    cases hret
  · rintro ⟨ho, hnone⟩
    have hmapped := h.table.scopeMapped _ _ hi ho
    have hlive : w.retired scope.generation = false := by
      by_contra hret
      obtain ⟨c, closing, hc, hsid, hf⟩ := (h.lives.fenced _ _ hi ho).1 (by simpa using hret)
      exact hnone c closing hc hsid hf
    have hopen : w.closing scope.state = 0 := by
      by_contra hpos
      obtain ⟨c, closing, hc, hsid, hr⟩ := (closing_ne_zero_iff h.table hmapped).1 hpos
      refine hnone c closing hc hsid ?_
      intro t ht
      rw [hr] at ht
      cases ht
    simp [World.stale, ho, hlive, hopen, hmapped]

/-- A write is refused on a scope that is not current. -/
theorem write_of_not_current (h : w.assertCurrent i = false) : w.write x i = none := by
  unfold World.write
  unfold World.assertCurrent at h
  split
  next => rfl
  next =>
    split
    next => rfl
    next scope hi =>
      rw [hi, Option.any_some] at h
      rw [if_pos (by simpa using h)]

/-- Nothing of the session is left: no open scope, no closing that was not
released and no write whose `finally` is to run. -/
def Gone (w : World κ) (k : κ) : Prop :=
  (∀ i scope, w.scopes i = some scope → scope.sessionId = k → (w.closedAt i).isSome = true)
    ∧ (∀ c closing, w.closings c = some closing → closing.sessionId = k →
      (w.releasedAt c).isSome = true)
    ∧ ∀ x i scope, w.writer x = some i → w.scopes i = some scope →
      scope.sessionId = k → w.status x = .over

theorem Inv.dropped_of_gone (h : Inv w t) (hg : Gone w k) : w.sessions k = none := by
  cases hs : w.sessions k with
  | none => rfl
  | some s =>
    exfalso
    obtain ⟨hscope, hclosing, hwrite⟩ := hg
    have hidle : w.idle s = true := by
      refine (idle_iff h.table hs).2 ⟨?_, ?_, ?_⟩
      · rintro i ⟨scope, hi, rfl, ho⟩
        have hk := h.table.injective _ _ _ (h.table.scopeMapped _ _ hi ho) hs
        have hclosed := hscope _ _ hi hk
        rw [ho] at hclosed
        cases hclosed
      · rintro c ⟨closing, hc, rfl, hr⟩
        have hk := h.table.injective _ _ _ (h.table.closingMapped _ _ hc hr) hs
        have hreleased := hclosing _ _ hc hk
        rw [hr] at hreleased
        cases hreleased
      · rintro x ⟨i, scope, hx, hi, rfl, hst⟩
        have hk := h.table.injective _ _ _ (h.table.writeMapped _ _ _ hx hi hst) hs
        exact hst (hwrite _ _ _ hx hi hk)
    rw [h.busy _ _ hs] at hidle
    cases hidle

/-- The write fence of a session, in every reachable state of any number
of sessions, scopes, writes, closings, drains and listeners.

1. A scope that a closing of its session fences — captured before the
   closing or while it was not released — is refused, then and ever
   after; and once a drain of that closing has resolved before the
   release, none of its writes is running.
2. An open scope captured after the release of every closing of its
   session is admitted.
3. A listener added on a live scope runs at most once, within a closing
   of its session called after it was added and before its scope was
   closed; and by the time such a closing has returned it has run,
   unless it was disposed of or its scope was closed before.
4. When no open scope, no closing and no write of a session is left, its
   state is dropped. -/
theorem session_write_fence (hr : (system κ).Reach (.init κ) w) :
    (∀ i scope c closing, w.scopes i = some scope →
      w.closings c = some closing → closing.sessionId = scope.sessionId →
      Fences w c scope →
        w.assertCurrent i = false
        ∧ (∀ x, (system κ).step (.write x i) w = none)
        ∧ ∀ d drain t, w.drains d = some drain → drain.closing = c →
          w.resolvedAt d = some t →
          (∀ t', w.releasedAt c = some t' → drain.takenAt < t') →
          ∀ x, w.writer x = some i → w.status x ≠ .running)
    ∧ (∀ i scope, w.scopes i = some scope → w.closedAt i = none →
      (∀ c closing, w.closings c = some closing →
        closing.sessionId = scope.sessionId →
        ∃ t, w.releasedAt c = some t ∧ t ≤ scope.capturedAt) →
      w.assertCurrent i = true)
    ∧ (∀ l listener, w.listeners l = some listener → listener.live = true →
      (w.runs l = [] ∨ ∃ run, RanOnce w l listener run)
      ∧ ∀ c t, Concerns w c listener → w.returnedAt c = some t →
        (∃ run, RanOnce w l listener run) ∨ OffBefore w l listener t)
    ∧ ∀ k, Gone w k → w.sessions k = none := by
  have hinv := inv_of_reach hr
  refine ⟨?_, ?_, ?_, ?_⟩
  · intro i scope c closing hi hc hsid hf
    have hrefused : w.assertCurrent i = false := by
      rw [Bool.eq_false_iff]
      intro hcur
      exact ((hinv.assertCurrent_iff hi).1 hcur).2 c closing hc hsid hf
    refine ⟨hrefused, fun x => write_of_not_current (w := w.tick) hrefused, ?_⟩
    intro d drain t hd hdc hres htaken x hx hst
    subst hdc
    have hwait := hinv.drained.waits _ _ _ _ _ _ hd hc htaken hx hi hsid.symm hf hst
    rw [hres] at hwait
    cases hwait.2
  · intro i scope hi ho hreleased
    refine (hinv.assertCurrent_iff hi).2 ⟨ho, ?_⟩
    intro c closing hc hsid hf
    obtain ⟨t, ht, hle⟩ := hreleased c closing hc hsid
    have hlt := hf t ht
    omega
  · intro l listener hl hlive
    have honce := hinv.heard.once _ _ hl hlive
    refine ⟨honce, ?_⟩
    intro c t hcon hret
    rcases honce with hruns | hran
    · exact .inr (hinv.heard.missed _ _ _ _ hl hlive hruns hcon hret)
    · exact .inl hran
  · intro k hg
    exact hinv.dropped_of_gone hg

/-- A write is running and a listener waits when the session is closed. -/
def fencedRun : List (Act Unit) :=
  [.capture 0 (), .onRetire 0 0, .write 0 0, .closeWrites 0 (), .notify 0,
    .returns 0, .drain 0 0, .settle 0, .resolve 0, .finish 0, .close 0,
    .release 0]

/-- After the release, the scope is refused, its write does not run and
its listener has run once. -/
theorem session_write_fence_run :
    ∃ w, (system Unit).Reach (.init Unit) w ∧ w.releasedAt 0 ≠ none
      ∧ w.assertCurrent 0 = false ∧ w.status 0 ≠ .running
      ∧ ∃ run, w.runs 0 = [run] := by
  obtain ⟨w, hr, hw⟩ := Machine.exists_reach_of_run (M := system Unit) (.init Unit) fencedRun
    (fun w => (w.scopes 0).any (fun scope => scope.capturedAt = 1)
      && (w.closings 0).isSome && w.releasedAt 0 = some 12
      && (w.drains 0).any (fun drain => drain.closing = 0 && drain.takenAt = 7)
      && w.resolvedAt 0 = some 9 && w.writer 0 = some 0
      && (w.listeners 0).any (fun listener => listener.live) && w.runs 0 ≠ []) (by decide +kernel)
  simp only [Bool.and_eq_true, Option.any_eq_true, decide_eq_true_eq,
    Option.isSome_iff_exists] at hw
  obtain ⟨⟨⟨⟨⟨⟨⟨⟨scope, hi, hcap⟩, closing, hc⟩, hrel⟩, drain, hd, hdc,
    htaken⟩, hres⟩, hx⟩, listener, hl, hlive⟩, hruns⟩ := hw
  obtain ⟨hfence, -, hheard, -⟩ := session_write_fence hr
  have hf : Fences w 0 scope := by
    intro t ht
    rw [hrel] at ht
    obtain rfl := Option.some.inj ht
    omega
  obtain ⟨hrefused, -, hidle⟩ := hfence 0 scope 0 closing hi hc rfl hf
  refine ⟨w, hr, ?_, hrefused, ?_, ?_⟩
  · rw [hrel]
    exact Option.some_ne_none _
  · refine hidle 0 drain _ hd hdc hres ?_ 0 hx
    intro t ht
    rw [hrel] at ht
    obtain rfl := Option.some.inj ht
    omega
  · rcases (hheard 0 listener hl hlive).1 with hnone | ⟨run, honly, -⟩
    · exact absurd hnone hruns
    · exact ⟨run, honly⟩

/-- Neither the dropping nor the admission holds without its condition. A
state outlives its scopes while a write of a closed scope is in flight;
and of two closings that overlap, the release of the first admits no
scope captured after it while the second is not released. -/
theorem session_write_fence_overlaps :
    (∃ w, (system Unit).Reach (.init Unit) w
      ∧ (∀ i scope, w.scopes i = some scope → (w.closedAt i).isSome = true)
      ∧ (∀ c, w.closings c = none) ∧ w.sessions () ≠ none)
    ∧ ∃ w, (system Unit).Reach (.init Unit) w
      ∧ ∃ scope closing t, w.scopes 0 = some scope ∧ w.closedAt 0 = none
        ∧ w.closings 0 = some closing
        ∧ closing.sessionId = scope.sessionId ∧ w.releasedAt 0 = some t
        ∧ t ≤ scope.capturedAt ∧ w.assertCurrent 0 = false := by
  constructor
  · have hreach : (system Unit).Reach (.init Unit) _ :=
      Machine.reach_of_run (show (system Unit).run (.init Unit)
        [.capture 0 (), .write 0 0, .close 0] = some _ from rfl)
    refine ⟨_, hreach, ?_, fun _ => rfl, ?_⟩
    · intro i scope hi
      by_cases hii : i = 0
      · subst hii
        rfl
      · change update (fun _ => none) 0 _ i = some scope at hi
        rw [update_of_ne hii] at hi
        cases hi
    · intro hnone
      cases hnone
  · have hreach : (system Unit).Reach (.init Unit) _ :=
      Machine.reach_of_run (show (system Unit).run (.init Unit)
        [.closeWrites 0 (), .returns 0, .closeWrites 1 (), .returns 1,
          .release 0, .capture 0 ()] = some _ from rfl)
    exact ⟨_, hreach, _, _, _, rfl, rfl, rfl, rfl, rfl, by decide, rfl⟩

end OpenWA.WriteScope

/-
Every step keeps the invariant.
-/
import OpenWA.WriteScope.Proofs.Drained
import OpenWA.WriteScope.Proofs.Heard

namespace OpenWA.WriteScope

set_option linter.unusedSectionVars false

open Function (update update_self update_of_ne update_apply)

variable {κ : Type} [DecidableEq κ] {w v : World κ} {k : κ}
  {s i c l x d t : Nat} {scope : Scope κ} {closing : Closing κ}
  {listener : Listener}

/-- The invariant, with every recorded time before `t`. -/
structure Inv (w : World κ) (t : Nat) : Prop where
  table : Table w
  lives : Lives w
  drained : Drained w
  heard : Heard w
  past : Past w t
  /-- Only states somebody refers to are in the map. -/
  busy : ∀ k s, w.sessions k = some s → w.idle s = false

theorem Past.next (h : Past w t) : Past w (w.now + 1) where
  toUnused := h.toUnused
  clock := le_refl _
  captured := fun _ _ hi => (h.captured _ _ hi).trans_le h.clock
  released := fun _ _ hc => (h.released _ _ hc).trans_le h.clock
  called := fun _ _ hc => (h.called _ _ hc).trans_le h.clock
  added := fun _ _ hl => (h.added _ _ hl).trans_le h.clock
  disposed := fun _ _ hl => (h.disposed _ _ hl).trans_le h.clock
  closed := fun _ _ hi => (h.closed _ _ hi).trans_le h.clock
  ran := fun _ _ hr => (h.ran _ _ hr).trans_le h.clock

-- ======== tables

theorem idle_congr (h : w.idle s = false) (hcap : v.captures s = w.captures s)
    (hclo : v.closing s = w.closing s) (hwr : v.writes s = w.writes s) : v.idle s = false := by
  unfold World.idle at h ⊢
  rw [hcap, hclo, hwr]
  exact h

theorem Past.stateFor (h : Past w t) : Past (w.stateFor k).1 t := by
  unfold World.stateFor
  split <;> exact { h with }

theorem stateFor_now : (w.stateFor k).1.now = w.now := by
  unfold World.stateFor
  split <;> rfl

theorem stateFor_scopes : (w.stateFor k).1.scopes = w.scopes := by
  unfold World.stateFor
  split <;> rfl

theorem stateFor_closings : (w.stateFor k).1.closings = w.closings := by
  unfold World.stateFor
  split <;> rfl

/-- The other sessions' states are as they were. -/
theorem stateFor_busy {k' : κ} {s' : Nat} (ht : Table w)
    (hb : ∀ k s, w.sessions k = some s → w.idle s = false) (hne : k' ≠ k)
    (hs : (w.stateFor k).1.sessions k' = some s') : (w.stateFor k).1.idle s' = false := by
  unfold World.stateFor at hs ⊢
  split at hs
  next => exact hb _ _ hs
  next =>
    rcases session_of_newState hs with ⟨heq, -⟩ | hs
    · exact absurd heq hne
    · have hlt := ht.state_lt _ _ hs
      unfold World.idle World.newState at *
      grind [update_apply]

/-- A new counter on the state of `k` keeps every state in the map busy. -/
theorem Inv.busy_of_stateFor (h : Inv w t)
    (hs : v.sessions = (w.stateFor k).1.sessions) (hnew : v.idle (w.stateFor k).2 = false)
    (hold : ∀ s, s ≠ (w.stateFor k).2 → (w.stateFor k).1.idle s = false → v.idle s = false) :
    ∀ k s, v.sessions k = some s → v.idle s = false := by
  have hsession := stateFor_session w k
  intro k' s' hs'
  rw [hs] at hs'
  by_cases hk : k' = k
  · subst hk
    rw [hsession] at hs'
    exact Option.some.inj hs' ▸ hnew
  · refine hold s' ?_ (stateFor_busy h.table h.busy hk hs')
    rintro rfl
    exact hk (h.table.stateFor.injective _ _ _ hs' hsession)

theorem Inv.capture (h : Inv w w.now) : Leads (Inv · (w.now + 1)) (w.captureSessionWrites i k) := by
  refine Leads.unless fun hi => ?_
  have hsession := stateFor_session w k
  have htable : Table (w.stateFor k).1 := h.table.stateFor
  have hpast : Past (w.stateFor k).1 w.now := h.past.stateFor
  have hi' : (w.stateFor k).1.scopes i = none := by
    rw [stateFor_scopes]
    simpa using hi
  refine
    { table := htable.captureOn hsession hi' (hpast.scope _ hi')
      lives := (h.lives.stateFor h.table).captureOn htable
        (by rw [stateFor_now]; exact hpast) hsession
      drained := (h.drained.stateFor).captureOn htable hi'
      heard := (h.heard.stateFor h.lives h.table).captureOn hi'
      past := { h.past.next.stateFor with scope := ?unused, captured := ?past }
      busy := h.busy_of_stateFor rfl ?_ ?_ }
  case unused =>
    have hold := hpast.scope
    unfold World.captureOn
    grind [update_apply]
  case past =>
    have hnow : (w.stateFor k).1.now = w.now := stateFor_now
    have hold := hpast.captured
    unfold World.captureOn
    grind [update_apply]
  · simp [World.idle, World.captureOn]
  · exact fun s hne hidle => idle_congr hidle (update_of_ne hne _ _) rfl rfl

theorem Inv.closeWrites (h : Inv w w.now) :
    Leads (Inv · (w.now + 1)) (w.closeSessionWrites c k) := by
  refine Leads.unless fun hc => ?_
  have hsession := stateFor_session w k
  have htable : Table (w.stateFor k).1 := h.table.stateFor
  have hpast : Past (w.stateFor k).1 w.now := h.past.stateFor
  have hc' : (w.stateFor k).1.closings c = none := by
    rw [stateFor_closings]
    simpa using hc
  obtain ⟨hr, hret⟩ := hpast.closing _ hc'
  have hnow : (w.stateFor k).1.now = w.now := stateFor_now
  refine
    { table := htable.closeOn hsession hc' hr
      lives := (h.lives.stateFor h.table).closeOn htable hsession hc' hr
      drained := (h.drained.stateFor).closeOn hc'
      heard := (h.heard.stateFor h.lives h.table).closeOn htable
        (by rw [hnow]; exact hpast) hsession hc' hret
      past := { h.past.next.stateFor with closing := ?unused, called := ?past }
      busy := h.busy_of_stateFor rfl ?_ ?_ }
  case unused =>
    have hold := hpast.closing
    unfold World.closeOn
    grind [update_apply]
  case past =>
    have hold := hpast.called
    unfold World.closeOn
    grind [update_apply]
  · simp [World.idle, World.closeOn]
  · exact fun s hne hidle => idle_congr hidle rfl (update_of_ne hne _ _) rfl

-- ======== leaving and dropping

theorem Heard.releaseIdle (h : Heard w) : Heard (w.releaseIdle k s) := by
  unfold World.releaseIdle
  split <;> exact { h with }

theorem Past.releaseIdle (h : Past w t) : Past (w.releaseIdle k s) t := by
  unfold World.releaseIdle
  split <;> exact { h with }

/-- After a release of what was on `s`, `releaseIdle` sees to `s`. -/
theorem Inv.releaseIdle (ht : Table w) (hl : Lives w) (hd : Drained w)
    (hh : Heard w) (hp : Past w t) (hs : w.sessions k = some s)
    (hb : ∀ k' s', w.sessions k' = some s' → s' ≠ s → w.idle s' = false) :
    Inv (w.releaseIdle k s) t where
  table := ht.releaseIdle
  lives := hl.releaseIdle
  drained := hd.releaseIdle
  heard := hh.releaseIdle
  past := hp.releaseIdle
  busy := by
    intro k' s' hs'
    unfold World.releaseIdle at hs' ⊢
    split at hs'
    next hidle =>
      rw [if_pos hidle]
      rcases of_update hs' with ⟨-, ⟨⟩⟩ | ⟨hk, hs'⟩
      refine hb _ _ hs' ?_
      rintro rfl
      exact hk (ht.injective _ _ _ hs' hs)
    next hidle =>
      rw [if_neg hidle]
      by_cases hss : s' = s
      · subst hss
        simpa [hs] using hidle
      · exact hb _ _ hs' hss

theorem Inv.close (h : Inv w w.now) : Leads (Inv · (w.now + 1)) (w.close i) := by
  unfold World.close
  split
  next => trivial
  next scope hi =>
    split
    next =>
      exact { h with past := h.past.next }
    next ho =>
      have ho : w.closedAt i = none := by simpa using ho
      refine Inv.releaseIdle (h.table.uncapture hi ho) h.lives.uncapture
        { h.drained with } (h.heard.uncapture h.past hi ho)
        { h.past.next with scope := ?_, closed := ?_ } (h.table.scopeMapped _ _ hi ho) ?_
      · have hold := h.past.scope
        unfold World.uncapture
        grind [update_apply]
      · have hold := h.past.closed
        unfold World.uncapture
        grind [update_apply]
      · intro k' s' hs' hne
        exact idle_congr (h.busy _ _ hs') (update_of_ne hne _ _) rfl rfl

theorem Inv.finish (h : Inv w w.now) : Leads (Inv · (w.now + 1)) (w.finish x) := by
  unfold World.finish
  split
  next => trivial
  next scope hscope =>
    obtain ⟨i, hx, hi⟩ := Option.bind_eq_some_iff.1 hscope
    refine Leads.guard fun hst => ?_
    have hover : w.status x ≠ .over := by
      rw [hst]
      decide
    have hdrained : Drained { w with status := update w.status x .over } :=
      h.drained.setStatus (by decide)
    refine Inv.releaseIdle (h.table.finishOn hx hi) { h.lives with }
      { hdrained with } { h.heard with } { h.past.next with }
      (h.table.writeMapped _ _ _ hx hi hover) ?_
    intro k' s' hs' hne
    exact idle_congr (h.busy _ _ hs') rfl rfl (update_of_ne hne _ _)

theorem regenerate_sessions : (w.regenerate k s).sessions = w.sessions := by
  unfold World.regenerate
  split <;> rfl

theorem regenerate_idle : (w.regenerate k s).idle = w.idle := by
  unfold World.regenerate
  split <;> rfl

theorem Past.regenerate (h : Past w t) : Past (w.regenerate k s) t := by
  unfold World.regenerate
  split <;> exact { h with }

theorem Inv.release (h : Inv w w.now) : Leads (Inv · (w.now + 1)) (w.release c) := by
  unfold World.release
  split
  next => trivial
  next closing hc =>
    refine Leads.unless fun hret => ?_
    split
    next =>
      exact { h with past := h.past.next }
    next hr =>
      have hr : w.releasedAt c = none := by simpa using hr
      have hempty : w.listening (w.generation closing.state) = [] := by
        rw [← h.lives.closingCurrent _ _ hc hr]
        exact h.heard.empty h.lives hc (by simpa using hret)
      have hleft : Heard (w.leave c closing.state) := { h.heard with }
      have hpast : Past (w.leave c closing.state) (w.now + 1) := by
        have hclosing := h.past.closing
        have hreleased := h.past.released
        refine { h.past.next with closing := ?_, released := ?_ } <;>
        · unfold World.leave
          grind [update_apply]
      refine Inv.releaseIdle (h.table.leave hc hr).regenerate (h.lives.release h.table h.past hc hr)
        (h.drained.leave hr).regenerate
        (hleft.regenerate h.lives.scope_lt hempty)
        hpast.regenerate ?_ ?_
      · rw [regenerate_sessions]
        exact h.table.closingMapped _ _ hc hr
      · intro k' s' hs' hne
        rw [regenerate_sessions] at hs'
        rw [regenerate_idle]
        exact idle_congr (h.busy _ _ hs') rfl (update_of_ne hne _ _) rfl

-- ======== the other steps

/-- A step that leaves the map and the states alone. -/
theorem Inv.quiet (h : Inv w w.now) (ht : Table v) (hl : Lives v)
    (hd : Drained v) (hh : Heard v) (hp : Past v (w.now + 1))
    (hs : v.sessions = w.sessions) (hidle : v.idle = w.idle) : Inv v (w.now + 1) where
  table := ht
  lives := hl
  drained := hd
  heard := hh
  past := hp
  busy := by
    intro k s hs'
    rw [hs] at hs'
    rw [hidle]
    exact h.busy _ _ hs'

theorem Inv.onRetire (h : Inv w w.now) : Leads (Inv · (w.now + 1)) (w.onRetire l i) := by
  refine Leads.unless fun hl => ?_
  have hpast := h.past.next
  have hadded := hpast.added
  have hl : w.listeners l = none := by simpa using hl
  have hold := h.past.listener
  obtain ⟨hdisp, hruns⟩ := hold _ hl
  split
  next => trivial
  next scope hi =>
    split
    next =>
      refine h.quiet { h.table with } { h.lives with } { h.drained with }
        (h.heard.addStale hl hi) { hpast with listener := ?_, added := ?_ } rfl rfl <;>
          grind [update_apply]
    next hcur =>
      refine h.quiet { h.table with } { h.lives with } { h.drained with }
        (h.heard.subscribe h.lives h.past hl hruns hdisp hi hcur)
        { hpast with listener := ?_, added := ?_ } rfl rfl <;>
      · unfold World.subscribe
        grind [update_apply]

theorem Inv.dispose (h : Inv w w.now) : Leads (Inv · (w.now + 1)) (w.dispose l) := by
  have hpast := h.past.next
  unfold World.dispose
  split
  next => trivial
  next listener hl =>
    split
    next => trivial
    next scope hi =>
      split
      next hsub =>
        obtain ⟨listener', hw, -⟩ := (h.heard.subscribed _ _).1 hsub
        obtain rfl := Option.some.inj (hl.symm.trans hw.1)
        have hold := h.past.listener
        have hdisposed := hpast.disposed
        have hheard := h.heard.off hw hi w.runs (update w.disposedAt l (some w.now))
          (fun _ _ => rfl) (fun _ hne => update_of_ne hne _ _)
          (.inr (by rw [update_self]; exact Option.some_ne_none _)) (.inl hw.2.2.1)
        refine h.quiet { h.table with } { h.lives with } { h.drained with }
          hheard { hpast with listener := ?_, disposed := ?_ } rfl rfl
        · unfold World.unsubscribe
          grind [update_apply]
        · grind [update_apply]
      next =>
        exact { h with past := hpast }

/-- What a turn of the loop does. -/
theorem notify_leads : Leads (fun v => ∃ closing l listener scope,
    w.closings c = some closing ∧ l ∈ w.listening closing.generation
      ∧ w.listeners l = some listener ∧ w.scopes listener.scope = some scope
      ∧ w.returnedAt c = none
      ∧ v = { w.unsubscribe l listener.scope scope.generation with
        runs := update w.runs l (w.runs l ++ [⟨c, w.now⟩]) }) (w.notify c) := by
  unfold World.notify
  split
  next => trivial
  next closing hc =>
    split
    next => trivial
    next l rest hlist =>
      split
      next => trivial
      next listener hl =>
        split
        next => trivial
        next scope hi =>
          exact Leads.unless fun hret => ⟨closing, l, listener, scope, hc,
            hlist ▸ List.mem_cons_self, hl, hi, by simpa using hret, rfl⟩

section

variable (h : Inv w w.now)
include h

theorem Inv.notify : Leads (Inv · (w.now + 1)) (w.notify c) := by
  have hpast := h.past.next
  refine notify_leads.imp ?_
  rintro _ ⟨closing, l, listener, scope, hc, hmem, hl, hi, hret, rfl⟩
  obtain ⟨listener', hw, hcon⟩ := h.heard.concerns h.lives hc hmem
  obtain rfl := Option.some.inj (hl.symm.trans hw.1)
  have hold := h.past.listener
  have hran := hpast.ran
  have hheard := h.heard.off hw hi (update w.runs l (w.runs l ++ [⟨c, w.now⟩])) w.disposedAt
    (fun _ hne => update_of_ne hne _ _) (fun _ _ => rfl)
    (.inl (by rw [update_self]; simp)) (.inr ⟨⟨c, w.now⟩, ?_⟩)
  · refine h.quiet { h.table with } { h.lives with }
      { h.drained with } hheard { hpast with listener := ?_, ran := ?_ } rfl rfl
    · unfold World.unsubscribe
      grind [update_apply]
    · grind [update_apply]
  · refine ⟨?_, hcon, fun _ => h.past.called _ _, ?_, ?_⟩
    · change update w.runs l _ l = _
      rw [update_self, hw.2.2.1]
      rfl
    · intro t ht
      cases hret.symm.trans ht
    · intro t ht
      cases hw.2.2.2.2.symm.trans ht

theorem Inv.returns : Leads (Inv · (w.now + 1)) (w.returns c) := by
  have hpast := h.past.next
  unfold World.returns
  split
  next => trivial
  next closing hc =>
    refine Leads.guard fun hcond => ?_
    rw [Bool.and_eq_true, List.isEmpty_iff] at hcond
    have hold := h.past.closing
    refine h.quiet { h.table with } { h.lives with } { h.drained with }
      (h.heard.returns h.past hc hcond.2)
      { hpast with closing := ?_ } rfl rfl
    grind [update_apply]

theorem Inv.write : Leads (Inv · (w.now + 1)) (w.write x i) := by
  refine Leads.unless fun hx => ?_
  split
  next => trivial
  next scope hi =>
    refine Leads.unless fun hcur => ?_
    obtain ⟨-, -, -, hmapped⟩ := stale_eq_false hcur
    exact
      { table := h.table.startWrite (by simpa using hx) hi hmapped
        lives := { h.lives with }
        drained := h.drained.startWrite h.lives hi hcur
        heard := { h.heard with }
        past := { h.past.next with }
        busy := by
          intro k s hs
          by_cases hss : s = scope.state
          · subst hss
            simp [World.idle, World.startWrite]
          · exact idle_congr (h.busy _ _ hs) rfl rfl (update_of_ne hss _ _) }

theorem Inv.settle : Leads (Inv · (w.now + 1)) (w.settle x) := by
  refine Leads.guard fun hrun => ?_
  have hover : w.status x ≠ .over := by
    intro heq
    simp [World.running, heq] at hrun
  exact h.quiet (h.table.settle hover) { h.lives with }
    (h.drained.setStatus (by decide)) { h.heard with } { h.past.next with } rfl rfl

theorem Inv.drain : Leads (Inv · (w.now + 1)) (w.drain d c) := by
  have hpast := h.past.next
  refine Leads.unless fun hd => ?_
  split
  next => trivial
  next closing hc =>
    refine Leads.guard fun _ => ?_
    have hold := h.past.drain
    refine h.quiet { h.table with } { h.lives with }
      (h.drained.drain h.table h.past (hold _ (by simpa using hd)) hc)
      { h.heard with } { hpast with drain := ?_ } rfl rfl
    grind [update_apply]

theorem Inv.resolve : Leads (Inv · (w.now + 1)) (w.resolve d) := by
  unfold World.resolve
  split
  next => trivial
  next drain hd =>
    refine Leads.unless fun hcond => ?_
    have hold := h.past.drain
    have hall : ∀ x ∈ drain.waits, w.running x = false := by
      simp only [Bool.or_eq_true, List.any_eq_true, not_or, not_exists,
        not_and, Bool.not_eq_true] at hcond
      exact hcond.2
    refine h.quiet { h.table with } { h.lives with } (h.drained.resolve hd hall) { h.heard with }
      { h.past.next with drain := ?_ } rfl rfl
    grind [update_apply]

end

-- ======== the runs

theorem inv_init : Inv (World.init κ) 1 := by
  constructor
  · constructor <;> simp [World.init]
  · constructor <;> simp [World.init]
  · constructor <;> simp [World.init]
  · constructor <;> simp [World.init, Waits]
  · refine ⟨⟨?_, ?_, ?_, ?_⟩, ?_, ?_, ?_, ?_, ?_, ?_, ?_, ?_⟩ <;> simp [World.init]
  · simp [World.init]

/-- Every act keeps the invariant. -/
theorem Inv.act {a : Act κ} (h : Inv w w.now) : Leads (Inv · (w.now + 1)) (World.act a w) := by
  cases a with
  | capture i k => exact h.capture
  | onRetire l i => exact h.onRetire
  | dispose l => exact h.dispose
  | write x i => exact h.write
  | settle x => exact h.settle
  | finish x => exact h.finish
  | close i => exact h.close
  | closeWrites c k => exact h.closeWrites
  | notify c => exact h.notify
  | returns c => exact h.returns
  | drain d c => exact h.drain
  | resolve d => exact h.resolve
  | release c => exact h.release

theorem inv_of_reach (hr : (system κ).Reach (.init κ) w) : Inv w (w.now + 1) := by
  refine hr.invariant (P := fun w => Inv w (w.now + 1)) inv_init ?_
  intro a w v h hs
  have htick : Inv w.tick w.tick.now :=
    { table := { h.table with }
      lives := { h.lives with }
      drained := { h.drained with }
      heard := { h.heard with }
      past := { h.past with clock := Nat.le_succ _ }
      busy := h.busy }
  have hv := htick.act.to hs
  exact { hv with past := hv.past.next }

end OpenWA.WriteScope

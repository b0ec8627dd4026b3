/-
Where the slots go: the limiter's count read as a set of calls, what each
step does to that set, and the order in which waiters are served.
-/
import Mathlib.Algebra.BigOperators.Ring.Finset
import OpenWA.Concurrency.Proofs.Slots

namespace OpenWA.Concurrency

open Function (update)

variable {w : World} {r : Nat} {p : Phase} {f : Phase → Bool} {spare : Int}

-- ======== where the slots go

/-- What a step does with the slots: nothing; take a free one, when nobody
waits; hand one to the first waiter; or return one, when nobody waits. -/
inductive SlotMove (w w' : World) : Prop
  | kept (hholds : ∀ y, (w'.phase y).holds = (w.phase y).holds)
      (hactive : w'.lim.active = w.lim.active)
  | taken (x : Nat) (hfree : w.lim.active < w.lim.max) (hnobody : w.lim.waiters = [])
      (hnot : (w.phase x).holds = false)
      (hholds : ∀ y, (w'.phase y).holds = (decide (y = x) || (w.phase y).holds))
      (hactive : w'.lim.active = w.lim.active + 1)
  | handed (r x : Nat) (hfirst : w.lim.waiters = x :: w'.lim.waiters)
      (hheld : (w.phase r).holds = true) (hnot : (w.phase x).holds = false)
      (hholds : ∀ y, (w'.phase y).holds = (decide (y = x) || (decide (y ≠ r) && (w.phase y).holds)))
      (hactive : w'.lim.active = w.lim.active)
  | returned (r : Nat) (hnobody : w.lim.waiters = []) (hnobody' : w'.lim.waiters = [])
      (hheld : (w.phase r).holds = true)
      (hholds : ∀ y, (w'.phase y).holds = (decide (y ≠ r) && (w.phase y).holds))
      (hactive : w'.lim.active = w.lim.active - 1)

variable {n : Nat} {a : Act} {w' : World}

/-- A call whose slot stays counted, or not counted, moves no slot. -/
theorem slotMove_of_phase (hphase : ∀ y, w'.phase y = if y = r then p else w.phase y)
    (hactive : w'.lim.active = w.lim.active) (hholds : p.holds = (w.phase r).holds) :
    SlotMove w w' := by
  refine .kept (fun y => ?_) hactive
  rw [hphase]
  split
  next heq => rw [heq, hholds]
  next => rfl

/-- A slot given up goes to the first waiter or is returned. -/
theorem slotMove_giveUp (h : Slots spare w) (hp : w.phase r = .holding) (hidle : p.idle) :
    SlotMove w (w.setPhase r p).release := by
  have hheld : (w.phase r).holds = true := by
    rw [hp]
    rfl
  cases hq : w.lim.waiters with
  | nil =>
    rw [release_nil (w := w.setPhase r p) hq]
    refine .returned r hq hq hheld (fun y => ?_) rfl
    show ((w.setPhase r p).phase y).holds = _
    rw [phase_setPhase]
    split
    next heq => simp [heq, hidle.1]
    next hne => simp [hne]
  | cons x rest =>
    have hwaits : (w.phase x).waits = true := by
      rw [← h.queue, hq]
      exact List.mem_cons_self
    have hne : x ≠ r := by
      rintro rfl
      rw [hp] at hwaits
      cases hwaits
    obtain ⟨hwoken, -, -, hnot⟩ := wake_of_waits hwaits
    rw [release_cons (w := w.setPhase r p) hq]
    refine .handed r x hq hheld hnot (fun y => ?_) rfl
    show ((({ w.setPhase r p with lim := { w.lim with waiters := rest } } : World).setPhase x
      ((w.setPhase r p).phase x).wake).phase y).holds = _
    rw [phase_setPhase, phase_setPhase, if_neg hne]
    split
    next heq => simp [heq, hwoken]
    next hyx =>
      show ((w.setPhase r p).phase y).holds = _
      rw [phase_setPhase]
      split
      next heq => simp [heq, hidle.1, hne.symm]
      next hyr => simp [hyx, hyr]

/-- A free slot is taken by a call that had none. -/
theorem slotMove_take (h : Slots spare w) (hfree : w.lim.active < w.lim.max)
    (hnot : (w.phase r).holds = false) :
    SlotMove w (({ w with
      lim := { w.lim with active := w.lim.active + 1 }
      next := n } : World).setPhase r .holding) := by
  have hnobody : w.lim.waiters = [] := by
    by_contra hne
    have := (h.busy hne).1
    omega
  refine .taken r hfree hnobody hnot (fun y => ?_) rfl
  rw [phase_setPhase]
  split
  next heq => simp [heq, Phase.holds]
  next hne =>
    show (w.phase y).holds = _
    simp [hne]

/-- Every step but a late `yieldSlot` moves at most one slot. -/
theorem slotMove_step (h : Slots spare w) (hs : limiter.step a w = some w')
    (hlate : late a w = false) : SlotMove w w' := by
  cases moves_of_step hs with
  | refused ha hidle =>
    obtain ⟨-, -, hwas, -⟩ := h.asks ha
    exact slotMove_of_phase (fun _ => phase_setPhase) rfl (hidle.1.trans hwas.1.symm)
  | takes ha hfree => exact slotMove_take h hfree (h.asks ha).2.2.1.1
  | parks ha =>
    obtain ⟨-, -, hwas, hholds, -⟩ := h.asks ha
    exact slotMove_of_phase (fun _ => phase_setPhase) rfl (hholds.trans hwas.1.symm)
  | giveUp hp hidle => exact slotMove_giveUp h hp hidle
  | late ha hp =>
    subst ha
    exact absurd hp (of_decide_eq_false hlate)
  | move _ hholds | reacquired _ hholds =>
    exact slotMove_of_phase (fun _ => phase_setPhase) rfl hholds
  | leave => exact .kept (fun y => by rw [phase_leave]) rfl
  | close =>
    refine .kept (fun y => ?_) rfl
    rw [phase_close]
    split
    · exact (reject_spec _).1
    · rfl

-- ======== the result

/-- The limits stay as they were given. -/
theorem limits_step (hs : limiter.step a w = some w') :
    w'.lim.max = w.lim.max ∧ w'.lim.maxQueued = w.lim.maxQueued := by
  have hrelease : ∀ v : World, v.release.lim.max = v.lim.max
      ∧ v.release.lim.maxQueued = v.lim.maxQueued := by
    intro v
    cases hq : v.lim.waiters with
    | nil => rw [release_nil hq]; exact ⟨rfl, rfl⟩
    | cons x rest => rw [release_cons hq]; exact ⟨rfl, rfl⟩
  cases moves_of_step hs with
  | @giveUp r p => exact hrelease (w.setPhase r p)
  | @late r => exact hrelease ((w.leave r).setPhase r .yielded)
  | refused | takes | parks | move | reacquired | leave | close => exact ⟨rfl, rfl⟩

theorem limits_reach {max : ℚ} {maxQueued : Option ℚ}
    (hr : limiter.Reach (World.new max maxQueued) w) :
    w.lim.max = (ConcurrencyLimiter.new max maxQueued).max
      ∧ w.lim.maxQueued = (ConcurrencyLimiter.new max maxQueued).maxQueued := by
  refine hr.invariant (P := fun t => t.lim.max = (ConcurrencyLimiter.new max maxQueued).max
    ∧ t.lim.maxQueued = (ConcurrencyLimiter.new max maxQueued).maxQueued) ⟨rfl, rfl⟩ ?_
  rintro a t t' ⟨hmax, hqueued⟩ hs
  obtain ⟨h₁, h₂⟩ := limits_step hs
  exact ⟨h₁.trans hmax, h₂.trans hqueued⟩

/-- The calls a slot is counted for. -/
def World.holders (w : World) : Finset Nat :=
  (Finset.range w.next).filter fun r => (w.phase r).holds

theorem count_eq_card (w : World) (f : Phase → Bool) :
    w.count f = ((Finset.range w.next).filter fun r => f (w.phase r)).card := by
  unfold World.count tally
  rw [Finset.natCast_card_filter]
  refine Finset.sum_congr rfl fun r _ => ?_
  show (f (w.phase r)).toInt = _
  cases f (w.phase r) <;> rfl

/-- No call runs or waits: each is over or was refused, or its task is over
and nothing more is to happen to it. -/
def World.Quiet (w : World) : Prop :=
  ∀ r < w.next, w.phase r = .returned ∨ w.phase r = .settled ∨ (∃ why, w.phase r = .refused why)
    ∨ ((w.runs r).left = true ∧ (w.phase r = .holding ∨ w.phase r = .slotless))

/-- No task settles while its `yieldSlot` goes on, and none is made after it
has settled. -/
def inTask : Act → World → Bool
  | .leave _, _ => false
  | a, w => !late a w

theorem inTask_spec (h : inTask a w = true) : late a w = false ∧ ∀ r, a ≠ .leave r := by
  cases a <;> simp_all [inTask, late]

/-- The runs whose tasks outlive their `yieldSlot` calls: every slot is
counted for a call, and no task has left. -/
structure Kept (w : World) : Prop where
  slots : Slots 0 w
  stays : ∀ r, (w.runs r).left = false

/-- In such runs no task leaves. -/
theorem stays_step (hstays : ∀ r, (w.runs r).left = false) (hin : inTask a w = true)
    (hs : limiter.step a w = some w') (r : Nat) : (w'.runs r).left = false := by
  have hset : ∀ {v : World} {x : Nat} {q : Phase}, (∀ r, (v.runs r).left = false) →
      ∀ r, ((v.setPhase x q).runs r).left = false := by
    intro v x q hv r
    unfold World.setPhase
    simp only [Function.update_apply]
    split
    · exact hv x
    · exact hv r
  obtain ⟨hlate, hleave⟩ := inTask_spec hin
  cases moves_of_step hs with
  | refused | takes | parks | move | reacquired => exact hset hstays r
  | @giveUp x q =>
    unfold World.release
    split
    · exact hset (hset hstays) r
    · exact hset hstays r
  | late ha hp =>
    subst ha
    exact absurd hp (of_decide_eq_false hlate)
  | leave ha => exact absurd ha (hleave _)
  | close =>
    unfold World.close
    dsimp only
    split <;> exact hstays r

/-- Within its task every slot is counted, in every run. -/
theorem Kept.reach {max : ℚ} {maxQueued : Option ℚ}
    (hr : (limiter.guarded inTask).Reach (World.new max maxQueued) w) : Kept w := by
  refine hr.invariant ⟨Slots.new max maxQueued, fun _ => rfl⟩ ?_
  intro a t t' h hs
  obtain ⟨hin, hs⟩ := Option.ite_none_right_eq_some.mp hs
  obtain ⟨spare, hslots, hspare⟩ := h.slots.step hs
  rw [hspare (inTask_spec hin).1] at hslots
  exact ⟨hslots, stays_step h.stays hin hs⟩

/-- With no call running or waiting no call is in a phase that counts. -/
theorem Kept.idle (h : Kept w) (hquiet : w.Quiet) {r : Nat} (hr : r < w.next) :
    (w.phase r).idle := by
  rcases hquiet r hr with hp | hp | ⟨why, hp⟩ | ⟨hl, -⟩
  · rw [hp]
    exact ⟨rfl, rfl, rfl⟩
  · rw [hp]
    exact ⟨rfl, rfl, rfl⟩
  · rw [hp]
    exact ⟨rfl, rfl, rfl⟩
  · rw [h.stays r] at hl
    cases hl

/-- **Slots are safe as long as no `yieldSlot` outlives its task.** At every
step the count is the number of calls that hold a slot, running or in the
gap, is not negative and at most the limit; a step moves at most one slot, a
released one goes to the first waiter or is returned when nobody waits, and
the waiters are served in the order they parked; and when nothing runs or
waits the counts are the initial ones. -/
theorem slot_safety (max : ℚ) (maxQueued : Option ℚ)
    (hr : (limiter.guarded inTask).Reach (World.new max maxQueued) w) :
    w.lim.active = w.holders.card
      ∧ 0 ≤ w.lim.active ∧ w.lim.active ≤ Max.max 1 ⌊max⌋
      ∧ (∀ a w', (limiter.guarded inTask).step a w = some w' → SlotMove w w')
      ∧ w.servedLog <+: w.parkedLog
      ∧ (w.lim.closed = false → w.servedLog ++ w.lim.waiters = w.parkedLog)
      ∧ (w.Quiet → w.lim.active = 0 ∧ w.lim.reacquiring = 0 ∧ w.lim.waiters = []) := by
  have hkept := Kept.reach hr
  have h := hkept.slots
  have hactive : w.lim.active = w.holders.card := by
    rw [h.active, add_zero, count_eq_card]
    rfl
  refine ⟨hactive, ?_, ?_, ?_, ?_, h.whole, ?_⟩
  · rw [hactive]
    exact Int.natCast_nonneg _
  · have hle := h.le_max
    rw [(limits_reach hr.of_guarded).1] at hle
    refine hle.trans (le_of_eq ?_)
    exact Int.toNat_of_nonneg (zero_le_one.trans (le_max_left _ _))
  · intro a w' hs
    obtain ⟨hin, hs⟩ := Option.ite_none_right_eq_some.mp hs
    exact slotMove_step h hs (inTask_spec hin).1
  · exact (List.prefix_append _ _).trans h.log
  · intro hquiet
    have hzero : ∀ f : Phase → Bool, (∀ p : Phase, p.idle → f p = false) → w.count f = 0 := by
      intro f hf
      refine tally_zero fun r hr => ?_
      rw [hf _ (hkept.idle hquiet hr)]
      rfl
    refine ⟨?_, ?_, ?_⟩
    · rw [h.active, hzero _ fun _ hp => hp.1, add_zero]
    · rw [h.reacquiring, hzero _ fun _ hp => hp.2.2]
    · refine List.eq_nil_iff_forall_not_mem.mpr fun r hmem => ?_
      rw [h.queue] at hmem
      have hlt : r < w.next := by
        refine h.lt_next fun hp => ?_
        rw [hp] at hmem
        cases hmem
      rw [(hkept.idle hquiet hlt).2.1] at hmem
      cases hmem

/-- One slot: a second call parks, is handed the slot the first gives up,
and is given back its turn by the first. -/
def handOver : List Act :=
  [.run, .run, .yieldSlot 0, .resume 1, .reacquire 0, .settle 1, .resume 0, .settle 0]

/-- A slot is handed over and given back. -/
theorem slot_safety_handOver : ∃ w, (limiter.guarded inTask).Reach (World.new 1 none) w
    ∧ w.servedLog = [1, 0] ∧ w.lim.active = 0 ∧ w.lim.reacquiring = 0 ∧ w.lim.waiters = [] := by
  obtain ⟨w, hr, hw⟩ := Machine.exists_reach_of_run (M := limiter.guarded inTask)
    (World.new 1 none) handOver
    (fun w : World => decide (w.next = 2) && decide (w.phase 0 = .returned)
      && decide (w.phase 1 = .returned) && decide (w.servedLog = [1, 0])) (by decide +kernel)
  simp only [Bool.and_eq_true, decide_eq_true_eq] at hw
  obtain ⟨⟨⟨hnext, h0⟩, h1⟩, hserved⟩ := hw
  have hquiet : w.Quiet := by
    intro r hr
    rcases (by omega : r = 0 ∨ r = 1) with rfl | rfl
    · exact .inl h0
    · exact .inl h1
  exact ⟨w, hr, hserved, (slot_safety 1 none hr).2.2.2.2.2.2 hquiet⟩

/-- One slot. A `yieldSlot` made once its task has settled releases it again:
the count is negative, or two tasks hold the slot. And a task that settles
while its `yieldSlot` goes on: the slot taken back afterwards is counted for
good, with no call running or waiting. -/
theorem yieldSlot_outlives_task :
    (∃ w, limiter.Reach (World.new 1 none) w ∧ w.lim.active = -1)
    ∧ (∃ w, limiter.Reach (World.new 1 none) w ∧ w.lim.active = 1
      ∧ w.phase 1 = .holding ∧ w.phase 2 = .holding)
    ∧ ∃ w, limiter.Reach (World.new 1 none) w ∧ w.Quiet ∧ w.lim.active = 1 := by
  refine ⟨?_, ?_, ?_⟩
  · obtain ⟨w, hr, hw⟩ := Machine.exists_reach_of_run (M := limiter) (World.new 1 none)
      [.run, .settle 0, .yieldSlot 0] (fun w => decide (w.lim.active = -1)) (by decide +kernel)
    exact ⟨w, hr, of_decide_eq_true hw⟩
  · obtain ⟨w, hr, hw⟩ := Machine.exists_reach_of_run (M := limiter) (World.new 1 none)
      [.run, .settle 0, .run, .yieldSlot 0, .run] (fun w => decide (w.lim.active = 1
        ∧ w.phase 1 = .holding ∧ w.phase 2 = .holding)) (by decide +kernel)
    exact ⟨w, hr, of_decide_eq_true hw⟩
  · obtain ⟨w, hr, hw⟩ := Machine.exists_reach_of_run (M := limiter) (World.new 1 none)
      [.run, .yieldSlot 0, .leave 0, .reacquire 0]
      (fun w => decide (w.next = 1 ∧ w.runs 0 = ⟨.holding, true⟩ ∧ w.lim.active = 1))
      (by decide +kernel)
    obtain ⟨hnext, h0, hactive⟩ := of_decide_eq_true hw
    refine ⟨w, hr, fun r hr => ?_, hactive⟩
    obtain rfl : r = 0 := by omega
    exact .inr (.inr (.inr ⟨congrArg Run.left h0, .inl (congrArg Run.phase h0)⟩))

-- ======== waiting

/-- Who has ever waited stays on the list. -/
theorem parkedLog_step (hs : limiter.step a w = some w') : w.parkedLog <+: w'.parkedLog := by
  cases moves_of_step hs with
  | parks => exact List.prefix_append ..
  | giveUp | late =>
    unfold World.release
    split <;> exact List.prefix_rfl
  | _ => exact List.prefix_rfl

/-- **No waiter is overtaken.** While a call waits no slot is free; and once
more calls have been served since than waited before it, it is one of
those. -/
theorem waiter_is_served (max : ℚ) (maxQueued : Option ℚ)
    (hr : limiter.Reach (World.new max maxQueued) w) {before behind : List Nat}
    (hq : w.lim.waiters = before ++ r :: behind) (hr' : limiter.Reach w w') :
    w.lim.active = w.lim.max ∧ (w'.lim.closed = false →
      w.servedLog.length + before.length < w'.servedLog.length →
      r ∈ w'.servedLog.drop w.servedLog.length) := by
  obtain ⟨_, h⟩ := Slots.reach hr
  obtain ⟨_, h'⟩ := Slots.reach (hr.trans hr')
  obtain ⟨hfull, hopen⟩ := h.busy (by simp [hq])
  refine ⟨hfull, fun hopen' hlen => ?_⟩
  -- both logs begin the list of all that ever waited, and the longer one has the call
  have hgrown : w.parkedLog <+: w'.parkedLog :=
    hr'.invariant (P := (w.parkedLog <+: ·.parkedLog)) List.prefix_rfl
      fun _ _ _ ht hs => ht.trans (parkedLog_step hs)
  rw [← h.whole hopen, hq, ← h'.whole hopen', List.append_cons, ← List.append_assoc] at hgrown
  obtain ⟨later, hserved⟩ := List.prefix_of_prefix_length_le
    ((List.prefix_append _ _).trans hgrown) (List.prefix_append _ _) (by simp; omega)
  rw [← hserved, List.append_assoc, List.drop_left]
  simp

/-- Three calls, one slot: the third waits behind the second and is served
after it. -/
theorem waiter_is_served_second : ∃ w w', limiter.Reach (World.new 1 none) w
    ∧ limiter.Reach w w' ∧ w.lim.waiters = [1, 2] ∧ 2 ∈ w'.servedLog.drop w.servedLog.length := by
  obtain ⟨w, hr, hw⟩ := Machine.exists_reach_of_run (M := limiter) (World.new 1 none)
    [.run, .run, .run] (fun w : World => decide (w.lim.waiters = [1] ++ 2 :: [] ∧ w.servedLog = [])
      && (limiter.run w [.settle 0, .resume 1, .settle 1]).any fun w' : World =>
        decide (w'.lim.closed = false ∧ w'.servedLog.length = 2)) (by decide +kernel)
  simp only [Bool.and_eq_true, decide_eq_true_eq, Option.any_eq_true] at hw
  obtain ⟨⟨hq, hnone⟩, w', hrun, hopen, hlen⟩ := hw
  have hr' := Machine.reach_of_run hrun
  exact ⟨w, w', hr, hr', hq, (waiter_is_served 1 none hr hq hr').2 hopen (by simp [hnone, hlen])⟩

end OpenWA.Concurrency

/-
The bound on the queue: how many fresh calls may be parked, and what the
gap of a re-acquiring task does to it.

# The count

`acquire` takes the fresh waiters to be the queue without the calls that
re-acquire. A re-acquiring call leaves the queue when it is handed a slot
and leaves the count one microtask later, so in the gap the queue has one
fresh waiter more than the difference says (`length_sub_reacquiring`): a
fresh call that lands there parks although the queue is full. Outside the
gap the difference is exact, and a refusal is never early.
-/
import OpenWA.Concurrency.Proofs.Safety

namespace OpenWA.Concurrency

open Function (update)

variable {w w' : World} {r : Nat} {f g k : Phase → Bool} {spare spare' : Int}

-- ======== the count

/-- The fresh calls that are parked. -/
def World.fresh (w : World) : Nat := (w.lim.waiters.filter fun r => w.phase r = .parked).length

theorem count_add (h : ∀ p, (f p).toInt = (g p).toInt + (k p).toInt) :
    w.count f = w.count g + w.count k := by
  unfold World.count tally
  rw [← Finset.sum_add_distrib]
  exact Finset.sum_congr rfl fun r _ => h _

/-- A list of the calls in a phase with `f` has as many as are counted. -/
theorem length_eq_count (h : Slots spare w) {l : List Nat} (hnodup : l.Nodup)
    (hl : ∀ x, x ∈ l ↔ f (w.phase x) = true) (hsettled : f .settled = false) :
    (l.length : Int) = w.count f := by
  rw [count_eq_card, ← List.toFinset_card_of_nodup hnodup]
  congr 2
  ext x
  rw [List.mem_toFinset, hl, Finset.mem_filter, Finset.mem_range]
  constructor
  · intro hx
    refine ⟨h.lt_next fun hp => ?_, hx⟩
    rw [hp, hsettled] at hx
    cases hx
  · exact fun hx => hx.2

theorem fresh_eq_count (h : Slots spare w) : (w.fresh : Int) = w.count (· = .parked) := by
  refine length_eq_count h (h.nodup.filter _) (fun x => ?_) rfl
  rw [List.mem_filter, h.queue]
  constructor
  · exact fun hx => hx.2
  · intro hx
    refine ⟨?_, hx⟩
    rw [of_decide_eq_true hx]
    rfl

/-- What `acquire` compares with `maxQueued`: the fresh waiters, less the
re-acquiring calls in the gap. -/
theorem length_sub_reacquiring (h : Slots spare w) :
    w.lim.waiters.length - w.lim.reacquiring
      = w.fresh - (w.count (· = .regranted) + w.count (· = .rerejected)) := by
  have hwaits : (w.lim.waiters.length : Int) = w.count Phase.waits :=
    length_eq_count h h.nodup h.queue rfl
  have hfresh := fresh_eq_count h
  have hsplit : w.count Phase.waits = w.count (· = .parked) + w.count (· = .reparked) := by
    refine count_add fun p => ?_
    cases p <;> rfl
  have hgap : w.count Phase.reacquires = w.count (· = .reparked)
      + w.count (fun p => decide (p = .regranted) || decide (p = .rerejected)) := by
    refine count_add fun p => ?_
    cases p <;> rfl
  have hgap' : w.count (fun p => decide (p = .regranted) || decide (p = .rerejected))
      = w.count (· = .regranted) + w.count (· = .rerejected) := by
    refine count_add fun p => ?_
    cases p <;> rfl
  rw [h.reacquiring, hgap, hgap', hwaits, hsplit, hfresh]
  omega

theorem count_nonneg : 0 ≤ w.count f := by
  rw [count_eq_card]
  exact Int.natCast_nonneg _

/-- A call is turned away exactly if as many wait already. -/
theorem full_iff (l : ConcurrencyLimiter) :
    l.full = true ↔ ∃ m ∈ l.maxQueued, (m : Int) ≤ l.waiters.length - l.reacquiring := by
  unfold ConcurrencyLimiter.full
  cases l.maxQueued with
  | none | some => simp

-- ======== a fresh call

/-- The phase a fresh call starts in, and what it found. -/
inductive Started (w : World) : Phase → Prop
  | closed (h : w.lim.closed = true) : Started w (.refused .closed)
  | queueFull (h : w.lim.full = true) : Started w (.refused .queueFull)
  | holding : Started w .holding
  | parked (hopen : w.lim.closed = false) (h : w.lim.full = false) : Started w .parked

theorem run_spec (w : World) : w.run.next = w.next + 1 ∧ w.run.lim.closed = w.lim.closed
    ∧ ∃ p, Started w p ∧ ∀ x, w.run.phase x = if x = w.next then p else w.phase x := by
  unfold World.run
  rcases acquire_cases w.lim true w.next with ⟨hclosed, heq⟩ | ⟨-, -, heq⟩
    | ⟨-, -, -, hfull, heq⟩ | ⟨hopen, -, hfull, heq⟩ <;> rw [heq]
  · exact ⟨rfl, rfl, _, .closed hclosed, fun _ => phase_setPhase⟩
  · exact ⟨rfl, rfl, _, .holding, fun _ => phase_setPhase⟩
  · exact ⟨rfl, rfl, _, .queueFull hfull, fun _ => phase_setPhase⟩
  · exact ⟨rfl, rfl, _, .parked hopen (hfull rfl), fun _ => phase_setPhase⟩

variable {p : Phase} {a : Act}

/-- A fresh call that parks is one more; any other changes nothing. -/
theorem fresh_run (h : Slots spare w)
    (hphase : ∀ x, w.run.phase x = if x = w.next then p else w.phase x) :
    (w.run.fresh : Int) = w.fresh + (decide (p = .parked)).toInt := by
  obtain ⟨_, h', -⟩ := h.step (a := .run) rfl
  rw [fresh_eq_count h', fresh_eq_count h]
  unfold World.count
  rw [(run_spec w).1, tally_succ (f := fun r => (decide (w.phase r = .parked)).toInt)]
  · rw [hphase, if_pos rfl]
  · intro j hj
    rw [hphase, if_neg (by omega)]

/-- A fresh call is refused only once the limiter is closed or as many fresh
calls as the limit are parked. -/
theorem queue_of_refused (h : Slots spare w) {why : Refusal}
    (hp : w.run.phase w.next = .refused why) :
    w.lim.closed = true ∨ ∃ m ∈ w.lim.maxQueued, m ≤ w.fresh := by
  obtain ⟨-, -, p, hstarted, hphase⟩ := run_spec w
  rw [hphase, if_pos rfl] at hp
  cases hstarted with
  | closed hclosed => exact .inl hclosed
  | queueFull hfull =>
    obtain ⟨m, hm, hle⟩ := (full_iff w.lim).mp hfull
    rw [length_sub_reacquiring h] at hle
    have h₁ : 0 ≤ w.count (· = .regranted) := count_nonneg
    have h₂ : 0 ≤ w.count (· = .rerejected) := count_nonneg
    exact .inr ⟨m, hm, by omega⟩
  | holding | parked => cases hp

-- ======== the phases

/-- Only a fresh call gets to be parked as one, and only `close` rejects. -/
structure Onward (w w' : World) : Prop where
  next : w'.next = w.next
  parked : ∀ x, w'.phase x = .parked → w.phase x = .parked
  rerejected : ∀ x, w'.phase x = .rerejected → w.phase x = .rerejected ∨ w'.lim.closed = true
  closed : w.lim.closed = true → w'.lim.closed = true

/-- One call moves on, to another phase than these two. -/
theorem onward_of_phase (hphase : ∀ x, w'.phase x = if x = r then p else w.phase x)
    (hnext : w'.next = w.next) (hclosed : w'.lim.closed = w.lim.closed) (hp : p ≠ .parked)
    (hp' : p ≠ .rerejected) : Onward w w' where
  next := hnext
  parked := by
    intro x hx
    rw [hphase] at hx
    split at hx
    · exact absurd hx hp
    · exact hx
  rerejected := by
    intro x hx
    rw [hphase] at hx
    split at hx
    · exact absurd hx hp'
    · exact .inl hx
  closed := fun h => hclosed.trans h

theorem Onward.trans {w'' : World} (h : Onward w w') (h' : Onward w' w'') : Onward w w'' where
  next := h'.next.trans h.next
  parked := fun x hx => h.parked x (h'.parked x hx)
  rerejected := by
    intro x hx
    rcases h'.rerejected x hx with hx' | hclosed
    · exact (h.rerejected x hx').imp_right h'.closed
    · exact .inr hclosed
  closed := fun hc => h'.closed (h.closed hc)

theorem onward_release (hq : ∀ x ∈ w.lim.waiters, (w.phase x).waits = true) :
    Onward w w.release := by
  cases hw : w.lim.waiters with
  | nil =>
    rw [release_nil hw]
    exact ⟨rfl, fun _ h => h, fun _ h => .inl h, fun h => h⟩
  | cons x rest =>
    rw [release_cons hw]
    have hwake : (w.phase x).wake ≠ .parked ∧ (w.phase x).wake ≠ .rerejected := by
      cases hp : w.phase x <;> simp_all [Phase.waits, Phase.wake]
    exact onward_of_phase (fun _ => phase_setPhase) rfl rfl hwake.1 hwake.2

/-- A call that does not wait gives a slot up. -/
theorem onward_giveUp (h : Slots spare w) {v : World} (hphase : v.phase = w.phase)
    (hnext : v.next = w.next) (hlim : v.lim = w.lim) (hp : (w.phase r).waits = false)
    (hidle : p.idle) (hp' : p ≠ .rerejected) : Onward w (v.setPhase r p).release := by
  have hparked : p ≠ .parked := by
    rintro rfl
    cases hidle.2.1
  have hset : Onward w (v.setPhase r p) :=
    onward_of_phase (fun _ => hphase ▸ phase_setPhase) hnext (hlim ▸ rfl) hparked hp'
  refine hset.trans (onward_release fun x hx => ?_)
  have hwaits := (h.queue x).mp (hlim ▸ hx)
  rw [phase_setPhase, hphase]
  split
  next heq =>
    rw [heq, hp] at hwaits
    cases hwaits
  next => exact hwaits

/-- No step but a call parks a fresh call. -/
theorem onward_step (h : Slots spare w) (ha : a ≠ .run) (hs : limiter.step a w = some w') :
    Onward w w' := by
  cases moves_of_step hs with
  | refused hasks hidle hp =>
    cases hasks with
    | fresh => exact absurd rfl ha
    | again =>
      refine onward_of_phase (fun _ => phase_setPhase) rfl rfl ?_ hp
      rintro rfl
      cases hidle.2.1
  | takes hasks | parks hasks =>
    cases hasks with
    | fresh => exact absurd rfl ha
    | again => exact onward_of_phase (fun _ => phase_setPhase) rfl rfl (by simp) (by simp)
  | giveUp hp hidle hp' => exact onward_giveUp h rfl rfl rfl (by rw [hp]; rfl) hidle hp'
  | @late r _ hp =>
    exact onward_giveUp h (funext (phase_leave w r)) rfl rfl (by rw [hp]; rfl) ⟨rfl, rfl, rfl⟩
      (by simp)
  | move _ _ _ _ hp | reacquired _ _ _ _ _ hp =>
    exact onward_of_phase (fun _ => phase_setPhase) rfl rfl hp.1 hp.2
  | @leave r =>
    have hphase := phase_leave w r
    exact ⟨rfl, fun x hx => (hphase x).symm.trans hx,
      fun x hx => .inl ((hphase x).symm.trans hx), fun hc => hc⟩
  | close =>
    refine ⟨rfl, fun x hx => ?_, fun _ _ => .inr rfl, fun _ => rfl⟩
    rw [phase_close] at hx
    split at hx
    · cases hp : w.phase x <;> simp_all [Phase.reject]
    · exact hx

theorem Onward.fresh_le (hw : Onward w w') (h : Slots spare w) (h' : Slots spare' w') :
    w'.fresh ≤ w.fresh := by
  have hle : w'.count (· = .parked) ≤ w.count (· = .parked) := by
    unfold World.count
    rw [hw.next]
    refine tally_le fun x _ => ?_
    by_cases hx : w'.phase x = .parked
    · simp [hx, hw.parked x hx]
    · simp only [hx, decide_false, Bool.toInt_false]
      cases decide (w.phase x = .parked) <;> decide
  rw [← fresh_eq_count h, ← fresh_eq_count h'] at hle
  exact_mod_cast hle

-- ======== the bound

/-- No fresh call lands while a re-acquiring task is between the hand-over
of its slot and its next microtask. -/
def OutsideGap : Act → World → Prop
  | .run, w => ∀ r, w.phase r ≠ .regranted
  | _, _ => True

/-- The invariant of the bound. -/
structure Bounded (w : World) : Prop where
  slots : ∃ spare, Slots spare w
  rerejected : ∀ x, w.phase x = .rerejected → w.lim.closed = true
  le : ∀ m ∈ w.lim.maxQueued, w.fresh ≤ m

theorem count_eq_zero_of_forall {q : Phase} (h : ∀ r, w.phase r ≠ q) : w.count (· = q) = 0 := by
  refine tally_zero fun r _ => ?_
  simp [h r]

theorem Bounded.run (h : Bounded w) (hgap : ∀ r, w.phase r ≠ .regranted) : Bounded w.run := by
  obtain ⟨-, hclosed, p, hstarted, hphase⟩ := run_spec w
  obtain ⟨_, hslots⟩ := h.slots
  obtain ⟨_, hslots', -⟩ := hslots.step (a := .run) rfl
  have hfresh := fresh_run hslots hphase
  have hlimits := limits_step (a := .run) (w := w) rfl
  refine ⟨⟨_, hslots'⟩, ?_, ?_⟩
  · intro x hx
    rw [hphase] at hx
    split at hx
    · rw [hx] at hstarted
      cases hstarted
    · exact hclosed.trans (h.rerejected x hx)
  · intro m hm
    rw [hlimits.2] at hm
    have hle := h.le m hm
    cases hstarted with
    | parked hopen hfull =>
      -- nobody re-acquires in the gap, so the difference is the fresh waiters
      have hrerejected : ∀ r, w.phase r ≠ .rerejected := by
        intro r hr
        rw [h.rerejected r hr] at hopen
        cases hopen
      have hlt : ¬ ((m : Int) ≤ w.lim.waiters.length - w.lim.reacquiring) := by
        intro hge
        rw [(full_iff w.lim).mpr ⟨m, hm, hge⟩] at hfull
        cases hfull
      rw [length_sub_reacquiring hslots, count_eq_zero_of_forall hgap,
        count_eq_zero_of_forall hrerejected] at hlt
      simp only [decide_true, Bool.toInt_true] at hfresh
      omega
    | closed | queueFull | holding =>
      simp only [reduceCtorEq, decide_false, Bool.toInt_false] at hfresh; omega

/-- Every step outside the gap keeps the bound. -/
theorem Bounded.step (h : Bounded w) (hgap : OutsideGap a w) (hs : limiter.step a w = some w') :
    Bounded w' := by
  by_cases ha : a = .run
  · subst ha
    cases hs
    exact h.run hgap
  · obtain ⟨_, hslots⟩ := h.slots
    obtain ⟨_, hslots', -⟩ := hslots.step hs
    have hon := onward_step hslots ha hs
    refine ⟨⟨_, hslots'⟩, ?_, ?_⟩
    · intro x hx
      rcases hon.rerejected x hx with hx' | hclosed
      · exact hon.closed (h.rerejected x hx')
      · exact hclosed
    · intro m hm
      rw [(limits_step hs).2] at hm
      exact (hon.fresh_le hslots hslots').trans (h.le m hm)

theorem Bounded.new (max : ℚ) (maxQueued : Option ℚ) : Bounded (World.new max maxQueued) where
  slots := ⟨0, Slots.new max maxQueued⟩
  rerejected := by
    intro x hx
    cases hx
  le := fun m _ => Nat.zero_le m

/-- A fresh call is refused only once the limiter is closed or as many fresh
calls as `maxQueued` are parked; and as long as none lands in the gap of a
re-acquiring task, never more of them are. -/
theorem queue_bound (max : ℚ) (maxQueued : Option ℚ)
    (hr : limiter.Reach (World.new max maxQueued) w) :
    (∀ w' why, limiter.step .run w = some w' → w'.phase w.next = .refused why →
        w.lim.closed = true ∨ ∃ m ∈ maxQueued, Max.max 0 ⌊m⌋ ≤ (w.fresh : Int))
    ∧ ((limiter.restrict OutsideGap).Reach (World.new max maxQueued) w →
        ∀ m ∈ maxQueued, (w.fresh : Int) ≤ Max.max 0 ⌊m⌋) := by
  have hqueued : w.lim.maxQueued = maxQueued.map fun m => (Max.max 0 ⌊m⌋).toNat :=
    (limits_reach hr).2
  have hnonneg : ∀ m : ℚ, ((Max.max 0 ⌊m⌋).toNat : Int) = Max.max 0 ⌊m⌋ := fun m =>
    Int.toNat_of_nonneg (le_max_left _ _)
  constructor
  · intro w' why hs hp
    cases hs
    obtain ⟨_, hslots⟩ := Slots.reach hr
    refine (queue_of_refused hslots hp).imp_right ?_
    rintro ⟨n, hn, hle⟩
    rw [hqueued] at hn
    obtain ⟨m, hm, rfl⟩ := Option.mem_map.mp hn
    exact ⟨m, hm, by rw [← hnonneg m]; exact_mod_cast hle⟩
  · intro hgap m hm
    have hbounded : Bounded w := by
      refine hgap.invariant (Bounded.new max maxQueued) ?_
      intro a t t' ht hs
      obtain ⟨hG, hs⟩ := Machine.restrict_step.mp hs
      exact ht.step hG hs
    have hle := hbounded.le (Max.max 0 ⌊m⌋).toNat
      (by rw [hqueued]; exact Option.mem_map_of_mem _ hm)
    rw [← hnonneg m]
    exact_mod_cast hle

theorem not_regranted_run (h : ∀ r, w.phase r ≠ .regranted) (r : Nat) :
    w.run.phase r ≠ .regranted := by
  obtain ⟨-, -, p, hstarted, hphase⟩ := run_spec w
  rw [hphase]
  split
  · cases hstarted <;> simp
  · exact h r

/-- One slot and one place in the queue, both taken. -/
theorem queue_bound_third_call : ∃ w w',
    (limiter.restrict OutsideGap).Reach (World.new 1 (some 1)) w
      ∧ limiter.step .run w = some w' ∧ w'.phase w.next = .refused .queueFull
      ∧ w.fresh = 1 := by
  have h₀ : ∀ r, (World.new 1 (some 1)).phase r ≠ .regranted := by
    intro r hr
    cases hr
  have hr : (limiter.restrict OutsideGap).Reach (World.new 1 (some 1))
      (World.new 1 (some 1)).run.run := by
    have hfirst : (limiter.restrict OutsideGap).step .run (World.new 1 (some 1))
        = some (World.new 1 (some 1)).run := Machine.restrict_step.mpr ⟨h₀, rfl⟩
    exact .step .run (.step .run .refl hfirst)
      (Machine.restrict_step.mpr ⟨not_regranted_run h₀, rfl⟩)
  have hrefused : (World.new 1 (some 1)).run.run.run.phase (World.new 1 (some 1)).run.run.next
      = .refused .queueFull := by
    decide +kernel
  obtain ⟨hfull, hle⟩ := queue_bound 1 (some 1) hr.of_restrict
  refine ⟨_, _, hr, rfl, hrefused, ?_⟩
  have hle' := hle hr 1 rfl
  rcases hfull _ _ rfl hrefused with hclosed | ⟨m, hm, hge⟩
  · exact absurd hclosed (by decide +kernel)
  · cases hm
    have hone : Max.max 0 ⌊(1 : ℚ)⌋ = 1 := by simp
    omega

/-- No place in the queue: task 0 gives its slot to task 1 and parks for one
again, task 1 hands it the slot back, and a third call made before task 0
goes on finds `0 - 1` fresh waiters and parks. -/
theorem parked_in_the_gap : ∃ w, limiter.Reach (World.new 1 (some 0)) w ∧ w.fresh = 1 := by
  obtain ⟨w, hr, hw⟩ := Machine.exists_reach_of_run (M := limiter) (World.new 1 (some 0))
    [.run, .yieldSlot 0, .run, .reacquire 0, .yieldSlot 1, .run]
    (fun w : World => decide (w.fresh = 1)) (by decide +kernel)
  exact ⟨w, hr, of_decide_eq_true hw⟩

end OpenWA.Concurrency

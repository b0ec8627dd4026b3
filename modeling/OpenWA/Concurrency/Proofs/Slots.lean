/-
The bookkeeping of the limiter: its count against the number of calls a
slot is counted for, the ones in the gap included, and its queue.

# The invariant

`Slots spare w` is the bookkeeping with `spare` slots counted for no call:
a release gives the slot of one call up (one more) before it is handed to
the next waiter or returned. A step leaves `spare` as it was, unless it is a
`yieldSlot` made after its task has settled, which releases a slot the call
does not have (`Slots.step`); without such calls it stays 0.

Nobody waits while a slot is free (`Slots.busy`), so a slot that is
returned is one nobody was waiting for; and the waiters served are the
first that parked (`Slots.log`).
-/
import OpenWA.Concurrency.World
import OpenWA.Lib.Tally

namespace OpenWA.Concurrency

open List

open Function (update)

-- ======== vocabulary

/-- How many calls are in a phase with `f`. -/
def World.count (w : World) (f : Phase → Bool) : Int := tally w.next fun r => (f (w.phase r)).toInt

/-- The bookkeeping, with `spare` slots counted for no call. -/
structure Slots (spare : Int) (w : World) : Prop where
  unused : ∀ r, w.next ≤ r → w.runs r = { phase := .settled, left := false }
  active : w.lim.active = w.count Phase.holds + spare
  le_max : w.lim.active ≤ w.lim.max
  reacquiring : w.lim.reacquiring = w.count Phase.reacquires
  queue : ∀ r, r ∈ w.lim.waiters ↔ (w.phase r).waits = true
  nodup : w.lim.waiters.Nodup
  busy : w.lim.waiters ≠ [] → w.lim.active = w.lim.max ∧ w.lim.closed = false
  log : w.servedLog ++ w.lim.waiters <+: w.parkedLog
  whole : w.lim.closed = false → w.servedLog ++ w.lim.waiters = w.parkedLog

variable {w : World} {r x : Nat} {p : Phase} {f : Phase → Bool} {spare : Int}

-- ======== the readings

@[simp] theorem phase_setPhase : (w.setPhase r p).phase x = if x = r then p else w.phase x := by
  unfold World.phase World.setPhase
  simp only [Function.update_apply]
  split <;> rfl

/-- The phases stay when a task is over. -/
theorem phase_leave (w : World) (r x : Nat) : (w.leave r).phase x = w.phase x := by
  unfold World.phase World.leave
  simp only [Function.update_apply]
  split
  next heq => rw [heq]
  next => rfl

@[simp] theorem setPhase_lim : (w.setPhase r p).lim = w.lim := rfl
@[simp] theorem setPhase_next : (w.setPhase r p).next = w.next := rfl

theorem setPhase_unused (hr : r < w.next)
    (h : ∀ r, w.next ≤ r → w.runs r = { phase := .settled, left := false }) :
    ∀ x, w.next ≤ x → (w.setPhase r p).runs x = { phase := .settled, left := false } := by
  intro x hx
  have hne : x ≠ r := by omega
  unfold World.setPhase
  simp only [Function.update_apply, if_neg hne]
  exact h x hx

/-- One call changes its phase. -/
theorem count_setPhase (hr : r < w.next) :
    (w.setPhase r p).count f = w.count f + ((f p).toInt - (f (w.phase r)).toInt) := by
  unfold World.count
  rw [setPhase_next, tally_change hr]
  · rw [phase_setPhase, if_pos rfl]
  · intro j hj
    rw [phase_setPhase, if_neg hj]

section

variable (h : Slots spare w)
include h

/-- A call that is counted, waits or re-acquires has been made. -/
theorem Slots.lt_next (hp : w.phase r ≠ .settled) : r < w.next := by
  by_contra hge
  refine hp ?_
  unfold World.phase
  rw [h.unused r (Nat.not_lt.mp hge)]

-- ======== one call moves on

/-- One call moves to another phase, and the counts and the queue with it. -/
theorem Slots.change (hr : r < w.next) {v : World} {spare' : Int}
    (hruns : v.runs = (w.setPhase r p).runs) (hnext : v.next = w.next)
    (hactive : v.lim.active
      = w.lim.active - spare + spare' + (p.holds.toInt - (w.phase r).holds.toInt))
    (hle : v.lim.active ≤ v.lim.max)
    (hre : v.lim.reacquiring
      = w.lim.reacquiring + (p.reacquires.toInt - (w.phase r).reacquires.toInt))
    (hqueue : ∀ x, x ∈ v.lim.waiters ↔ if x = r then p.waits = true else x ∈ w.lim.waiters)
    (hnodup : v.lim.waiters.Nodup)
    (hbusy : v.lim.waiters ≠ [] → v.lim.active = v.lim.max ∧ v.lim.closed = false)
    (hlog : v.servedLog ++ v.lim.waiters <+: v.parkedLog)
    (hwhole : v.lim.closed = false → v.servedLog ++ v.lim.waiters = v.parkedLog) :
    Slots spare' v := by
  have hphase : ∀ x, v.phase x = (w.setPhase r p).phase x := by
    intro x
    unfold World.phase
    rw [hruns]
  have hcount : ∀ f, v.count f = w.count f + ((f p).toInt - (f (w.phase r)).toInt) := by
    intro f
    rw [← count_setPhase hr]
    unfold World.count
    simp only [hphase, hnext, setPhase_next]
  refine ⟨?_, ?_, hle, ?_, ?_, hnodup, hbusy, hlog, hwhole⟩
  · rw [hruns, hnext]
    exact setPhase_unused hr h.unused
  · have := h.active
    rw [hcount]
    omega
  · rw [hcount, hre, h.reacquiring]
  · intro x
    rw [hqueue, hphase, phase_setPhase]
    split
    · rfl
    · exact h.queue x

/-- A call that neither parks nor leaves the queue. -/
theorem Slots.queue_same (hwaits : p.waits = (w.phase r).waits) :
    ∀ x, x ∈ w.lim.waiters ↔ if x = r then p.waits = true else x ∈ w.lim.waiters := by
  intro x
  split
  next heq => rw [heq, h.queue, hwaits]
  next => rfl

/-- A call moves on without parking and without leaving the queue: what the
counts change by is what its phase does. -/
theorem Slots.setPhase (hr : r < w.next)
    (hwaits : p.waits = (w.phase r).waits) (hre : p.reacquires = (w.phase r).reacquires) :
    Slots (spare + ((w.phase r).holds.toInt - p.holds.toInt)) (w.setPhase r p) := by
  refine h.change hr rfl rfl ?_ h.le_max ?_ (h.queue_same hwaits) h.nodup h.busy h.log h.whole
  · rw [setPhase_lim]
    omega
  · rw [setPhase_lim, hre]
    omega

/-- The end of a re-acquire that was parked. -/
theorem Slots.reacquired (hr : r < w.next)
    (hwaits : p.waits = (w.phase r).waits) (hre : (w.phase r).reacquires = true)
    (hre' : p.reacquires = false) (hholds : p.holds = (w.phase r).holds) :
    Slots spare (w.reacquired r p) := by
  refine h.change hr rfl rfl ?_ h.le_max ?_ (h.queue_same hwaits) h.nodup h.busy h.log h.whole
  · show w.lim.active = _
    rw [hholds]
    omega
  · show w.lim.reacquiring - 1 = _
    rw [hre, hre']
    rfl

end

-- ======== a release

theorem wake_of_waits (h : p.waits = true) : p.wake.holds = true ∧ p.wake.waits = false
    ∧ p.wake.reacquires = p.reacquires ∧ p.holds = false := by
  cases p <;> simp_all [Phase.waits, Phase.wake, Phase.holds, Phase.reacquires]

/-- A slot nobody waits for is returned. -/
theorem release_nil (hq : w.lim.waiters = []) :
    w.release = { w with lim := { w.lim with active := w.lim.active - 1 } } := by
  simp only [World.release, ConcurrencyLimiter.release, hq]

/-- Otherwise it goes to the first waiter. -/
theorem release_cons {rest : List Nat} (hq : w.lim.waiters = x :: rest) :
    w.release = { (({ w with lim := { w.lim with waiters := rest } } : World).setPhase x
      (w.phase x).wake) with servedLog := w.servedLog ++ [x] } := by
  simp only [World.release, ConcurrencyLimiter.release, hq]

/-- A release settles what is in hand. -/
theorem Slots.release (h : Slots (spare + 1) w) : Slots spare w.release := by
  cases hq : w.lim.waiters with
  | nil =>
    rw [release_nil hq]
    refine ⟨h.unused, ?_, ?_, h.reacquiring, h.queue, h.nodup, fun hne => absurd hq hne, h.log,
      h.whole⟩
    · show w.lim.active - 1 = w.count Phase.holds + spare
      rw [h.active]
      omega
    · show w.lim.active - 1 ≤ w.lim.max
      have := h.le_max
      omega
  | cons next rest =>
    rw [release_cons hq]
    have hnodup := h.nodup
    rw [hq] at hnodup
    obtain ⟨hnotMem, hrest⟩ := nodup_cons.mp hnodup
    have hwaits : (w.phase next).waits = true := by
      rw [← h.queue, hq]
      exact mem_cons_self
    obtain ⟨hholds, hwoken, hre, hnot⟩ := wake_of_waits hwaits
    have hlt : next < w.next := by
      refine h.lt_next ?_
      intro hset
      rw [hset] at hwaits
      cases hwaits
    have hbusy := h.busy (by rw [hq]; exact cons_ne_nil _ _)
    refine h.change hlt rfl rfl ?_ h.le_max ?_ ?_ hrest (fun _ => hbusy) ?_ ?_
    · show w.lim.active = _
      rw [hholds, hnot, Bool.toInt_true, Bool.toInt_false]
      omega
    · show w.lim.reacquiring = _
      rw [hre]
      omega
    · intro x
      split
      next heq =>
        rw [heq, hwoken]
        simpa using hnotMem
      next hne =>
        rw [hq, mem_cons]
        simp [hne]
    · show w.servedLog ++ [next] ++ rest <+: w.parkedLog
      have := h.log
      rw [hq] at this
      simpa using this
    · intro hopen
      show w.servedLog ++ [next] ++ rest = w.parkedLog
      have := h.whole hopen
      rw [hq] at this
      simpa using this

-- ======== an acquire

/-- What `acquire` can do. -/
theorem acquire_cases (l : ConcurrencyLimiter) (bounded : Bool) (r : Nat) :
    (l.closed = true ∧ l.acquire bounded r = .error .closed)
    ∨ (l.closed = false ∧ l.active < l.max
        ∧ l.acquire bounded r = .ok ({ l with active := l.active + 1 }, false))
    ∨ (l.closed = false ∧ l.max ≤ l.active ∧ bounded = true ∧ l.full = true
        ∧ l.acquire bounded r = .error .queueFull)
    ∨ (l.closed = false ∧ l.max ≤ l.active ∧ (bounded = true → l.full = false)
        ∧ l.acquire bounded r = .ok ({ l with waiters := l.waiters ++ [r] }, true)) := by
  unfold ConcurrencyLimiter.acquire
  cases hc : l.closed with
  | true => exact .inl ⟨rfl, rfl⟩
  | false =>
    refine .inr ?_
    rw [if_neg (by simp)]
    by_cases hlt : l.active < l.max
    · exact .inl ⟨rfl, hlt, by rw [if_pos hlt]⟩
    · refine .inr ?_
      rw [if_neg hlt]
      cases hb : bounded && l.full with
      | true =>
        obtain ⟨hbounded, hfull⟩ := Bool.and_eq_true_iff.mp hb
        exact .inl ⟨rfl, Int.not_lt.mp hlt, hbounded, hfull, rfl⟩
      | false =>
        refine .inr ⟨rfl, Int.not_lt.mp hlt, ?_, rfl⟩
        intro hbounded
        rw [hbounded, Bool.true_and] at hb
        exact hb

/-- A phase outside all three counts. -/
def Phase.idle (p : Phase) : Prop := p.holds = false ∧ p.waits = false ∧ p.reacquires = false

/-- A free slot is taken. -/
theorem Slots.take (h : Slots spare w) (hr : r < w.next) (hidle : (w.phase r).idle)
    (hlt : w.lim.active < w.lim.max) :
    Slots spare (({ w with lim := { w.lim with active := w.lim.active + 1 } } : World).setPhase r
      .holding) := by
  obtain ⟨hholds, hwaits, hre⟩ := hidle
  refine h.change hr rfl rfl ?_ ?_ ?_ (h.queue_same ?_) h.nodup ?_ h.log h.whole
  · show w.lim.active + 1 = _
    rw [hholds, show Phase.holding.holds = true from rfl, Bool.toInt_true, Bool.toInt_false]
    omega
  · show w.lim.active + 1 ≤ w.lim.max
    omega
  · show w.lim.reacquiring = _
    rw [hre]
    simp [Phase.reacquires]
  · rw [hwaits]
    rfl
  · -- nobody waits while a slot is free
    intro hne
    have := (h.busy hne).1
    omega

/-- A call parks behind all others. -/
theorem Slots.park (h : Slots spare w) (hr : r < w.next) (hidle : (w.phase r).idle)
    (hopen : w.lim.closed = false) (hmax : w.lim.max ≤ w.lim.active)
    (hp : p.holds = false) (hp' : p.waits = true) :
    Slots spare (w.park { w.lim with
      waiters := w.lim.waiters ++ [r]
      reacquiring := w.lim.reacquiring + p.reacquires.toInt } r p) := by
  obtain ⟨hholds, hwaits, hre⟩ := hidle
  have hnotMem : r ∉ w.lim.waiters := by
    rw [h.queue, hwaits]
    exact Bool.false_ne_true
  have hlog : w.servedLog ++ (w.lim.waiters ++ [r]) = w.parkedLog ++ [r] := by
    rw [← append_assoc, h.whole hopen]
  refine h.change hr rfl rfl ?_ h.le_max ?_ ?_ ?_ ?_ ?_ fun _ => hlog
  · show w.lim.active = _
    rw [hholds, hp]
    omega
  · show w.lim.reacquiring + p.reacquires.toInt = _
    rw [hre]
    simp
  · intro x
    show x ∈ w.lim.waiters ++ [r] ↔ _
    split
    next heq => simp [heq, hp']
    next hne => simp [hne]
  · show (w.lim.waiters ++ [r]).Nodup
    rw [nodup_append]
    refine ⟨h.nodup, nodup_singleton r, ?_⟩
    intro a ha b hb heq
    rw [mem_singleton.mp hb] at heq
    exact hnotMem (heq ▸ ha)
  · intro _
    exact ⟨le_antisymm h.le_max hmax, hopen⟩
  · exact ⟨[], by rw [append_nil]; exact hlog⟩

-- ======== the steps

theorem Slots.phase_next (h : Slots spare w) : w.phase w.next = .settled := by
  unfold World.phase
  rw [h.unused w.next le_rfl]

theorem Slots.count_grow (h : Slots spare w) (hf : f .settled = false) :
    ({ w with next := w.next + 1 } : World).count f = w.count f := by
  show tally (w.next + 1) (fun r => (f (w.phase r)).toInt) = w.count f
  rw [tally_succ (fun _ _ => rfl), h.phase_next, hf]
  exact add_zero _

/-- Room for a new call. -/
theorem Slots.grow (h : Slots spare w) : Slots spare { w with next := w.next + 1 } := by
  refine ⟨fun r hr => h.unused r (by simp only at hr; omega), ?_, h.le_max, ?_, h.queue, h.nodup,
    h.busy, h.log, h.whole⟩
  · rw [h.count_grow rfl]
    exact h.active
  · rw [h.count_grow rfl]
    exact h.reacquiring

/-- What asks for a slot: a fresh call, or one whose `yieldSlot` is over. It
is parked as `p` if it has to wait, and `n` calls have been made then. -/
inductive Asks (w : World) : Act → Nat → Nat → Phase → Prop
  | fresh : Asks w .run w.next (w.next + 1) .parked
  | again {r : Nat} (hp : w.phase r = .yielded) : Asks w (.reacquire r) r w.next .reparked

variable {a : Act} {n : Nat}

theorem Slots.asks (h : Slots spare w) (ha : Asks w a r n p) : Slots spare { w with next := n }
    ∧ r < n ∧ (w.phase r).idle ∧ p.holds = false ∧ p.waits = true := by
  cases ha with
  | fresh =>
    rw [h.phase_next]
    exact ⟨h.grow, Nat.lt_succ_self _, ⟨rfl, rfl, rfl⟩, rfl, rfl⟩
  | again hp =>
    refine ⟨h, h.lt_next (by rw [hp]; simp), ?_, rfl, rfl⟩
    rw [hp]
    exact ⟨rfl, rfl, rfl⟩

theorem reject_spec (p : Phase) : p.reject.holds = p.holds ∧ p.reject.waits = false
    ∧ p.reject.reacquires = p.reacquires := by
  cases p <;> exact ⟨rfl, rfl, rfl⟩

theorem phase_close : w.close.phase x = if x ∈ w.lim.waiters then (w.phase x).reject
    else w.phase x := by
  unfold World.close World.phase ConcurrencyLimiter.close
  simp only [contains_iff_mem]
  split <;> rfl

/-- A close rejects those that wait and keeps the count. -/
theorem Slots.close (h : Slots spare w) : Slots spare w.close := by
  have hcount : ∀ f : Phase → Bool, (∀ p, f p.reject = f p) → w.close.count f = w.count f := by
    intro f hf
    refine tally_congr fun x _ => ?_
    rw [phase_close]
    split
    · rw [hf]
    · rfl
  refine ⟨?_, ?_, h.le_max, ?_, ?_, nodup_nil, fun hne => absurd rfl hne, ?_, ?_⟩
  · intro x hx
    have hnot : x ∉ w.lim.waiters := by
      rw [h.queue]
      unfold World.phase
      rw [h.unused x hx]
      exact Bool.false_ne_true
    show (if w.lim.waiters.contains x then _ else w.runs x) = _
    rw [if_neg (by simpa using hnot)]
    exact h.unused x hx
  · rw [hcount _ fun p => (reject_spec p).1]
    exact h.active
  · rw [hcount _ fun p => (reject_spec p).2.2]
    exact h.reacquiring
  · intro x
    show x ∈ [] ↔ (w.close.phase x).waits = true
    rw [phase_close]
    split
    next => simp [(reject_spec _).2.1]
    next hnot =>
      rw [h.queue] at hnot
      simp [hnot]
  · show w.servedLog ++ [] <+: w.parkedLog
    rw [append_nil]
    exact (prefix_append _ _).trans h.log
  · intro hopen
    cases hopen

/-- The task is over: the phases stay. -/
theorem Slots.leave (h : Slots spare w) (hr : r < w.next) : Slots spare (w.leave r) := by
  have hcount : ∀ f, (w.leave r).count f = w.count f := by
    intro f
    refine tally_congr fun x _ => ?_
    rw [phase_leave]
  refine ⟨?_, ?_, h.le_max, ?_, ?_, h.nodup, h.busy, h.log, h.whole⟩
  · intro x hx
    have hne : x ≠ r := by
      rintro rfl
      exact absurd hr (Nat.not_lt.mpr hx)
    show update w.runs r { w.runs r with left := true } x = _
    rw [Function.update_of_ne hne]
    exact h.unused x hx
  · rw [hcount]
    exact h.active
  · rw [hcount]
    exact h.reacquiring
  · intro x
    rw [phase_leave]
    exact h.queue x

/-- A call gives its slot up and moves to a phase outside the counts. -/
theorem Slots.giveUp (h : Slots spare w) (hp : w.phase r = .holding) (hidle : p.idle) :
    Slots spare (w.setPhase r p).release := by
  have hlt : r < w.next := h.lt_next (by rw [hp]; simp)
  have hspare := h.setPhase (p := p) hlt (by rw [hp, hidle.2.1]; rfl) (by rw [hp, hidle.2.2]; rfl)
  rw [hp, hidle.1] at hspare
  exact Slots.release hspare

/-- A call moves on and its slot with it, if it has one. -/
theorem Slots.move (h : Slots spare w) (hr : r < w.next)
    (hholds : p.holds = (w.phase r).holds) (hwaits : p.waits = (w.phase r).waits)
    (hre : p.reacquires = (w.phase r).reacquires) : Slots spare (w.setPhase r p) := by
  have := h.setPhase hr hwaits hre
  rw [hholds, sub_self, add_zero] at this
  exact this

/-- What a step can do. -/
inductive Moves (w : World) (a : Act) : World → Prop
  | refused {r n : Nat} {q p : Phase} (ha : Asks w a r n q) (hidle : p.idle)
      (hp : p ≠ .rerejected) : Moves w a (({ w with next := n } : World).setPhase r p)
  | takes {r n : Nat} {q : Phase} (ha : Asks w a r n q) (hfree : w.lim.active < w.lim.max) :
      Moves w a (({ w with
        lim := { w.lim with active := w.lim.active + 1 }
        next := n } : World).setPhase r .holding)
  | parks {r n : Nat} {p : Phase} (ha : Asks w a r n p) (hopen : w.lim.closed = false)
      (hmax : w.lim.max ≤ w.lim.active) :
      Moves w a (({ w with next := n } : World).park { w.lim with
        waiters := w.lim.waiters ++ [r]
        reacquiring := w.lim.reacquiring + p.reacquires.toInt } r p)
  | giveUp {r : Nat} {p : Phase} (hp : w.phase r = .holding) (hidle : p.idle)
      (hp' : p ≠ .rerejected) : Moves w a (w.setPhase r p).release
  /-- A `yieldSlot` of a call that has released its slot for good. -/
  | late {r : Nat} (ha : a = .yieldSlot r) (hp : w.phase r = .returned) :
      Moves w a ((w.leave r).setPhase r .yielded).release
  | move {r : Nat} {p : Phase} (hne : w.phase r ≠ .settled)
      (hholds : p.holds = (w.phase r).holds) (hwaits : p.waits = (w.phase r).waits)
      (hre : p.reacquires = (w.phase r).reacquires) (hp : p ≠ .parked ∧ p ≠ .rerejected) :
      Moves w a (w.setPhase r p)
  | reacquired {r : Nat} {p : Phase} (hne : w.phase r ≠ .settled)
      (hholds : p.holds = (w.phase r).holds) (hwaits : p.waits = (w.phase r).waits)
      (hre : (w.phase r).reacquires = true) (hre' : p.reacquires = false)
      (hp : p ≠ .parked ∧ p ≠ .rerejected) : Moves w a (w.reacquired r p)
  | leave {r : Nat} (ha : a = .leave r) (hne : w.phase r ≠ .settled) : Moves w a (w.leave r)
  | close : Moves w a w.close

variable {w' : World}

/-- Every step is one of the moves. -/
theorem moves_of_step (hs : limiter.step a w = some w') : Moves w a w' := by
  cases a with
  | run =>
    cases hs
    unfold World.run
    rcases acquire_cases w.lim true w.next with ⟨-, heq⟩ | ⟨-, hfree, heq⟩
      | ⟨-, -, -, -, heq⟩ | ⟨hopen, hmax, -, heq⟩ <;> rw [heq]
    · exact .refused .fresh ⟨rfl, rfl, rfl⟩ (by simp)
    · exact .takes .fresh hfree
    · exact .refused .fresh ⟨rfl, rfl, rfl⟩ (by simp)
    · have hparks := Moves.parks .fresh hopen hmax
      simpa [Phase.reacquires] using hparks
  | reacquire r =>
    simp only [limiter] at hs
    split at hs
    next hp =>
      cases hs
      unfold World.reacquire
      rcases acquire_cases w.lim false r with ⟨-, heq⟩ | ⟨-, hfree, heq⟩
        | ⟨-, -, hbounded, -, -⟩ | ⟨hopen, hmax, -, heq⟩
      · rw [heq]
        exact .refused (.again hp) ⟨rfl, rfl, rfl⟩ (by simp)
      · rw [heq]
        exact .takes (.again hp) hfree
      · cases hbounded
      · rw [heq]
        exact .parks (.again hp) hopen hmax
    next => cases hs
  | close =>
    cases hs
    exact .close
  | _ =>
    simp only [limiter] at hs
    repeat' split at hs
    all_goals cases hs
    all_goals first
      | exact .giveUp ‹_› ⟨rfl, rfl, rfl⟩ (by simp)
      | exact .late rfl ‹_›
      | exact .leave rfl (by simp [*])
      | refine .move ?_ ?_ ?_ ?_ ?_ <;> simp [*, Phase.holds, Phase.waits, Phase.reacquires]
      | refine .reacquired ?_ ?_ ?_ ?_ ?_ ?_ <;>
          simp [*, Phase.holds, Phase.waits, Phase.reacquires]

/-- The step is a `yieldSlot` made after its task has settled. -/
def late : Act → World → Bool
  | .yieldSlot r, w => w.phase r = .returned
  | _, _ => false

/-- Every step keeps the bookkeeping, but for a late `yieldSlot`, which gives
up a slot too many. -/
theorem Slots.step (h : Slots spare w) (hs : limiter.step a w = some w') :
    ∃ spare', Slots spare' w' ∧ (late a w = false → spare' = spare) := by
  cases moves_of_step hs with
  | refused ha hidle =>
    obtain ⟨hgrown, hr, hwas, -⟩ := h.asks ha
    exact ⟨spare, hgrown.move hr (hidle.1.trans hwas.1.symm) (hidle.2.1.trans hwas.2.1.symm)
      (hidle.2.2.trans hwas.2.2.symm), fun _ => rfl⟩
  | takes ha hfree =>
    obtain ⟨hgrown, hr, hwas, -⟩ := h.asks ha
    exact ⟨spare, hgrown.take hr hwas hfree, fun _ => rfl⟩
  | parks ha hopen hmax =>
    obtain ⟨hgrown, hr, hwas, hholds, hwaits⟩ := h.asks ha
    exact ⟨spare, hgrown.park hr hwas hopen hmax hholds hwaits, fun _ => rfl⟩
  | giveUp hp hidle => exact ⟨spare, h.giveUp hp hidle, fun _ => rfl⟩
  | @late r ha hp =>
    have hlt : r < w.next := h.lt_next (by rw [hp]; simp)
    have hphase : (w.leave r).phase r = .returned := (phase_leave w r r).trans hp
    have hyields : Slots spare ((w.leave r).setPhase r .yielded) := by
      refine (h.leave hlt).move hlt ?_ ?_ ?_ <;> rw [hphase] <;> rfl
    refine ⟨spare - 1, Slots.release ((sub_add_cancel spare 1).symm ▸ hyields), fun hnot => ?_⟩
    subst ha
    exact absurd hp (of_decide_eq_false hnot)
  | move hne hholds hwaits hre =>
    exact ⟨spare, h.move (h.lt_next hne) hholds hwaits hre, fun _ => rfl⟩
  | reacquired hne hholds hwaits hre hre' =>
    exact ⟨spare, h.reacquired (h.lt_next hne) hwaits hre hre' hholds, fun _ => rfl⟩
  | leave _ hne => exact ⟨spare, h.leave (h.lt_next hne), fun _ => rfl⟩
  | close => exact ⟨spare, h.close, fun _ => rfl⟩

theorem Slots.new (max : ℚ) (maxQueued : Option ℚ) : Slots 0 (World.new max maxQueued) where
  unused := fun _ _ => rfl
  active := rfl
  le_max := Int.natCast_nonneg _
  reacquiring := rfl
  queue := by
    intro x
    simp [World.new, ConcurrencyLimiter.new, World.phase, Phase.waits]
  nodup := nodup_nil
  busy := fun hne => absurd rfl hne
  log := prefix_rfl
  whole := fun _ => rfl

theorem Slots.reach {max : ℚ} {maxQueued : Option ℚ}
    (hr : limiter.Reach (World.new max maxQueued) w) : ∃ spare, Slots spare w := by
  refine hr.invariant (P := fun w => ∃ spare, Slots spare w) ⟨0, Slots.new max maxQueued⟩ ?_
  rintro a t t' ⟨spare, h⟩ hs
  obtain ⟨spare', h', -⟩ := h.step hs
  exact ⟨spare', h'⟩

end OpenWA.Concurrency

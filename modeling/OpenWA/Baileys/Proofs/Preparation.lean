/-
The places of `prepareMessageChange`: never more than the limit, none left
unused while a call waits, and turns in the order of the calls as long as no
call is made between a release and the calls it woke.

# Order

The calls stand in one line: those on the chains, then the woken ones, then
the ones in the room (`World.lined`). A call enters at the end if nobody is
woken, and going on or being woken keeps the line; so it is the order of the
calls (`Ordered`), and the chain of a message starts its work in that order.
A call made while a room is woken finds the place that was given up and goes
before all of its calls (`second_change_overtakes`).

# Every call runs

`rank` prices what is left: 6 for a call that waits, 4 on a chain and 2 in
its turn, 1 while its work has not ended, 1 for each room to go on. Taking a
place is worth one, waiting again nothing, but its room has gone on; giving a
place up is worth two and may wake one room. So each step of the calls made
lowers it (`rank_lt_of_settles`), and while a call has not run some step is
there to take (`exists_settles`): a call in the room says that all places are
taken, so some work is in progress.
-/
import Mathlib.Data.Finset.Card
import OpenWA.Baileys.Preparation

namespace OpenWA.Preparation

open List

open Function (update update_self update_of_ne)

variable {limit : Nat} {w w' : World} {k j : Nat}

-- ======== the steps

/-- What a step may do. -/
inductive Moves (limit : Nat) : Act → World → World → Prop
  | calls {w : World} (messageId : Nat) : Moves limit (.call messageId) w (w.call limit messageId)
  | resumes {w : World} (room : List Nat) (rest : List (List Nat)) (h : w.woken = room :: rest) :
      Moves limit .resume w (room.foldl (World.enter limit) { w with woken := rest })
  | starts {w : World} (j : Nat) (job : Job Nat Nat) (hjob : w.messageChanges.jobs[j]? = some job)
      (hphase : job.phase = .waiting) (hfree : w.messageChanges.free job = true) :
      Moves limit (.start j) w
        { w with messageChanges := w.messageChanges.setPhase j .running }
  | releases {w : World} (j : Nat) :
      Moves limit (.release j) w { w with released := update w.released j true }
  | finishes {w : World} (j : Nat) (job : Job Nat Nat)
      (hjob : w.messageChanges.jobs[j]? = some job) (hended : w.ended j = false) :
      Moves limit (.finish j) w { w with ended := update w.ended j true }
  | frees {w : World} (j : Nat) (job : Job Nat Nat) (hjob : w.messageChanges.jobs[j]? = some job)
      (hphase : job.phase = .running) : Moves limit (.free j) w (w.freePlace j)
  | reclaims {w : World} (j : Nat) (job : Job Nat Nat)
      (hjob : w.messageChanges.jobs[j]? = some job) (hphase : job.phase = .settled) :
      Moves limit (.reclaim j) w
        { w with messageChanges := w.messageChanges.reclaim job.key j }

variable {a : Act}

/-- Every step is one of the moves. -/
theorem moves_of_step : Leads (Moves limit a w) ((preparations limit).step a w) := by
  cases a with
  | call messageId => exact .calls messageId
  | resume =>
    change Leads _ (w.resume limit)
    unfold World.resume
    split
    next => trivial
    next room rest hwoken => exact .resumes room rest hwoken
  | start j | release j | finish j | free j | reclaim j =>
    simp only [preparations, World.step, World.start, World.release, World.finish, World.free,
      World.reclaim]
    split
    next job hjob =>
      refine Leads.guard fun h => ?_
      constructor <;> first | exact hjob | exact h | exact h.1 | exact h.2
    next => trivial

-- ======== the line

/-- The calls that wait: woken, then in the room. -/
def World.waiting (w : World) : List Nat := w.woken.flatten ++ w.preparationRoom.getD []

/-- All calls: on the chains, then waiting. -/
def World.lined (w : World) : List Nat := w.messageChanges.jobs.map Job.payload ++ w.waiting

theorem waiting_waitForRoom : (w.waitForRoom k).waiting = w.waiting ++ [k] := by
  show w.woken.flatten ++ (w.preparationRoom.getD [] ++ [k]) = _
  rw [← append_assoc]
  rfl

theorem lined_waitForRoom : (w.waitForRoom k).lined = w.lined ++ [k] := by
  unfold World.lined
  rw [waiting_waitForRoom, ← append_assoc]
  rfl

theorem lined_takePlace : (w.takePlace k).lined
    = w.messageChanges.jobs.map Job.payload ++ [k] ++ w.waiting := by
  show (w.messageChanges.jobs ++ [_]).map Job.payload ++ w.waiting = _
  rw [map_append]
  rfl

/-- A released room joins the woken ones. -/
theorem waiting_freePlace : (w.freePlace j).waiting = w.waiting := by
  show (w.woken ++ w.preparationRoom.toList).flatten ++ [] = w.waiting
  unfold World.waiting
  cases w.preparationRoom with
  | none | some => simp

theorem lined_freePlace : (w.freePlace j).lined = w.lined := by
  unfold World.lined
  rw [waiting_freePlace]
  exact congrArg (· ++ w.waiting) (Chain.payloads_setPhase w.messageChanges j .settled)

-- ======== the places

/-- The bookkeeping of the places. -/
structure Places (limit : Nat) (w : World) : Prop where
  ok : w.messageChanges.Ok
  count : w.changesPreparing = w.messageChanges.unsettled
  le : w.changesPreparing ≤ limit
  full : w.preparationRoom ≠ none → limit ≤ w.changesPreparing
  keys : ∀ job ∈ w.messageChanges.jobs, w.calls[job.payload]? = some job.key
  ended : ∀ j, w.ended j = true → j < w.messageChanges.jobs.length

theorem places_init : Places limit World.init where
  ok := Chain.Ok.empty
  count := rfl
  le := Nat.zero_le limit
  full := fun h => absurd rfl h
  keys := by
    intro job h
    cases h
  ended := by
    intro j h
    cases h

theorem Places.waitForRoom (h : Places limit w) (hfull : limit ≤ w.changesPreparing) :
    Places limit (w.waitForRoom k) := ⟨h.ok, h.count, h.le, fun _ => hfull, h.keys, h.ended⟩

theorem Places.takePlace (h : Places limit w) (hroom : w.changesPreparing < limit)
    (hk : k < w.calls.length) : Places limit (w.takePlace k) where
  ok := h.ok.push _ _
  count := by
    show w.changesPreparing + 1 = (w.messageChanges.push _ _).weigh Chain.Phase.unsettled
    rw [Chain.weigh_push, h.count]
    rfl
  le := hroom
  full := fun hne => Nat.le_succ_of_le (h.full hne)
  keys := by
    intro job hjob
    rcases mem_append.mp hjob with hold | hnew
    · exact h.keys job hold
    · rw [mem_singleton.mp hnew]
      show w.calls[k]? = some (w.calls[k]?.getD 0)
      rw [getElem?_eq_getElem hk]
      rfl
  ended := by
    intro j hj
    show j < (w.messageChanges.jobs ++ [_]).length
    rw [length_append]
    exact Nat.lt_add_right 1 (h.ended j hj)

-- ======== the rank

/-- The jobs whose work has not ended. -/
def World.unended (w : World) : Finset Nat :=
  (Finset.range w.messageChanges.jobs.length).filter fun j => w.ended j = false

/-- What is left to do for the calls made. -/
def World.rank (w : World) : Nat :=
  6 * w.waiting.length + 2 * w.messageChanges.left + w.unended.card + w.woken.length

theorem rank_takePlace (h : Places limit w) : (w.takePlace k).rank = w.rank + 5 := by
  let n := w.messageChanges.jobs.length
  have hleft : (w.takePlace k).messageChanges.left = w.messageChanges.left + 2 :=
    Chain.weigh_push w.messageChanges _ _
  have hnew : w.ended n = false := by
    by_contra hne
    exact absurd (h.ended n (by simpa using hne)) (Nat.lt_irrefl n)
  have hcard : (w.takePlace k).unended.card = w.unended.card + 1 := by
    have hset : (w.takePlace k).unended = insert n w.unended := by
      show (Finset.range (w.messageChanges.jobs ++ [_]).length).filter _ = _
      rw [length_append, length_singleton, Finset.range_add_one, Finset.filter_insert,
        if_pos (show (w.takePlace k).ended n = false from hnew)]
      rfl
    rw [hset]
    refine Finset.card_insert_of_notMem ?_
    unfold World.unended
    simp [n]
  show 6 * w.waiting.length + 2 * (w.takePlace k).messageChanges.left
    + (w.takePlace k).unended.card + w.woken.length = w.rank + 5
  unfold World.rank
  omega

theorem rank_waitForRoom : (w.waitForRoom k).rank = w.rank + 6 := by
  unfold World.rank
  rw [waiting_waitForRoom, length_append, length_singleton]
  show 6 * (w.waiting.length + 1) + 2 * w.messageChanges.left + w.unended.card + w.woken.length = _
  omega

/-- The calls of a room have gone on. -/
structure Resumed (limit : Nat) (w : World) (room : List Nat) (v : World) : Prop where
  places : Places limit v
  calls : v.calls = w.calls
  woken : v.woken = w.woken
  perm : v.lined.Perm (w.lined ++ room)
  rank : v.rank ≤ w.rank + 6 * room.length
  order : w.woken = [] → v.lined = w.lined ++ room

variable {room : List Nat} {job : Job Nat Nat} {rest : List (List Nat)}

/-- One call has taken a place or waits: it is at the end of the line, unless
it overtook those woken. -/
theorem Places.entered (h : Places limit w) (hk : k < w.calls.length) :
    Resumed limit w [k] (w.enter limit k) := by
  unfold World.enter
  split
  next hfull =>
    exact ⟨h.waitForRoom hfull, rfl, rfl, by rw [lined_waitForRoom], Nat.le_of_eq rank_waitForRoom,
      fun _ => lined_waitForRoom⟩
  next hroom =>
    refine ⟨h.takePlace (Nat.lt_of_not_le hroom) hk, rfl, rfl, ?_, ?_, fun hwoken => ?_⟩
    · rw [lined_takePlace]
      unfold World.lined
      rw [append_assoc, append_assoc]
      exact List.Perm.append_left _ perm_append_comm
    · rw [rank_takePlace h]
      exact Nat.le_succ _
    · have hnone : w.preparationRoom = none := by
        by_contra hne
        exact hroom (h.full hne)
      rw [lined_takePlace]
      simp [World.lined, World.waiting, hwoken, hnone]

/-- The calls of a room go on one by one and keep the places. -/
theorem Places.resumed (hroom : ∀ k ∈ room, k < w.calls.length) (h : Places limit w) :
    Resumed limit w room (room.foldl (World.enter limit) w) := by
  induction room generalizing w with
  | nil => exact ⟨h, rfl, rfl, by simp, Nat.le_refl _, fun _ => by simp⟩
  | cons k room ih =>
    have hfirst := h.entered (hroom k mem_cons_self)
    have hrest := ih (by
      intro i hi
      rw [hfirst.calls]
      exact hroom i (mem_cons_of_mem k hi)) hfirst.places
    refine ⟨hrest.places, hrest.calls.trans hfirst.calls, hrest.woken.trans hfirst.woken,
      hrest.perm.trans ?_, ?_, fun hnil => ?_⟩
    · simpa using hfirst.perm.append_right room
    · have hle := hfirst.rank
      have hle' := hrest.rank
      rw [length_singleton] at hle
      rw [foldl_cons, length_cons]
      omega
    · rw [foldl_cons, hrest.order (hfirst.woken.trans hnil), hfirst.order hnil]
      simp

/-- A change of phase keeps the keys and the ended work. -/
theorem Places.setPhase (h : Places limit w) (j : Nat) (phase : Phase) :
    (∀ job ∈ (w.messageChanges.setPhase j phase).jobs, w.calls[job.payload]? = some job.key) ∧
    ∀ i, w.ended i = true → i < (w.messageChanges.setPhase j phase).jobs.length := by
  constructor
  · intro job' hjob'
    obtain ⟨i, hi⟩ := mem_iff_getElem?.mp hjob'
    obtain ⟨before, hbefore, rfl⟩ := Chain.getElem?_setPhase hi
    exact h.keys before (mem_iff_getElem?.mpr ⟨i, hbefore⟩)
  · rw [Chain.length_setPhase]
    exact h.ended

section

variable (h : Places limit w) (hjob : w.messageChanges.jobs[j]? = some job)
include h hjob

theorem Places.start
    (hphase : job.phase = .waiting) (hfree : w.messageChanges.free job = true) :
    Places limit { w with messageChanges := w.messageChanges.setPhase j .running } := by
  obtain ⟨hkeys, hended⟩ := h.setPhase j .running
  refine ⟨h.ok.begin hjob hphase hfree, ?_, h.le, h.full, hkeys, hended⟩
  have hweigh := Chain.weigh_setPhase (f := Chain.Phase.unsettled) hjob .running
  rw [hphase] at hweigh
  exact h.count.trans (Nat.add_right_cancel hweigh).symm

theorem Places.freePlace (hphase : job.phase = .running) : Places limit (w.freePlace j) := by
  obtain ⟨hkeys, hended⟩ := h.setPhase j .settled
  refine ⟨h.ok.settle hjob hphase, ?_, ?_, fun hne => absurd rfl hne, hkeys, hended⟩
  · have hweigh := Chain.weigh_setPhase (f := Chain.Phase.unsettled) hjob .settled
    have hcount := h.count
    rw [hphase] at hweigh
    show w.changesPreparing - 1 = (w.messageChanges.setPhase j .settled).weigh _
    unfold Chain.unsettled at hcount
    simp only [Chain.Phase.unsettled] at hweigh
    omega
  · exact Nat.le_trans (Nat.sub_le _ _) h.le

end

/-- The places, with every call in the line once. -/
structure Sound (limit : Nat) (w : World) : Prop extends Places limit w where
  line : w.lined.Perm (range w.calls.length)

theorem Sound.lt_of_waiting (h : Sound limit w) (hk : k ∈ w.waiting) : k < w.calls.length :=
  mem_range.mp (h.line.mem_iff.mp (mem_append_right _ hk))

/-- A new call leaves the places as they are. -/
theorem Places.called (h : Places limit w) (messageId : Nat) :
    Places limit { w with calls := w.calls ++ [messageId] } := by
  refine ⟨h.ok, h.count, h.le, h.full, ?_, h.ended⟩
  intro job hjob
  have hkey := h.keys job hjob
  show (w.calls ++ [messageId])[job.payload]? = some job.key
  rw [getElem?_append_left (List.getElem?_eq_some_iff.mp hkey).1]
  exact hkey

theorem Places.call (h : Places limit w) (messageId : Nat) :
    Resumed limit { w with calls := w.calls ++ [messageId] } [w.calls.length]
      (w.call limit messageId) := by
  refine (h.called messageId).entered ?_
  rw [length_append]
  exact Nat.lt_succ_self _

theorem Sound.call (h : Sound limit w) (messageId : Nat) :
    Sound limit (w.call limit messageId) := by
  have hcalled := h.toPlaces.call messageId
  refine ⟨hcalled.places, ?_⟩
  rw [hcalled.calls, length_append, length_singleton, range_succ]
  exact hcalled.perm.trans (List.Perm.append_right _ h.line)

theorem Sound.resumed (h : Sound limit w) (hwoken : w.woken = room :: rest) :
    Resumed limit { w with woken := rest } room
      (room.foldl (World.enter limit) { w with woken := rest }) := by
  refine Places.resumed ?_ { h.toPlaces with }
  intro k hk
  refine h.lt_of_waiting ?_
  unfold World.waiting
  rw [hwoken]
  simp [hk]

theorem Sound.resume (h : Sound limit w) (hwoken : w.woken = room :: rest) :
    Sound limit (room.foldl (World.enter limit) { w with woken := rest }) := by
  have hresumed := h.resumed hwoken
  refine ⟨hresumed.places, ?_⟩
  rw [hresumed.calls]
  refine (hresumed.perm.trans ?_).trans h.line
  unfold World.lined World.waiting
  rw [hwoken, flatten_cons, append_assoc, append_assoc]
  refine List.Perm.append_left _ ?_
  rw [← append_assoc, append_assoc room]
  exact perm_append_comm

theorem lined_congr {c : Chain Nat Nat}
    (h : c.jobs.map Job.payload = w.messageChanges.jobs.map Job.payload) :
    World.lined { w with messageChanges := c } = w.lined := by
  unfold World.lined
  rw [← h]
  rfl

/-- Every move keeps the line sound. -/
theorem Sound.moves (h : Sound limit w) (hm : Moves limit a w w') : Sound limit w' := by
  cases hm with
  | calls messageId => exact h.call messageId
  | resumes room rest hwoken => exact h.resume hwoken
  | starts j job hjob hphase hfree =>
    refine ⟨h.toPlaces.start hjob hphase hfree, ?_⟩
    rw [lined_congr (Chain.payloads_setPhase _ _ _)]
    exact h.line
  | releases j => exact { h with }
  | finishes j job hjob hended =>
    refine { h with ended := fun i hi => ?_ }
    by_cases hij : i = j
    · rw [hij]
      exact (List.getElem?_eq_some_iff.mp hjob).1
    · change update w.ended j true i = true at hi
      rw [update_of_ne hij] at hi
      exact h.ended i hi
  | frees j job hjob hphase =>
    refine ⟨h.toPlaces.freePlace hjob hphase, ?_⟩
    rw [lined_freePlace]
    exact h.line
  | reclaims j job hjob hphase =>
    have hjobs := Chain.jobs_reclaim w.messageChanges job.key j
    refine ⟨⟨h.ok.reclaim hjob hphase, ?_, h.le, h.full, ?_, ?_⟩, ?_⟩
    · rw [h.count]
      unfold Chain.unsettled Chain.weigh
      rw [hjobs]
    · rw [hjobs]
      exact h.keys
    · rw [hjobs]
      exact h.ended
    · rw [lined_congr (congrArg _ hjobs)]
      exact h.line

theorem sound_of_reach (h : (preparations limit).Reach World.init w) : Sound limit w :=
  h.invariant ⟨places_init, List.Perm.refl _⟩ fun _ _ _ hv hs => hv.moves (moves_of_step.to hs)

-- ======== the order

/-- With calm calls: the line is the order of the calls, at most one room is
woken, and then there is no other room. -/
structure Ordered (w : World) : Prop where
  line : w.lined = range w.calls.length
  woken : w.woken.length ≤ 1
  room : w.preparationRoom ≠ none → w.woken = []

section

variable (h : Ordered w) (hw : Sound limit w)
include h hw

theorem Ordered.call (hwoken : w.woken = [])
    (messageId : Nat) : Ordered (w.call limit messageId) := by
  have hcalled := hw.toPlaces.call messageId
  have hstill := hcalled.woken.trans hwoken
  refine ⟨?_, by rw [hstill]; exact Nat.zero_le 1, fun _ => hstill⟩
  rw [hcalled.calls, length_append, length_singleton, range_succ, ← h.line]
  exact hcalled.order hwoken

theorem Ordered.resume (hwoken : w.woken = room :: rest) :
    Ordered (room.foldl (World.enter limit) { w with woken := rest }) := by
  have hrest : rest = [] := by
    have hle := h.woken
    rw [hwoken, length_cons] at hle
    exact eq_nil_of_length_eq_zero (by omega)
  have hnone : w.preparationRoom = none := by
    by_contra hne
    have hnil := h.room hne
    rw [hwoken] at hnil
    cases hnil
  subst hrest
  have hresumed := hw.resumed hwoken
  have hstill : _ = [] := hresumed.woken
  refine ⟨?_, by rw [hstill]; exact Nat.zero_le 1, fun _ => hstill⟩
  rw [hresumed.order rfl, hresumed.calls, ← h.line]
  unfold World.lined World.waiting
  rw [hwoken, hnone]
  simp

/-- A calm move keeps the line in order. -/
theorem Ordered.moves (hcalm : Calm a w) (hm : Moves limit a w w') : Ordered w' := by
  cases hm with
  | calls messageId => exact h.call hw hcalm messageId
  | resumes room rest hwoken => exact h.resume hw hwoken
  | starts j job hjob hphase hfree =>
    exact ⟨(lined_congr (Chain.payloads_setPhase _ _ _)).trans h.line, h.woken, h.room⟩
  | releases j | finishes j job hjob hended => exact { h with }
  | frees j job hjob hphase =>
    refine ⟨lined_freePlace.trans h.line, ?_, fun hne => absurd rfl hne⟩
    show (w.woken ++ w.preparationRoom.toList).length ≤ 1
    cases hroom : w.preparationRoom with
    | none => simpa using h.woken
    | some room =>
      rw [h.room (by rw [hroom]; exact Option.some_ne_none room)]
      exact Nat.le_refl 1
  | reclaims j job hjob hphase =>
    have hjobs := Chain.jobs_reclaim w.messageChanges job.key j
    exact ⟨(lined_congr (congrArg _ hjobs)).trans h.line, h.woken, h.room⟩

end

theorem ordered_of_reach (h : ((preparations limit).restrict Calm).Reach World.init w) :
    Sound limit w ∧ Ordered w := by
  refine h.invariant (P := fun v => Sound limit v ∧ Ordered v) ?_ ?_
  · exact ⟨⟨places_init, List.Perm.refl _⟩, rfl, Nat.zero_le 1, fun hne => absurd rfl hne⟩
  · intro a v v' hv hs
    obtain ⟨hcalm, hstep⟩ := Machine.restrict_step.mp hs
    have hm := moves_of_step.to hstep
    exact ⟨hv.1.moves hm, hv.2.moves hv.1 hcalm hm⟩

/-- The work of a call has started. -/
def World.Started (w : World) (k : Nat) : Prop :=
  ∃ job ∈ w.messageChanges.jobs, job.payload = k ∧ job.phase ≠ .waiting

/-- The turn of a call is over: its work has ended or given its place up. -/
def World.TurnOver (w : World) (k : Nat) : Prop :=
  ∃ job ∈ w.messageChanges.jobs, job.payload = k ∧ job.phase = .settled

/-- In a line that is the order of the calls, the calls on the chains are the
first ones, in their order. -/
theorem Ordered.payload_eq (h : Ordered w) (hjob : w.messageChanges.jobs[j]? = some job) :
    job.payload = j := by
  have hlt := (List.getElem?_eq_some_iff.mp hjob).1
  have hget : w.lined[j]? = some job.payload := by
    unfold World.lined
    rw [getElem?_append_left (by simpa using hlt), getElem?_map, hjob]
    rfl
  rw [h.line, getElem?_range (by
    have hlen := congrArg length h.line
    unfold World.lined at hlen
    simp only [length_append, length_map, length_range] at hlen
    omega)] at hget
  exact (Option.some.inj hget).symm

/-- Of two changes of one message the first has its turn first. -/
theorem Ordered.turns (h : Ordered w) (hw : Sound limit w) {a b : Nat} (hab : a < b)
    (hsame : w.calls[a]? = w.calls[b]?) (hb : w.Started b) : w.TurnOver a := by
  obtain ⟨job, hjob, hpayload, hphase⟩ := hb
  obtain ⟨j, hj⟩ := mem_iff_getElem?.mp hjob
  have hjb : j = b := (h.payload_eq hj).symm.trans hpayload
  have hlt : b < w.messageChanges.jobs.length := hjb ▸ (List.getElem?_eq_some_iff.mp hj).1
  obtain ⟨first, hfirst⟩ : ∃ first, w.messageChanges.jobs[a]? = some first :=
    ⟨_, getElem?_eq_getElem (by omega)⟩
  have hmem : first ∈ w.messageChanges.jobs := mem_iff_getElem?.mpr ⟨a, hfirst⟩
  have hkey : first.key = job.key := by
    have hfirstKey := hw.keys first hmem
    have hjobKey := hw.keys job hjob
    rw [h.payload_eq hfirst, hsame, ← hpayload, hjobKey] at hfirstKey
    exact (Option.some.inj hfirstKey).symm
  refine ⟨first, hmem, h.payload_eq hfirst, ?_⟩
  exact hw.ok.order (hjb ▸ hab) hfirst hj hkey hphase

-- ======== what lowers the rank

theorem rank_resume (h : Sound limit w) (hwoken : w.woken = room :: rest) :
    (room.foldl (World.enter limit) { w with woken := rest }).rank < w.rank := by
  have hle := (h.resumed hwoken).rank
  have hrank : w.rank = World.rank { w with woken := rest } + 6 * room.length + 1 := by
    unfold World.rank World.waiting
    rw [hwoken]
    show _ = 6 * (rest.flatten ++ w.preparationRoom.getD []).length + 2 * w.messageChanges.left
      + w.unended.card + rest.length + 6 * room.length + 1
    simp only [flatten_cons, length_append, length_cons]
    omega
  exact Nat.lt_of_le_of_lt hle (by omega)

section

variable (hjob : w.messageChanges.jobs[j]? = some job)
include hjob

theorem rank_setPhase (phase : Phase) :
    World.rank { w with messageChanges := w.messageChanges.setPhase j phase }
      + 2 * Chain.Phase.left job.phase = w.rank + 2 * Chain.Phase.left phase := by
  have hleft := Chain.left_setPhase hjob phase
  have hunended : World.unended { w with messageChanges := w.messageChanges.setPhase j phase }
      = w.unended := by
    unfold World.unended
    rw [Chain.length_setPhase]
  unfold World.rank
  rw [hunended]
  show 6 * w.waiting.length + 2 * (w.messageChanges.setPhase j phase).left + w.unended.card
    + w.woken.length + _ = _
  omega

theorem rank_freePlace (hphase : job.phase = .running) : (w.freePlace j).rank < w.rank := by
  have hset := rank_setPhase hjob .settled
  rw [hphase] at hset
  have hroom : w.preparationRoom.toList.length ≤ 1 := by
    cases w.preparationRoom with
    | none => exact Nat.zero_le 1
    | some room => exact Nat.le_refl 1
  have hrank : (w.freePlace j).rank
      = World.rank { w with messageChanges := w.messageChanges.setPhase j .settled }
        + w.preparationRoom.toList.length := by
    unfold World.rank
    rw [waiting_freePlace]
    show _ + _ + _ + (w.woken ++ w.preparationRoom.toList).length = _
    rw [length_append, ← Nat.add_assoc]
    rfl
  simp only [Chain.Phase.left] at hset
  omega

theorem rank_finish (hended : w.ended j = false) :
    World.rank { w with ended := update w.ended j true } < w.rank := by
  have hmem : j ∈ w.unended := by
    unfold World.unended
    rw [Finset.mem_filter, Finset.mem_range]
    exact ⟨(List.getElem?_eq_some_iff.mp hjob).1, hended⟩
  have hset : World.unended { w with ended := update w.ended j true } = w.unended.erase j := by
    ext i
    unfold World.unended
    rw [Finset.mem_filter, Finset.mem_erase, Finset.mem_filter]
    show _ ∧ update w.ended j true i = false ↔ _
    by_cases hij : i = j
    · rw [hij, update_self]
      simp
    · rw [update_of_ne hij]
      simp [hij]
  have hcard := Finset.card_erase_of_mem hmem
  have hpos : 0 < w.unended.card := Finset.card_pos.mpr ⟨j, hmem⟩
  show 6 * w.waiting.length + 2 * w.messageChanges.left
    + (World.unended { w with ended := update w.ended j true }).card + w.woken.length < w.rank
  rw [hset, hcard]
  unfold World.rank
  omega

end

/-- The steps of the calls made: their going on, their turns and the end of
their work. -/
def Act.settles : Act → Bool
  | .call _ => false
  | .resume => true
  | .start _ => true
  | .release _ => false
  | .finish _ => true
  | .free _ => true
  | .reclaim _ => false

/-- Every step that settles something lowers the rank. -/
theorem rank_lt_of_settles (h : Sound limit w) (ha : a.settles = true)
    (hm : Moves limit a w w') : w'.rank < w.rank := by
  cases hm with
  | calls messageId => cases ha
  | resumes room rest hwoken => exact rank_resume h hwoken
  | starts j job hjob hphase hfree =>
    have hset := rank_setPhase hjob .running
    rw [hphase] at hset
    simp only [Chain.Phase.left] at hset
    omega
  | releases j => cases ha
  | finishes j job hjob hended => exact rank_finish hjob hended
  | frees j job hjob hphase => exact rank_freePlace hjob hphase
  | reclaims j job hjob hphase => cases ha

/-- Only a call adds something to do. -/
theorem rank_le_of_not_call (h : Sound limit w) (ha : ∀ id, a ≠ .call id)
    (hm : Moves limit a w w') : w'.rank ≤ w.rank := by
  by_cases hsettles : a.settles = true
  · exact Nat.le_of_lt (rank_lt_of_settles h hsettles hm)
  cases hm with
  | calls messageId => exact absurd rfl (ha messageId)
  | resumes | starts | finishes | frees => exact absurd rfl hsettles
  | releases => exact Nat.le_refl _
  | reclaims j job hjob hphase =>
    refine Nat.le_of_eq ?_
    unfold World.rank World.unended
    show 6 * w.waiting.length + 2 * (w.messageChanges.reclaim job.key j).left
      + ((Finset.range (w.messageChanges.reclaim job.key j).jobs.length).filter _).card
      + w.woken.length = _
    rw [Chain.left_reclaim, Chain.jobs_reclaim]

-- ======== progress

/-- The work of a call has ended and its place is free. -/
def World.HasRun (w : World) (k : Nat) : Prop :=
  ∃ j job, w.messageChanges.jobs[j]? = some job ∧ job.payload = k ∧ job.phase = .settled ∧
    w.ended j = true

/-- A running job can be settled. -/
theorem exists_settles_of_running (hjob : w.messageChanges.jobs[j]? = some job)
    (hphase : job.phase = .running) :
    ∃ a w', a.settles = true ∧ (preparations limit).step a w = some w' := by
  cases hover : (w.released j || w.ended j) with
  | true =>
    refine ⟨.free j, w.freePlace j, rfl, ?_⟩
    simp [preparations, World.step, World.free, hjob, hphase, hover]
  | false =>
    refine ⟨.finish j, { w with ended := update w.ended j true }, rfl, ?_⟩
    simp [preparations, World.step, World.finish, hjob, hphase, (Bool.or_eq_false_iff.mp hover).2]

/-- While a job has not settled, some work can go on. -/
theorem exists_settles_of_unsettled (h : Sound limit w)
    (hjob : w.messageChanges.jobs[j]? = some job) (hphase : job.phase ≠ .settled) :
    ∃ a w', a.settles = true ∧ (preparations limit).step a w = some w' := by
  obtain ⟨i, other, hi, -, hnext⟩ := h.ok.progress hjob hphase
  rcases hnext with hrunning | ⟨hwaiting, hfree⟩
  · exact exists_settles_of_running hi hrunning
  · refine ⟨.start i, { w with messageChanges := w.messageChanges.setPhase i .running }, rfl, ?_⟩
    simp [preparations, World.step, World.start, hi, hwaiting, hfree]

/-- While a call has not run, some step is there to take. -/
theorem exists_settles (hlimit : 0 < limit) (h : Sound limit w) (hk : k < w.calls.length)
    (hrun : ¬ w.HasRun k) : ∃ a w', a.settles = true ∧ (preparations limit).step a w = some w' := by
  have hline : k ∈ w.lined := h.line.mem_iff.mpr (mem_range.mpr hk)
  rcases mem_append.mp hline with hchain | hwaiting
  · obtain ⟨job, hjob, hpayload⟩ := mem_map.mp hchain
    obtain ⟨j, hj⟩ := mem_iff_getElem?.mp hjob
    by_cases hphase : job.phase = .settled
    · have hended : w.ended j = false := by
        by_contra hne
        exact hrun ⟨j, job, hj, hpayload, hphase, by simpa using hne⟩
      refine ⟨.finish j, { w with ended := update w.ended j true }, rfl, ?_⟩
      simp [preparations, World.step, World.finish, hj, hphase, hended]
    · exact exists_settles_of_unsettled h hj hphase
  · cases hwoken : w.woken with
    | cons room rest =>
      refine ⟨.resume, room.foldl (World.enter limit) { w with woken := rest }, rfl, ?_⟩
      simp [preparations, World.step, World.resume, hwoken]
    | nil =>
      -- the call is in the room, so all places are taken
      have hroom : w.preparationRoom ≠ none := by
        intro hnone
        unfold World.waiting at hwaiting
        rw [hwoken, hnone] at hwaiting
        cases hwaiting
      have hfull := h.full hroom
      rw [h.count] at hfull
      obtain ⟨j, job, hj, hpos⟩ := Chain.exists_of_weigh_pos
        (show 0 < w.messageChanges.weigh Chain.Phase.unsettled from Nat.lt_of_lt_of_le hlimit hfull)
      refine exists_settles_of_unsettled h hj ?_
      intro hsettled
      rw [hsettled] at hpos
      cases hpos

-- ======== results

/-- What holds of the places in every run. -/
structure Fair (limit : Nat) (w : World) : Prop where
  /-- No more preparations than places are in progress. -/
  bounded : w.messageChanges.unsettled ≤ limit
  /-- The turns of one message come one after the other. -/
  oneByOne : ∀ (i j : Nat) (a b : Job Nat Nat), i < j → w.messageChanges.jobs[i]? = some a →
    w.messageChanges.jobs[j]? = some b → a.key = b.key → b.phase ≠ .waiting → a.phase = .settled
  /-- A call waits unwoken only while all places are taken. -/
  woken : w.preparationRoom ≠ none → w.messageChanges.unsettled = limit
  /-- Every call waits or has its one turn. -/
  line : w.lined.Perm (range w.calls.length)
  /-- What is left grows by new calls only, and shrinks with each step of
  those made. -/
  shrinks : ∀ a w', (preparations limit).step a w = some w' →
    ((∀ id, a ≠ .call id) → w'.rank ≤ w.rank) ∧ (a.settles = true → w'.rank < w.rank)
  /-- While a call has not run, there is such a step. -/
  goesOn : ∀ k < w.calls.length, ¬ w.HasRun k →
    ∃ a w', a.settles = true ∧ (preparations limit).step a w = some w'

/-- A sound line is fair. -/
theorem Sound.fair (hlimit : 0 < limit) (h : Sound limit w) : Fair limit w where
  bounded := h.count ▸ h.le
  oneByOne := fun _ _ _ _ hij hi hj hkey hphase => h.ok.order hij hi hj hkey hphase
  woken := fun hne => h.count ▸ Nat.le_antisymm h.le (h.full hne)
  line := h.line
  shrinks := fun _ _ hs =>
    ⟨fun ha => rank_le_of_not_call h ha (moves_of_step.to hs),
      fun ha => rank_lt_of_settles h ha (moves_of_step.to hs)⟩
  goesOn := fun _ hk hrun => exists_settles hlimit h hk hrun

/-- **Changes are prepared in order.** In every run the places are kept and
every call runs; and if every call is made when no woken call is left to go
on, of two calls for one message the second starts only once the turn of the
first is over. -/
theorem changes_prepared_in_order (hlimit : 0 < limit) :
    (∀ w, (preparations limit).Reach World.init w → Fair limit w) ∧
    ∀ w, ((preparations limit).restrict Calm).Reach World.init w →
      ∀ a b, a < b → w.calls[a]? = w.calls[b]? → w.Started b → w.TurnOver a := by
  refine ⟨fun w hreach => (sound_of_reach hreach).fair hlimit, ?_⟩
  intro w hreach a b hab hsame hb
  obtain ⟨hw, hordered⟩ := ordered_of_reach hreach
  exact hordered.turns hw hab hsame hb

instance (w : World) (k : Nat) : Decidable (w.Started k) := by
  unfold World.Started
  infer_instance

instance (w : World) (k : Nat) : Decidable (w.TurnOver k) := by
  unfold World.TurnOver
  infer_instance

instance (a : Act) (w : World) : Decidable (Calm a w) := by
  unfold Calm
  split
  · infer_instance
  · infer_instance

/-- One place, two calls for one message and one for another: the second
waits for room, and starts once the first is over. -/
def takingTurns : List Act :=
  [.call 7, .call 7, .call 8, .start 0, .finish 0, .free 0, .resume, .start 1]

/-- With one place the second change has its turn after the first. -/
theorem changes_prepared_in_order_one_place :
    ∃ w, ((preparations 1).restrict Calm).Reach World.init w ∧ Fair 1 w ∧
      w.preparationRoom = some [2] ∧ w.Started 1 ∧ w.TurnOver 0 := by
  obtain ⟨w, hguarded, hw⟩ := Machine.exists_reach_of_run
    (M := (preparations 1).guarded fun a w => decide (Calm a w)) World.init takingTurns
    (fun w : World => decide (w.preparationRoom = some [2] ∧ w.calls[0]? = w.calls[1]? ∧
      w.Started 1)) (by decide)
  obtain ⟨hroom, hsame, hstarted⟩ := of_decide_eq_true hw
  have hreach := hguarded.restrict_of_guarded (G := Calm) fun _ _ h => of_decide_eq_true h
  obtain ⟨hfair, hturns⟩ := changes_prepared_in_order (show 0 < 1 by decide)
  exact ⟨w, hreach, hfair w hreach.of_restrict, hroom, hstarted,
    hturns w hreach 0 1 (by decide) hsame hstarted⟩

/-- All places are taken by changes of other messages and a change of message
0 waits for room. A place is given up, and before the waiting call goes on a
second change of message 0 is made. -/
def secondChange : List Act :=
  (range changesParkedLimit).map (fun i => .call (i + 1)) ++
    [.call 0, .start 0, .finish 0, .free 0, .call 0, .resume, .start 64]

/-- The second change of a message starts, and the first still waits. -/
theorem second_change_overtakes :
    ∃ w, (preparations changesParkedLimit).Reach World.init w ∧
      w.calls[64]? = some 0 ∧ w.calls[65]? = some 0 ∧ w.Started 65 ∧ ¬ w.Started 64 ∧
      w.preparationRoom = some [64] := by
  obtain ⟨w, hreach, hw⟩ := Machine.exists_reach_of_run (M := preparations changesParkedLimit)
    World.init secondChange (fun w : World => decide (w.calls[64]? = some 0 ∧
      w.calls[65]? = some 0 ∧ w.Started 65 ∧ ¬ w.Started 64 ∧ w.preparationRoom = some [64]))
    (by decide +kernel)
  exact ⟨w, hreach, of_decide_eq_true hw⟩

end OpenWA.Preparation

/-
Work of a key runs one after another, and its entry in the map lasts as long
as its work does.

# The argument

The order and the entries are what `Chain.Ok` keeps; on top of it the log of
calls has each piece of work once its turn has come, and once only, and an
entry is one whose `finally` has not run. Queued work that cannot go on
waits for earlier work of its own key, which can (`Chain.Ok.progress`), and
every step uses up one of the three that a piece of work takes.
-/
import OpenWA.Concurrency.MutationQueue

namespace OpenWA.Mutation

namespace Queue

variable {w w' : Queue}

-- ======== the invariant

/-- The turn of the work has come. -/
def begun (w : Queue) (j : Nat) : Bool := (w.chains.jobs[j]?).any fun job => job.phase ≠ .waiting

/-- What holds of the queue in every run. -/
structure Kept (w : Queue) : Prop where
  chain : w.chains.Ok
  /-- An entry in the map has its `finally` to come. -/
  draining : ∀ {key j}, w.chains.tail key = some j → j ∈ w.draining
  started : ∀ j, w.started.count j = if w.begun j then 1 else 0

theorem kept_new : Kept new where
  chain := Chain.Ok.empty
  draining h := by cases h
  started _ := rfl

theorem Kept.step (hw : Kept w) (act : QueueAct) : Leads Kept (queue.step act w) := by
  cases act with
  | enqueue key =>
    refine ⟨hw.chain.push key (), fun {key' j} htail => ?_, fun j => ?_⟩
    · rcases of_update htail with ⟨rfl, ⟨⟩⟩ | ⟨-, htail⟩
      · exact List.mem_append_right _ (List.mem_singleton_self _)
      · exact List.mem_append_left _ (hw.draining htail)
    · have hcount := hw.started j
      simp only [begun, Queue.enqueue, Chain.push, List.getElem?_append] at hcount ⊢
      grind
  | start j =>
    refine .bind fun job hj => .guard fun ⟨hphase, hfree⟩ => ?_
    refine ⟨hw.chain.begin hj hphase hfree, hw.draining, fun i => ?_⟩
    have hcount := hw.started i
    simp only [begun, Queue.start, Chain.setPhase, List.getElem?_modify,
      List.count_append] at hcount ⊢
    grind
  | settle j outcome =>
    refine .bind fun job hj => .guard fun hphase => ?_
    refine ⟨hw.chain.settle hj hphase, hw.draining, fun i => ?_⟩
    have hcount := hw.started i
    simp only [begun, Queue.settle, Chain.setPhase, List.getElem?_modify] at hcount ⊢
    grind
  | reclaim j =>
    refine .bind fun job hj => .guard fun ⟨hphase, _⟩ => ?_
    refine ⟨hw.chain.reclaim hj hphase, hw.chain.mem_erase_of_reclaim hj hw.draining, fun i => ?_⟩
    show w.started.count i = if ((w.chains.reclaim job.key j).jobs[i]?).any _ then 1 else 0
    rw [Chain.jobs_reclaim]
    exact hw.started i

theorem kept_reach (hr : queue.Reach new w) : Kept w :=
  hr.leads kept_new fun act _ hw => hw.step act

-- ======== whose turn it is

/-- It is the turn of waiting work when the earlier work of its key has
settled; other keys and outcomes have no say. -/
def Turn (w : Queue) (j : Nat) : Prop :=
  ∃ job, w.chains.jobs[j]? = some job ∧ job.phase = .waiting
    ∧ ∀ i other, i < j → w.chains.jobs[i]? = some other → other.key = job.key →
      other.phase = .settled

/-- A job can start exactly when it is its turn. -/
theorem Kept.start_iff (hw : Kept w) {j : Nat} :
    (queue.step (.start j) w).isSome = true ↔ w.Turn j := by
  cases hj : w.chains.jobs[j]? with
  | none => simp [queue, Turn, hj]
  | some job =>
    have hfree : w.chains.free job = true ↔ ∀ i other, i < j → w.chains.jobs[i]? = some other →
        other.key = job.key → other.phase = .settled := by
      refine ⟨fun hfree i other hij hi => hw.chain.settled_before hj hfree hij hi, ?_⟩
      refine fun hearlier => Chain.free_iff.mpr fun p hp => ?_
      obtain ⟨hlt, ⟨prior, hprior, hkey⟩, -⟩ := hw.chain.behind hj hp
      exact ⟨prior, hprior, hearlier p prior hlt hprior hkey⟩
    simp [queue, Turn, hj, hfree]

-- ======== the steps that are left

/-- The steps the work still has to take. -/
def left (w : Queue) : Nat := w.chains.left + w.draining.length

/-- Every step of a queued job uses up one. -/
theorem left_step (act : QueueAct) (hact : act.queued = true) :
    Leads (fun w' => w'.left + 1 = w.left) (queue.step act w) := by
  unfold left
  cases act with
  | enqueue key => cases hact
  | start j =>
    refine .bind fun job hj => .guard fun ⟨hphase, _⟩ => ?_
    have hleft := Chain.left_setPhase hj .running
    simp only [hphase, Chain.Phase.left] at hleft
    show (w.chains.setPhase j .running).left + w.draining.length + 1 = _
    omega
  | settle j outcome =>
    refine .bind fun job hj => .guard fun hphase => ?_
    have hleft := Chain.left_setPhase hj .settled
    simp only [hphase, Chain.Phase.left] at hleft
    show (w.chains.setPhase j .settled).left + w.draining.length + 1 = _
    omega
  | reclaim j =>
    refine .bind fun job hj => .guard fun ⟨_, hmem⟩ => ?_
    have hpos := List.length_pos_of_mem hmem
    show (w.chains.reclaim job.key j).left + (w.draining.erase j).length + 1 = _
    rw [Chain.left_reclaim, List.length_erase_of_mem hmem]
    omega

/-- With nothing left to do, all work has settled. -/
theorem Kept.at_rest (hw : Kept w) (hrest : ∀ act, act.queued = true → queue.step act w = none)
    {j : Nat} {job : Job Text Unit} (hj : w.chains.jobs[j]? = some job) : job.phase = .settled := by
  by_contra hphase
  obtain ⟨i, other, hother, -, hrunning | ⟨hwaiting, hfree⟩⟩ := hw.chain.progress hj hphase
  · have hstuck := hrest (.settle i .resolved) rfl
    simp [queue, hother, hrunning] at hstuck
  · have hstuck := hrest (.start i) rfl
    simp [queue, hother, hwaiting, hfree] at hstuck

-- ======== the result

/-- Whatever is enqueued and however it settles: work of a key is called in
the order it was enqueued, each when all before it has settled, at most once
and, when the queue comes to rest, which takes it a bounded number of steps,
exactly once; work waits for work of its own key only; and a key has an entry
while work of it is waiting or running, and after that only until the
`finally` of its last work has run. -/
theorem mutation_queue (hr : queue.Reach new w) :
    (∀ (i j : Nat) (a b : Job Text Unit), i < j → w.chains.jobs[i]? = some a →
      w.chains.jobs[j]? = some b → a.key = b.key → b.phase ≠ .waiting → a.phase = .settled)
    ∧ (∀ j, w.started.count j = if w.begun j then 1 else 0)
    ∧ (∀ j, (queue.step (.start j) w).isSome = true ↔ w.Turn j)
    ∧ (∀ acts w', (∀ act ∈ acts, act.queued = true) → queue.run w acts = some w' →
        acts.length ≤ w.left)
    ∧ ((∀ act, act.queued = true → queue.step act w = none) →
        ∀ (j : Nat) (job : Job Text Unit), w.chains.jobs[j]? = some job →
          job.phase = .settled ∧ w.started.count j = 1)
    ∧ (∀ (j : Nat) (job : Job Text Unit), w.chains.jobs[j]? = some job → job.phase ≠ .settled →
        (w.chains.tail job.key).isSome = true)
    ∧ (∀ key j, w.chains.tail key = some j →
        ∃ job, w.chains.jobs[j]? = some job ∧ job.key = key
          ∧ (∀ i other, w.chains.jobs[i]? = some other → other.key = key → i ≤ j)
          ∧ (job.phase ≠ .settled ∨ (queue.step (.reclaim j) w).isSome = true)) := by
  have hw := kept_reach hr
  refine ⟨fun _ _ _ _ => hw.chain.order, hw.started, fun _ => hw.start_iff, ?_, ?_, ?_, ?_⟩
  · intro acts w' hacts hrun
    have hleft := Machine.length_of_run hrun (fun act _ _ hact => (left_step act hact).to) hacts
    omega
  · intro hrest j job hj
    have hsettled := hw.at_rest hrest hj
    refine ⟨hsettled, ?_⟩
    rw [hw.started j, if_pos (by simp [begun, hj, hsettled])]
  · intro j job hj hphase
    by_contra hnone
    exact hphase (hw.chain.drained (Option.not_isSome_iff_eq_none.mp hnone) hj rfl)
  · intro key j htail
    obtain ⟨⟨job, hjob, hkey⟩, hlast⟩ := hw.chain.last htail
    refine ⟨job, hjob, hkey, fun _ _ => hlast, ?_⟩
    by_cases hphase : job.phase = .settled
    · exact .inr (by simp [queue, hjob, hphase, hw.draining htail])
    · exact .inl hphase

/-- Two pieces of work under one key, the first rejected, and one under
another. -/
theorem mutation_queue_rejected :
    ∃ w, queue.Reach new w ∧ w.unexpected = [(['a'], 0)] ∧ w.chains.tail ['b'] = none
      ∧ w.started.count 1 = 1 := by
  have hrun : (queue.run new [.enqueue ['a'], .enqueue ['a'], .enqueue ['b'], .start 0, .start 2,
      .settle 2 .resolved, .settle 0 .rejected, .reclaim 2, .start 1, .reclaim 0]).any (fun w =>
        w.unexpected = [(['a'], 0)] ∧ w.chains.tail ['b'] = none ∧ w.begun 1) = true := by
    decide
  obtain ⟨w, hr, htest⟩ := Machine.exists_reach_of_run _ _ _ hrun
  obtain ⟨hunexpected, hb, hbegun⟩ := of_decide_eq_true htest
  refine ⟨w, hr, hunexpected, hb, ?_⟩
  rw [(mutation_queue hr).2.1 1, if_pos hbegun]

/-- While `onUnexpectedError` hears of the only work of a key, the key still
has its entry. -/
theorem entry_outlives_work :
    ∃ w, queue.Reach new w ∧ (∀ job ∈ w.chains.jobs, job.phase = .settled)
      ∧ (w.chains.tail ['a']).isSome = true := by
  have hrun : (queue.run new [.enqueue ['a'], .start 0, .settle 0 .rejected]).any (fun w =>
      (w.chains.jobs.all fun job => job.phase = .settled)
        ∧ (w.chains.tail ['a']).isSome = true) = true := by
    decide
  obtain ⟨w, hr, htest⟩ := Machine.exists_reach_of_run _ _ _ hrun
  obtain ⟨hall, hsome⟩ := of_decide_eq_true htest
  exact ⟨w, hr, by simpa using hall, hsome⟩

end Queue

end OpenWA.Mutation

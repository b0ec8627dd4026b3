/-
The teardown fence covers every teardown it was told of.

# The argument

That a name without an entry has only settled entries is what `Chain.Ok`
keeps, and a settled entry's teardown has settled. A wait that found an
entry found the last one of the name, and an entry settles after all of its
name before it. What is left is that the entry goes: with every teardown of
the name settled, some entry of the name can take a step until the last
one's `finally` has run, and there are only so many steps (`left`).
-/
import OpenWA.Session.TeardownFence

namespace OpenWA.Session

open List

namespace Fences

variable {w w' : Fences} {act : FenceAct}

-- ======== the moves

/-- What a step can do, with what it needs. -/
inductive Moves (w : Fences) : FenceAct → Fences → Prop
  | track (name : Text) : Moves w (.track name) (w.track name)
  | teardown {j : Nat} (how : Settlement) (hj : j < w.pendingTeardowns.jobs.length)
      (hraw : w.raw j = none) :
      Moves w (.teardown j how) { w with raw := fun i => if i = j then some how else w.raw i }
  | hear {j : Nat} {job : Job Text Unit} (hj : w.pendingTeardowns.jobs[j]? = some job)
      (hphase : job.phase = .waiting) (hfree : w.pendingTeardowns.free job = true) :
      Moves w (.hear j) { w with pendingTeardowns := w.pendingTeardowns.setPhase j .running }
  | settle {j : Nat} {job : Job Text Unit} (hj : w.pendingTeardowns.jobs[j]? = some job)
      (hphase : job.phase = .running) (hraw : (w.raw j).isSome = true) :
      Moves w (.settle j) { w with pendingTeardowns := w.pendingTeardowns.setPhase j .settled }
  | clear {j : Nat} {job : Job Text Unit} (hj : w.pendingTeardowns.jobs[j]? = some job)
      (hphase : job.phase = .settled) (hmem : j ∈ w.uncleared) :
      Moves w (.clear j) { w with
        pendingTeardowns := w.pendingTeardowns.reclaim job.key j
        uncleared := w.uncleared.erase j }
  | await (name : Text) : Moves w (.await name) (w.await name)
  | resume {i : Nat} {wait : Wait} (hi : w.waits[i]? = some wait) (hphase : wait.phase = .waiting)
      (hpending : wait.pending.all w.settled = true) : Moves w (.resume i) (w.setWait i .resolved)
  | timeout {i : Nat} {wait : Wait} (hi : w.waits[i]? = some wait)
      (hphase : wait.phase = .waiting) : Moves w (.timeout i) (w.setWait i .timedOut)

/-- Every step is one of the moves. -/
theorem moves_of_step (hs : fences.step act w = some w') : Moves w act w' := by
  cases act with
  | track name => cases hs; exact .track name
  | teardown j how =>
    simp only [fences] at hs
    split at hs
    next h => cases hs; exact .teardown how h.1 h.2
    next => cases hs
  | await name => cases hs; exact .await name
  | hear j | settle j | clear j | resume j | timeout j =>
    simp only [fences] at hs
    split at hs
    next job hj =>
      obtain ⟨h, ⟨⟩⟩ := Option.ite_none_right_eq_some.mp hs
      constructor <;> first | exact hj | exact h | exact h.1 | exact h.2 | simpa using h.2
    next => cases hs

-- ======== the invariant

/-- Every teardown of the name among the first `n` has settled. -/
def SettledBefore (w : Fences) (name : Text) (n : Nat) : Prop :=
  ∀ j job, j < n → w.pendingTeardowns.jobs[j]? = some job → job.key = name → (w.raw j).isSome = true

/-- What a wait knows: it is over for good reason, or the entry it waits for
is the last of its name by then. -/
def Sound (w : Fences) (wait : Wait) : Prop :=
  (wait.phase = .resolved → w.SettledBefore wait.name wait.before)
  ∧ ∀ p, wait.pending = some p → p < wait.before
      ∧ (∃ job, w.pendingTeardowns.jobs[p]? = some job ∧ job.key = wait.name)
      ∧ ∀ i job, i < wait.before → w.pendingTeardowns.jobs[i]? = some job →
        job.key = wait.name → i ≤ p

/-- What the fences promise, in every run. -/
structure Fenced (w : Fences) : Prop where
  chain : w.pendingTeardowns.Ok
  /-- An entry settles after its teardown. -/
  torn : ∀ j job, w.pendingTeardowns.jobs[j]? = some job → job.phase = .settled →
    (w.raw j).isSome = true
  /-- An entry in the map has its `finally` to come. -/
  uncleared : ∀ name j, w.pendingTeardowns.tail name = some j → j ∈ w.uncleared
  waits : ∀ wait ∈ w.waits, w.Sound wait ∧ wait.before ≤ w.pendingTeardowns.jobs.length
    ∧ (wait.pending = none → wait.phase = .resolved)

-- ======== what stays

/-- Entries keep their names and settled teardowns stay settled. -/
structure Extends (w w' : Fences) : Prop where
  length : w.pendingTeardowns.jobs.length ≤ w'.pendingTeardowns.jobs.length
  forward : ∀ (j : Nat) (job : Job Text Unit), w.pendingTeardowns.jobs[j]? = some job →
    ∃ job' : Job Text Unit, w'.pendingTeardowns.jobs[j]? = some job' ∧ job'.key = job.key
  raw : ∀ j, (w.raw j).isSome = true → (w'.raw j).isSome = true

theorem Extends.backward (h : Extends w w') {j : Nat} {job' : Job Text Unit}
    (hj : j < w.pendingTeardowns.jobs.length) (hjob : w'.pendingTeardowns.jobs[j]? = some job') :
    ∃ job, w.pendingTeardowns.jobs[j]? = some job ∧ job.key = job'.key := by
  obtain ⟨job'', hjob'', hkey⟩ := h.forward j _ (getElem?_eq_getElem hj)
  rw [hjob] at hjob''
  cases hjob''
  exact ⟨_, getElem?_eq_getElem hj, hkey.symm⟩

theorem Extends.of_jobs (hjobs : w'.pendingTeardowns.jobs = w.pendingTeardowns.jobs)
    (hraw : ∀ j, (w.raw j).isSome = true → (w'.raw j).isSome = true) : Extends w w' where
  length := by rw [hjobs]
  forward j job hj := ⟨job, by rw [hjobs]; exact hj, rfl⟩
  raw := hraw

theorem extends_setPhase (w : Fences) (j : Nat) (phase : Phase) :
    Extends w { w with pendingTeardowns := w.pendingTeardowns.setPhase j phase } where
  length := by
    show w.pendingTeardowns.jobs.length ≤ (w.pendingTeardowns.jobs.modify j _).length
    rw [length_modify]
  forward i job hi := ⟨_, Chain.setPhase_of_getElem? hi, rfl⟩
  raw _ h := h

/-- Teardowns are added and settle, and stay. -/
theorem extends_step (hs : fences.step act w = some w') : Extends w w' := by
  cases moves_of_step hs with
  | track name =>
    refine ⟨?_, fun j job hj => ⟨job, Chain.getElem?_push.mpr (.inl hj), rfl⟩, fun _ h => h⟩
    show w.pendingTeardowns.jobs.length ≤ (w.pendingTeardowns.jobs ++ _).length
    simp
  | teardown how _ _ =>
    refine .of_jobs rfl fun i hi => ?_
    show (if _ then some how else w.raw i).isSome = true
    split
    · rfl
    · exact hi
  | hear _ _ _ | settle _ _ _ => exact extends_setPhase w _ _
  | clear _ _ _ => exact .of_jobs (Chain.jobs_reclaim _ _ _) fun _ h => h
  | await _ | resume _ _ _ | timeout _ _ => exact .of_jobs rfl fun _ h => h

theorem SettledBefore.extend (h : Extends w w') {name : Text} {n : Nat}
    (hn : n ≤ w.pendingTeardowns.jobs.length) (hw : w.SettledBefore name n) :
    w'.SettledBefore name n := by
  intro j job hj hjob hkey
  obtain ⟨job₀, hjob₀, hkey₀⟩ := h.backward (hj.trans_le hn) hjob
  exact h.raw j (hw j job₀ hj hjob₀ (hkey₀.trans hkey))

theorem Sound.extend (h : Extends w w') {wait : Wait}
    (hn : wait.before ≤ w.pendingTeardowns.jobs.length) (hw : w.Sound wait) : w'.Sound wait := by
  obtain ⟨hresolved, hpending⟩ := hw
  refine ⟨fun hphase => (hresolved hphase).extend h hn, fun p hp => ?_⟩
  obtain ⟨hlt, ⟨job, hjob, hkey⟩, hlast⟩ := hpending p hp
  obtain ⟨job', hjob', hkey'⟩ := h.forward p job hjob
  refine ⟨hlt, ⟨job', hjob', hkey'.trans hkey⟩, fun i other hi hother hname => ?_⟩
  obtain ⟨other₀, hother₀, hname₀⟩ := h.backward (hi.trans_le hn) hother
  exact hlast i other₀ hi hother₀ (hname₀.trans hname)

-- ======== the steps

theorem fenced_new : Fenced new where
  chain := Chain.Ok.empty
  torn j job hj := by cases hj
  uncleared name j h := by cases h
  waits wait h := by cases h

section

variable (hw : Fenced w)
include hw

/-- When an entry has settled, so has every teardown of its name up to it. -/
theorem Fenced.settled_upto {i p : Nat} {job other : Job Text Unit}
    (hp : w.pendingTeardowns.jobs[p]? = some job) (hphase : job.phase = .settled)
    (hi : w.pendingTeardowns.jobs[i]? = some other) (hkey : other.key = job.key) (hip : i ≤ p) :
    (w.raw i).isSome = true := by
  rcases Nat.lt_or_eq_of_le hip with hlt | rfl
  · refine hw.torn i other hi (hw.chain.order hlt hi hp hkey ?_)
    rw [hphase]
    exact Phase.noConfusion
  · exact hw.torn i other hi (by rw [hi] at hp; cases hp; exact hphase)

section

variable (hs : fences.step act w = some w')
include hs

theorem Fenced.chain_step : w'.pendingTeardowns.Ok := by
  cases moves_of_step hs with
  | track name => exact hw.chain.push name ()
  | teardown _ _ _ | await _ | resume _ _ _ | timeout _ _ => exact hw.chain
  | hear hj hphase hfree => exact hw.chain.begin hj hphase hfree
  | settle hj hphase _ => exact hw.chain.settle hj hphase
  | clear hj hphase _ => exact hw.chain.reclaim hj hphase

theorem Fenced.torn_step :
    ∀ j job, w'.pendingTeardowns.jobs[j]? = some job → job.phase = .settled →
      (w'.raw j).isSome = true := by
  have hext := extends_step hs
  intro i other hi hsettled
  cases moves_of_step hs with
  | track name =>
    rcases Chain.getElem?_push.mp hi with hi | ⟨-, rfl⟩
    · exact hw.torn i other hi hsettled
    · cases hsettled
  | teardown how _ _ => exact hext.raw i (hw.torn i other hi hsettled)
  | hear hj _ _ =>
    obtain ⟨before, hbefore, rfl⟩ := Chain.getElem?_setPhase hi
    refine hw.torn i before hbefore ?_
    split at hsettled
    · cases hsettled
    · exact hsettled
  | @settle j job hj _ hraw =>
    obtain ⟨before, hbefore, rfl⟩ := Chain.getElem?_setPhase hi
    split at hsettled
    next heq => exact heq ▸ hraw
    next => exact hw.torn i before hbefore hsettled
  | @clear j job hj hphase _ =>
    refine hw.torn i other ?_ hsettled
    rw [← Chain.jobs_reclaim w.pendingTeardowns job.key j]
    exact hi
  | await _ | resume _ _ _ | timeout _ _ => exact hw.torn i other hi hsettled

theorem Fenced.uncleared_step :
    ∀ name j, w'.pendingTeardowns.tail name = some j → j ∈ w'.uncleared := by
  intro name i htail
  cases moves_of_step hs with
  | track name' =>
    rcases of_update htail with ⟨rfl, ⟨⟩⟩ | ⟨-, htail⟩
    · exact mem_append_right _ (mem_singleton_self _)
    · exact mem_append_left _ (hw.uncleared name i htail)
  | clear hj _ _ => exact hw.chain.mem_erase_of_reclaim hj (hw.uncleared _ _) htail
  | teardown _ _ _ | hear _ _ _ | settle _ _ _ | await _ | resume _ _ _ | timeout _ _ =>
    exact hw.uncleared name i htail

end

/-- A wait that changes its phase, but not to resolved without reason. -/
theorem Fenced.waits_setWait {i : Nat} {phase : WaitPhase}
    (hphase : ∀ wait, w.waits[i]? = some wait → wait.pending ≠ none
      ∧ (phase = .resolved → w.SettledBefore wait.name wait.before)) :
    ∀ wait ∈ (w.setWait i phase).waits, (w.setWait i phase).Sound wait
      ∧ wait.before ≤ w.pendingTeardowns.jobs.length
      ∧ (wait.pending = none → wait.phase = .resolved) := by
  intro wait hwait
  obtain ⟨n, hn⟩ := mem_iff_getElem?.mp hwait
  have hn' : (w.waits.modify i fun wait => { wait with phase })[n]? = some wait := hn
  rw [getElem?_modify] at hn'
  obtain ⟨old, hold, hnew⟩ := Option.map_eq_some_iff.mp hn'
  obtain ⟨hsound, hle, hnone⟩ := hw.waits old (mem_of_getElem? hold)
  split at hnew
  next heq =>
    subst heq
    obtain ⟨hpending, hresolved⟩ := hphase old hold
    subst hnew
    exact ⟨⟨hresolved, hsound.2⟩, hle, fun h => absurd h hpending⟩
  next =>
    cases hnew
    exact ⟨hsound, hle, hnone⟩

/-- A wait that begins. -/
theorem Fenced.sound_await (name : Text) :
    let wait : Wait := {
      name
      pending := w.pendingTeardowns.tail name
      before := w.pendingTeardowns.jobs.length
      phase := if (w.pendingTeardowns.tail name).isNone then .resolved else .waiting }
    (w.await name).Sound wait ∧ wait.before ≤ w.pendingTeardowns.jobs.length
      ∧ (wait.pending = none → wait.phase = .resolved) := by
  refine ⟨⟨?_, ?_⟩, Nat.le_refl _, fun hnone => ?_⟩
  · intro hphase
    split at hphase
    next hnone =>
      intro j job _ hjob hkey
      have hdrained := hw.chain.drained (Option.isNone_iff_eq_none.mp hnone) hjob hkey
      exact hw.torn j job hjob hdrained
    next => cases hphase
  · intro p hp
    obtain ⟨⟨job, hjob, hkey⟩, hlast⟩ := hw.chain.last hp
    exact ⟨(List.getElem?_eq_some_iff.mp hjob).1, ⟨job, hjob, hkey⟩,
      fun i other _ hother hname => hlast hother hname⟩
  · have hnone' : w.pendingTeardowns.tail name = none := hnone
    rw [hnone']
    rfl

theorem Fenced.waits_step (hs : fences.step act w = some w') :
    ∀ wait ∈ w'.waits, w'.Sound wait ∧ wait.before ≤ w'.pendingTeardowns.jobs.length
      ∧ (wait.pending = none → wait.phase = .resolved) := by
  have hext := extends_step hs
  have hsame : ∀ wait ∈ w.waits, w'.Sound wait ∧ wait.before ≤ w'.pendingTeardowns.jobs.length
      ∧ (wait.pending = none → wait.phase = .resolved) := by
    intro wait hwait
    obtain ⟨hsound, hle, hnone⟩ := hw.waits wait hwait
    exact ⟨hsound.extend hext hle, hle.trans hext.length, hnone⟩
  cases moves_of_step hs with
  | track _ | teardown _ _ _ | hear _ _ _ | settle _ _ _ | clear _ _ _ => exact hsame
  | await name =>
    intro wait hwait
    rcases mem_append.mp hwait with hold | hnew
    · exact hsame wait hold
    · rw [mem_singleton.mp hnew]
      exact hw.sound_await name
  | @resume i wait hi hphase hpending =>
    refine hw.waits_setWait fun old hold => ?_
    rw [hi] at hold
    cases hold
    obtain ⟨hsound, -, hnone⟩ := hw.waits wait (mem_of_getElem? hi)
    cases hp : wait.pending with
    | none => exact absurd (hnone hp) (by rw [hphase]; exact WaitPhase.noConfusion)
    | some p =>
      refine ⟨Option.some_ne_none p, fun _ => ?_⟩
      obtain ⟨-, ⟨job, hjob, hkey⟩, hlast⟩ := hsound.2 p hp
      have hdone : job.phase = .settled := by
        rw [hp] at hpending
        simpa [Fences.settled, hjob] using hpending
      intro j other hj hother hname
      exact hw.settled_upto hjob hdone hother (hname.trans hkey.symm)
        (hlast j other hj hother hname)
  | @timeout i wait hi hphase =>
    refine hw.waits_setWait fun old hold => ?_
    rw [hi] at hold
    cases hold
    refine ⟨fun hnone => ?_, fun h => WaitPhase.noConfusion h⟩
    have hdone := (hw.waits wait (mem_of_getElem? hi)).2.2 hnone
    rw [hphase] at hdone
    cases hdone

/-- Every step keeps the fences. -/
theorem Fenced.step (hs : fences.step act w = some w') : Fenced w' where
  chain := hw.chain_step hs
  torn := hw.torn_step hs
  uncleared := hw.uncleared_step hs
  waits := hw.waits_step hs

end

theorem fenced_reach (hr : fences.Reach new w) : Fenced w :=
  hr.invariant fenced_new fun _ _ _ hw hs => hw.step hs

-- ======== the removal

/-- The steps the promises still have to take. -/
def left (w : Fences) : Nat := w.pendingTeardowns.left + w.uncleared.length

theorem left_step (hact : act.microtask = true) (hs : fences.step act w = some w') :
    w'.left + 1 = w.left := by
  cases moves_of_step hs with
  | hear hj hphase _ | settle hj hphase _ =>
    have hrunning := Chain.left_setPhase hj .running
    have hsettled := Chain.left_setPhase hj .settled
    simp only [hphase, Chain.Phase.left] at hrunning hsettled
    show (w.pendingTeardowns.setPhase _ _).left + w.uncleared.length + 1 = w.left
    unfold left
    omega
  | @clear j job _ _ hmem =>
    have hlength := length_erase_of_mem hmem
    have hpos := length_pos_of_mem hmem
    show (w.pendingTeardowns.reclaim job.key j).left + (w.uncleared.erase j).length + 1 = w.left
    rw [Chain.left_reclaim, hlength]
    unfold left
    omega
  | track _ | teardown _ _ _ | await _ | resume _ _ _ | timeout _ _ => cases hact

/-- With every teardown of a name settled, its entry can take a step, or is
gone. -/
theorem Fenced.removed (hw : Fenced w) {name : Text}
    (hquiet : ∀ act, act.microtask = true → fences.step act w = none)
    (hall : ∀ j job, w.pendingTeardowns.jobs[j]? = some job → job.key = name →
      (w.raw j).isSome = true) : w.pendingTeardowns.tail name = none := by
  cases htail : w.pendingTeardowns.tail name with
  | none => rfl
  | some j =>
    obtain ⟨⟨job, hjob, hkey⟩, -⟩ := hw.chain.last htail
    by_cases hphase : job.phase = .settled
    · have hmem := hw.uncleared name j htail
      have hstuck := hquiet (.clear j) rfl
      simp only [fences, hjob] at hstuck
      rw [if_pos ⟨hphase, by simpa using hmem⟩] at hstuck
      cases hstuck
    · obtain ⟨i, other, hother, hsame, hgo⟩ := hw.chain.progress hjob hphase
      rcases hgo with hrunning | ⟨hwaiting, hfree⟩
      · have hraw := hall i other hother (hsame.trans hkey)
        have hstuck := hquiet (.settle i) rfl
        simp only [fences, hother] at hstuck
        rw [if_pos ⟨hrunning, hraw⟩] at hstuck
        cases hstuck
      · have hstuck := hquiet (.hear i) rfl
        simp only [fences, hother] at hstuck
        rw [if_pos ⟨hwaiting, hfree⟩] at hstuck
        cases hstuck

-- ======== the result

/-- A name has an entry as long as a teardown of it has not settled; the
entry is gone when they all have and the promises have come to rest, which
takes them a bounded number of steps; and a wait that resolves does so when
every teardown of its name tracked before it has settled. -/
theorem teardown_fence (hr : fences.Reach new w) :
    (∀ j job, w.pendingTeardowns.jobs[j]? = some job → w.raw j = none →
      ∃ e, w.pendingTeardowns.tail job.key = some e)
    ∧ (∀ name, (∀ act, act.microtask = true → fences.step act w = none) →
        (∀ j job, w.pendingTeardowns.jobs[j]? = some job → job.key = name →
          (w.raw j).isSome = true) →
        w.pendingTeardowns.tail name = none)
    ∧ (∀ acts w', (∀ act ∈ acts, act.microtask = true) → fences.run w acts = some w' →
        acts.length ≤ w.left)
    ∧ (∀ wait ∈ w.waits, wait.phase = .resolved → ∀ j job, j < wait.before →
        w.pendingTeardowns.jobs[j]? = some job → job.key = wait.name →
          (w.raw j).isSome = true) := by
  have hw := fenced_reach hr
  refine ⟨?_, fun name hquiet hall => hw.removed hquiet hall, ?_, ?_⟩
  · intro j job hjob hraw
    cases htail : w.pendingTeardowns.tail job.key with
    | some e => exact ⟨e, rfl⟩
    | none =>
      have hsettled := hw.torn j job hjob (hw.chain.drained htail hjob rfl)
      rw [hraw] at hsettled
      cases hsettled
  · intro acts w' hacts hrun
    have hleft := Machine.length_of_run hrun (fun _ _ _ => left_step) hacts
    omega
  · intro wait hwait hresolved
    exact (hw.waits wait hwait).1.1 hresolved

/-- Two teardowns of one name: the second settles first, and so does its
`catch`; the entry stays for the first. -/
theorem teardown_fence_overlap : ∃ w, fences.Reach new w ∧ w.raw 1 = some .resolved
    ∧ w.raw 0 = none ∧ ∃ e, w.pendingTeardowns.tail ['n'] = some e := by
  obtain ⟨w, hr, hw⟩ := Machine.exists_reach_of_run (M := fences) new
    [.track ['n'], .track ['n'], .hear 0, .teardown 1 .resolved]
    (fun w : Fences => decide (w.raw 1 = some .resolved ∧ w.raw 0 = none)
      && (w.pendingTeardowns.jobs[0]?).any fun job : Job Text Unit => decide (job.key = ['n']))
    (by decide +kernel)
  obtain ⟨hraws, hjob⟩ := Bool.and_eq_true_iff.mp hw
  obtain ⟨job, hj, hkey⟩ := (Option.any_eq_true _ _).mp hjob
  obtain ⟨hone, hzero⟩ := of_decide_eq_true hraws
  obtain ⟨e, he⟩ := (teardown_fence hr).1 0 job hj hzero
  rw [of_decide_eq_true hkey] at he
  exact ⟨w, hr, hone, hzero, e, he⟩

end Fences

end OpenWA.Session

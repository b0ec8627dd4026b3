/-
Keyed promise chains: work that runs one after another under each key.

# The pattern

A service keeps a map from a key to the last promise of that key. New work
waits for that promise, then becomes the last one itself; once a promise has
settled it takes its entry out of the map, unless later work has replaced
it. Work under different keys is independent.

# What holds

Work starts in the order it was pushed, under each key (`Ok.order`), and as
long as some work has not settled, some work can go on (`Ok.progress`): an
emptied entry is only ever one whose key has no unsettled work
(`Ok.drained`), so nothing overtakes by starting a new chain.
-/
import OpenWA.Lib.Update

namespace OpenWA

open List

/-- Before its turn, from its turn on, and after its promise has settled. -/
inductive Phase
  | waiting
  | running
  | settled
deriving DecidableEq

/-- A piece of work: its key, the work it waits for, and what it is. -/
structure Job (κ π : Type) where
  key : κ
  previous : Option Nat
  phase : Phase
  payload : π

/-- The work so far and the last promise of each key. -/
structure Chain (κ π : Type) where
  jobs : List (Job κ π)
  tail : κ → Option Nat

variable {f : Phase → Nat} {i : Nat}

theorem getElem?_concat {α : Type} {l : List α} {x y : α} :
    (l ++ [x])[i]? = some y ↔ l[i]? = some y ∨ (i = l.length ∧ y = x) := by
  rw [getElem?_append]
  split
  next hlt =>
    constructor
    · exact .inl
    · rintro (h | ⟨rfl, -⟩)
      · exact h
      · exact absurd hlt (Nat.lt_irrefl _)
  next hge =>
    rw [getElem?_singleton]
    constructor
    · intro h
      split at h
      next hzero => exact .inr ⟨by omega, (Option.some.inj h).symm⟩
      next => cases h
    · rintro (h | ⟨rfl, rfl⟩)
      · exact absurd (List.getElem?_eq_some_iff.mp h).1 hge
      · rw [Nat.sub_self]
        rfl

namespace Chain

variable {κ π : Type}

/-- No job yet. -/
def empty : Chain κ π := { jobs := [], tail := fun _ => none }

/-- Put work behind the last promise of its key. -/
def push [DecidableEq κ] (c : Chain κ π) (k : κ) (p : π) : Chain κ π where
  jobs := c.jobs ++ [{ key := k, previous := c.tail k, phase := .waiting, payload := p }]
  tail := Function.update c.tail k (some c.jobs.length)

/-- Job `j` is now in this phase. -/
def setPhase (c : Chain κ π) (j : Nat) (phase : Phase) : Chain κ π :=
  { c with jobs := c.jobs.modify j fun job => { job with phase := phase } }

/-- What the work waits for has settled. -/
def free (c : Chain κ π) (job : Job κ π) : Bool :=
  job.previous.all fun p => (c.jobs[p]?).any fun prior => prior.phase = .settled

/-- Take the entry of a settled promise out of the map, if it is the last. -/
def reclaim [DecidableEq κ] (c : Chain κ π) (k : κ) (j : Nat) : Chain κ π :=
  if c.tail k = some j then { c with tail := Function.update c.tail k none } else c

-- ======== the reads

section Reads

variable {c : Chain κ π} {k : κ} {p : π} {i j : Nat} {phase : Phase} {job : Job κ π}

/-- A job is pushed behind the last of its key. -/
theorem getElem?_push [DecidableEq κ] :
    (c.push k p).jobs[i]? = some job
      ↔ c.jobs[i]? = some job ∨ (i = c.jobs.length
          ∧ job = { key := k, previous := c.tail k, phase := .waiting, payload := p }) :=
  getElem?_concat

/-- A job after a change of phase, and the job it was. -/
theorem getElem?_setPhase (h : (c.setPhase j phase).jobs[i]? = some job) :
    ∃ before, c.jobs[i]? = some before
      ∧ job = { before with phase := if j = i then phase else before.phase } := by
  unfold setPhase at h
  rw [getElem?_modify] at h
  obtain ⟨before, hbefore, hjob⟩ := Option.map_eq_some_iff.mp h
  refine ⟨before, hbefore, ?_⟩
  rw [← hjob]
  split <;> rfl

theorem setPhase_of_getElem? (h : c.jobs[i]? = some job) :
    (c.setPhase j phase).jobs[i]?
      = some { job with phase := if j = i then phase else job.phase } := by
  unfold setPhase
  rw [getElem?_modify, h, Option.map_eq_map, Option.map_some]
  split <;> rfl

theorem free_iff : c.free job = true
    ↔ ∀ p, job.previous = some p → ∃ prior, c.jobs[p]? = some prior ∧ prior.phase = .settled := by
  unfold free
  cases job.previous with
  | none => simp
  | some p => simp [Option.any_eq_true]

end Reads

-- ======== the invariant

/-- What the bookkeeping keeps. -/
structure Ok (c : Chain κ π) : Prop where
  /-- The entry of a key is its last work. -/
  last : ∀ {k : κ} {j : Nat}, c.tail k = some j →
    (∃ job : Job κ π, c.jobs[j]? = some job ∧ job.key = k)
      ∧ ∀ {i : Nat} {job : Job κ π}, c.jobs[i]? = some job → job.key = k → i ≤ j
  /-- A key without an entry has no unsettled work. -/
  drained : ∀ {k : κ} {i : Nat} {job : Job κ π}, c.tail k = none → c.jobs[i]? = some job →
    job.key = k → job.phase = .settled
  /-- Work waits for the last work of its key before it. -/
  behind : ∀ {j p : Nat} {job : Job κ π}, c.jobs[j]? = some job → job.previous = some p →
    p < j ∧ (∃ prior : Job κ π, c.jobs[p]? = some prior ∧ prior.key = job.key)
      ∧ ∀ {i : Nat} {other : Job κ π}, c.jobs[i]? = some other → other.key = job.key → i < j → i ≤ p
  /-- Work that waits for nothing came when all work of its key had settled. -/
  first : ∀ {i j : Nat} {job other : Job κ π}, c.jobs[j]? = some job → job.previous = none →
    i < j → c.jobs[i]? = some other → other.key = job.key → other.phase = .settled
  /-- Work whose turn has come has only settled work of its key before it. -/
  order : ∀ {i j : Nat} {a b : Job κ π}, i < j → c.jobs[i]? = some a → c.jobs[j]? = some b →
    a.key = b.key → b.phase ≠ .waiting → a.phase = .settled

theorem Ok.empty : (Chain.empty : Chain κ π).Ok where
  last h := by cases h
  drained _ h := by cases h
  behind h := by cases h
  first h := by cases h
  order _ h := by cases h

variable {c : Chain κ π}

/-- A push keeps the chains linked. -/
theorem Ok.push [DecidableEq κ] (h : c.Ok) (k : κ) (p : π) : (c.push k p).Ok where
  last := by
    intro k' j htail
    rcases of_update htail with ⟨rfl, ⟨⟩⟩ | ⟨hk, htail⟩
    · refine ⟨⟨_, getElem?_push.mpr (.inr ⟨rfl, rfl⟩), rfl⟩, ?_⟩
      intro i job hi _
      rcases getElem?_push.mp hi with hi | ⟨rfl, -⟩
      · exact Nat.le_of_lt (List.getElem?_eq_some_iff.mp hi).1
      · exact Nat.le_refl _
    · obtain ⟨⟨job, hjob, hkey⟩, hle⟩ := h.last htail
      refine ⟨⟨job, getElem?_push.mpr (.inl hjob), hkey⟩, ?_⟩
      intro i other hi hother
      rcases getElem?_push.mp hi with hi | ⟨-, rfl⟩
      · exact hle hi hother
      · exact absurd hother.symm hk
  drained := by
    intro k' i job htail hi hkey
    rcases of_update htail with ⟨-, ⟨⟩⟩ | ⟨hk, htail⟩
    rcases getElem?_push.mp hi with hi | ⟨-, rfl⟩
    · exact h.drained htail hi hkey
    · exact absurd hkey.symm hk
  behind := by
    intro j q job hj hprev
    rcases getElem?_push.mp hj with hj | ⟨rfl, rfl⟩
    · obtain ⟨hlt, ⟨prior, hprior, hkey⟩, hle⟩ := h.behind hj hprev
      refine ⟨hlt, ⟨prior, getElem?_push.mpr (.inl hprior), hkey⟩, ?_⟩
      intro i other hi hother hij
      rcases getElem?_push.mp hi with hi | ⟨rfl, -⟩
      · exact hle hi hother hij
      · have := (List.getElem?_eq_some_iff.mp hj).1
        omega
    · obtain ⟨⟨prior, hprior, hkey⟩, hle⟩ := h.last hprev
      refine ⟨(List.getElem?_eq_some_iff.mp hprior).1,
        ⟨prior, getElem?_push.mpr (.inl hprior), hkey⟩, ?_⟩
      intro i other hi hother hij
      rcases getElem?_push.mp hi with hi | ⟨rfl, -⟩
      · exact hle hi hother
      · omega
  first := by
    intro i j job other hj hprev hij hi hother
    rcases getElem?_push.mp hi with hi | ⟨rfl, -⟩
    · rcases getElem?_push.mp hj with hj | ⟨rfl, rfl⟩
      · exact h.first hj hprev hij hi hother
      · exact h.drained hprev hi hother
    · have : j < (c.push k p).jobs.length := (List.getElem?_eq_some_iff.mp hj).1
      have hlen : (c.push k p).jobs.length = c.jobs.length + 1 := length_append
      omega
  order := by
    intro i j a b hij hi hj hkey hphase
    rcases getElem?_push.mp hj with hj | ⟨rfl, rfl⟩
    · rcases getElem?_push.mp hi with hi | ⟨rfl, -⟩
      · exact h.order hij hi hj hkey hphase
      · have := (List.getElem?_eq_some_iff.mp hj).1
        omega
    · exact absurd rfl hphase

section

variable {j : Nat} {job : Job κ π} (h : c.Ok) (hj : c.jobs[j]? = some job)
include h hj

/-- A change of phase keeps the invariant if settled work stays settled and
the new phase respects the order. -/
theorem Ok.setPhase {phase : Phase} (hunsettled : job.phase ≠ .settled)
    (hearlier : ∀ {i : Nat} {other : Job κ π}, i < j → c.jobs[i]? = some other →
      other.key = job.key → other.phase = .settled) : (c.setPhase j phase).Ok where
  last := by
    intro k i htail
    obtain ⟨⟨other, hother, hkey⟩, hle⟩ := h.last htail
    refine ⟨⟨_, setPhase_of_getElem? hother, hkey⟩, ?_⟩
    intro i' job' hi' hkey'
    obtain ⟨before, hbefore, rfl⟩ := getElem?_setPhase hi'
    exact hle hbefore hkey'
  drained := by
    intro k i job' htail hi hkey
    obtain ⟨before, hbefore, rfl⟩ := getElem?_setPhase hi
    have hsettled := h.drained htail hbefore hkey
    by_cases hij : j = i
    · subst hij
      rw [hj] at hbefore
      cases hbefore
      exact absurd hsettled hunsettled
    · rw [if_neg hij]
      exact hsettled
  behind := by
    intro i p job' hi hprev
    obtain ⟨before, hbefore, rfl⟩ := getElem?_setPhase hi
    obtain ⟨hlt, ⟨prior, hprior, hkey⟩, hle⟩ := h.behind hbefore hprev
    refine ⟨hlt, ⟨_, setPhase_of_getElem? hprior, hkey⟩, ?_⟩
    intro i' other hi' hother
    obtain ⟨otherBefore, hotherBefore, rfl⟩ := getElem?_setPhase hi'
    exact hle hotherBefore hother
  first := by
    intro i' i job' other hi hprev hlt hi' hother
    obtain ⟨before, hbefore, rfl⟩ := getElem?_setPhase hi
    obtain ⟨otherBefore, hotherBefore, rfl⟩ := getElem?_setPhase hi'
    have hsettled := h.first hbefore hprev hlt hotherBefore hother
    by_cases hij : j = i'
    · subst hij
      rw [hj] at hotherBefore
      cases hotherBefore
      exact absurd hsettled hunsettled
    · rw [if_neg hij]
      exact hsettled
  order := by
    intro i i' a b hlt hi hi' hkey hphase
    obtain ⟨a, ha, rfl⟩ := getElem?_setPhase hi
    obtain ⟨b, hb, rfl⟩ := getElem?_setPhase hi'
    have hsettled : a.phase = .settled := by
      by_cases hij : j = i'
      · subst hij
        rw [hj] at hb
        cases hb
        exact hearlier hlt ha hkey
      · rw [if_neg hij] at hphase
        exact h.order hlt ha hb hkey hphase
    by_cases hij : j = i
    · subst hij
      rw [hj] at ha
      cases ha
      exact absurd hsettled hunsettled
    · rw [if_neg hij]
      exact hsettled

/-- When its turn comes, all work of the key before it has settled. -/
theorem Ok.settled_before {other : Job κ π} (hfree : c.free job = true) (hij : i < j)
    (hi : c.jobs[i]? = some other) (hkey : other.key = job.key) : other.phase = .settled := by
  cases hprev : job.previous with
  | none => exact h.first hj hprev hij hi hkey
  | some p =>
    obtain ⟨prior, hprior, hsettled⟩ := free_iff.mp hfree p hprev
    obtain ⟨hlt, ⟨prior', hprior', hpriorKey⟩, hle⟩ := h.behind hj hprev
    rw [hprior] at hprior'
    cases hprior'
    rcases Nat.lt_or_eq_of_le (hle hi hkey hij) with hip | rfl
    · exact h.order hip hi hprior (hkey.trans hpriorKey.symm)
        (by rw [hsettled]; exact Phase.noConfusion)
    · rw [hprior] at hi
      cases hi
      exact hsettled

theorem Ok.begin
    (hphase : job.phase = .waiting) (hfree : c.free job = true) : (c.setPhase j .running).Ok := by
  refine h.setPhase hj ?_ fun hij hi hkey => h.settled_before hj hfree hij hi hkey
  rw [hphase]
  exact Phase.noConfusion

theorem Ok.settle (hphase : job.phase = .running) : (c.setPhase j .settled).Ok := by
  refine h.setPhase hj ?_ fun hij hi hkey => h.order hij hi hj hkey ?_ <;>
    · rw [hphase]
      exact Phase.noConfusion

theorem Ok.reclaim [DecidableEq κ] (hphase : job.phase = .settled) : (c.reclaim job.key j).Ok := by
  unfold Chain.reclaim
  split
  next htail =>
    refine ⟨?_, ?_, h.behind, h.first, h.order⟩
    · intro k i hk
      rcases of_update hk with ⟨-, ⟨⟩⟩ | ⟨-, hk⟩
      exact h.last hk
    · intro k i other hk hi hother
      rcases of_update hk with ⟨rfl, -⟩ | ⟨-, hk⟩
      · rcases Nat.lt_or_eq_of_le ((h.last htail).2 hi hother) with hij | rfl
        · exact h.order hij hi hj hother (by rw [hphase]; exact Phase.noConfusion)
        · rw [hj] at hi
          cases hi
          exact hphase
      · exact h.drained hk hi hother
  next => exact h

/-- Every entry that is left is still due to be taken out. -/
theorem Ok.mem_erase_of_reclaim [DecidableEq κ] {due : List Nat}
    (hdue : ∀ {k i}, c.tail k = some i → i ∈ due) {k : κ}
    (htail : (c.reclaim job.key j).tail k = some i) : i ∈ due.erase j := by
  -- another entry, or one that has been replaced
  have hold : c.tail k = some i ∧ (k = job.key → c.tail k ≠ some j) := by
    unfold Chain.reclaim at htail
    split at htail
    next =>
      rcases of_update htail with ⟨-, ⟨⟩⟩ | ⟨hk, htail⟩
      exact ⟨htail, fun h => absurd h hk⟩
    next hne => exact ⟨htail, fun h => h ▸ hne⟩
  have hij : i ≠ j := by
    intro hij
    obtain ⟨⟨other, hother, hkey⟩, -⟩ := h.last hold.1
    rw [hij, hj] at hother
    cases hother
    exact hold.2 hkey.symm (hij ▸ hold.1)
  exact (mem_erase_of_ne hij).mpr (hdue hold.1)

end

/-- Some work of a key can go on while some has not settled. -/
theorem Ok.progress (h : c.Ok) {other : Job κ π} (hi : c.jobs[i]? = some other)
    (hunsettled : other.phase ≠ .settled) :
    ∃ (j : Nat) (job : Job κ π), c.jobs[j]? = some job ∧ job.key = other.key
      ∧ (job.phase = .running ∨ (job.phase = .waiting ∧ c.free job = true)) := by
  induction i using Nat.strongRecOn generalizing other with
  | ind i ih =>
    cases hphase : other.phase with
    | settled => exact absurd hphase hunsettled
    | running => exact ⟨i, other, hi, rfl, .inl hphase⟩
    | waiting =>
      by_cases hfree : c.free other = true
      · exact ⟨i, other, hi, rfl, .inr ⟨hphase, hfree⟩⟩
      · -- the work it waits for is earlier and has not settled
        obtain ⟨p, hprev, hnot⟩ : ∃ p, other.previous = some p
            ∧ ¬ ∃ prior, c.jobs[p]? = some prior ∧ prior.phase = .settled := by
          by_contra hall
          refine hfree (free_iff.mpr ?_)
          intro p hp
          by_contra hno
          exact hall ⟨p, hp, hno⟩
        obtain ⟨hlt, ⟨prior, hprior, hkey⟩, -⟩ := h.behind hi hprev
        rw [← hkey]
        exact ih p hlt hprior fun hsettled => hnot ⟨prior, hprior, hsettled⟩

-- ======== what is left

/-- The jobs, each weighed by its phase. -/
def weigh (f : Phase → Nat) (c : Chain κ π) : Nat := c.jobs.foldr (fun job n => f job.phase + n) 0

variable {job : Job κ π}

/-- A change of phase changes the weight of that job only. -/
theorem weigh_setPhase {j : Nat} (hj : c.jobs[j]? = some job) (phase : Phase) :
    (c.setPhase j phase).weigh f + f job.phase = c.weigh f + f phase := by
  unfold weigh setPhase
  obtain ⟨jobs, tail⟩ := c
  dsimp only at hj ⊢
  induction jobs generalizing j with
  | nil => cases hj
  | cons a jobs ih =>
    cases j with
    | zero =>
      cases hj
      simp only [modify_zero_cons, foldr_cons]
      omega
    | succ j =>
      have := ih hj
      simp only [modify_succ_cons, foldr_cons]
      omega

/-- A job that is pushed weighs what a waiting one does. -/
theorem weigh_push [DecidableEq κ] (c : Chain κ π) (k : κ) (p : π) :
    (c.push k p).weigh f = c.weigh f + f .waiting := by
  unfold weigh push
  induction c.jobs with
  | nil => simp
  | cons a jobs ih =>
    rw [cons_append, foldr_cons, foldr_cons, ih]
    omega

/-- A job that weighs something. -/
theorem exists_of_weigh_pos (h : 0 < c.weigh f) :
    ∃ (j : Nat) (job : Job κ π), c.jobs[j]? = some job ∧ 0 < f job.phase := by
  unfold weigh at h
  obtain ⟨jobs, tail⟩ := c
  dsimp only at h ⊢
  induction jobs with
  | nil => cases h
  | cons a jobs ih =>
    by_cases ha : 0 < f a.phase
    · exact ⟨0, a, rfl, ha⟩
    · rw [foldr_cons] at h
      obtain ⟨j, job, hj, hpos⟩ := ih (by omega)
      exact ⟨j + 1, job, hj, hpos⟩

/-- What a change of phase and a reclaimed entry leave: the work and its
keys. -/
theorem payloads_setPhase (c : Chain κ π) (j : Nat) (phase : Phase) :
    (c.setPhase j phase).jobs.map Job.payload = c.jobs.map Job.payload := by
  unfold setPhase
  induction c.jobs generalizing j with
  | nil => simp
  | cons a jobs ih =>
    cases j with
    | zero => rfl
    | succ j => rw [modify_succ_cons, map_cons, map_cons, ih]

theorem length_setPhase (c : Chain κ π) (j : Nat) (phase : Phase) :
    (c.setPhase j phase).jobs.length = c.jobs.length := length_modify ..

theorem jobs_reclaim [DecidableEq κ] (c : Chain κ π) (k : κ) (j : Nat) :
    (c.reclaim k j).jobs = c.jobs := by
  unfold Chain.reclaim
  split <;> rfl

/-- The steps a job has before it. -/
def Phase.left : Phase → Nat
  | .waiting => 2
  | .running => 1
  | .settled => 0

/-- The steps the work still has to take. -/
def left (c : Chain κ π) : Nat := c.jobs.foldr (fun job n => Phase.left job.phase + n) 0

theorem left_setPhase {j : Nat} (hj : c.jobs[j]? = some job) (phase : Phase) :
    (c.setPhase j phase).left + Phase.left job.phase = c.left + Phase.left phase :=
  weigh_setPhase hj phase

theorem left_reclaim [DecidableEq κ] (c : Chain κ π) (k : κ) (j : Nat) :
    (c.reclaim k j).left = c.left := by
  unfold Chain.reclaim
  split <;> rfl

/-- One for a job that has not settled. -/
def Phase.unsettled : Phase → Nat
  | .waiting => 1
  | .running => 1
  | .settled => 0

/-- The jobs that have not settled. -/
def unsettled (c : Chain κ π) : Nat := c.weigh Phase.unsettled

end Chain

end OpenWA

/-
Guarded machines and their runs: the shared frame of every interleaving
model in this development.

# Why one frame

Each concurrent component of the gateway is modelled the same way: a
state that holds every party (the requests in flight, the rows, the
clock), one constructor per atomic step, and an `Option`-valued
transition — `none` when the step is not enabled in that state. A
theorem about "any interleaving" is then a theorem about every state
`Reach`able from a start state, and a theorem about a concrete schedule
is a computation of `run`.

# The rules

- `Reach.invariant`: what holds at the start and is kept by every
  enabled step holds everywhere. The relative form (`invariant_of`)
  lets a step lemma use an invariant established before.
- `restrict`: the runs in which every step meets a side condition, for
  results that hold only when the environment keeps to it; `guarded` is its
  executable form.
- `reach_of_run`: an executable schedule is a reachability proof, so a
  witness is a `decide` away.
-/
import Mathlib.Order.Basic

namespace OpenWA

/-- A machine whose steps are named by actions and may be disabled. -/
structure Machine (σ : Type*) (α : Type*) where
  step : α → σ → Option σ

/-- What a step leads to, if it is enabled, satisfies `P`. -/
def Leads {σ : Type*} (P : σ → Prop) : Option σ → Prop
  | some s => P s
  | none => True

variable {σ : Type*}

theorem Leads.to {P : σ → Prop} {o : Option σ} {s : σ} (h : Leads P o) (hs : o = some s) : P s := by
  rw [hs] at h
  exact h

theorem Leads.imp {P Q : σ → Prop} {o : Option σ} (h : Leads P o)
    (hPQ : ∀ s, P s → Q s) : Leads Q o := by
  cases o with
  | none => trivial
  | some s => exact hPQ s h

variable {c : Prop}

/-- A step enabled under a condition has it to use. -/
theorem Leads.guard {P : σ → Prop} [Decidable c] {o : Option σ}
    (h : c → Leads P o) : Leads P (if c then o else none) := by
  split
  next hc => exact h hc
  next => trivial

theorem Leads.bind {τ : Type*} {P : σ → Prop} {o : Option τ} {f : τ → Option σ}
    (h : ∀ x, o = some x → Leads P (f x)) : Leads P (o.bind f) := by
  cases o with
  | none => trivial
  | some x => exact h x rfl

theorem Leads.unless {P : σ → Prop} [Decidable c] {o : Option σ}
    (h : ¬c → Leads P o) : Leads P (if c then none else o) := by
  split
  next => trivial
  next hc => exact h hc

namespace Machine

variable {σ α : Type*} (M : Machine σ α)

-- ======== reachability

/-- `M.Reach s₀ s`: some finite schedule of enabled steps leads from
`s₀` to `s`. -/
inductive Reach (s₀ : σ) : σ → Prop
  | refl : Reach s₀ s₀
  | step {s s' : σ} (a : α) : Reach s₀ s → M.step a s = some s' → Reach s₀ s'

variable {M} {s₀ : σ}

/-- Runs compose. -/
theorem Reach.trans {s₁ s₂ : σ} (h₁ : M.Reach s₀ s₁) (h₂ : M.Reach s₁ s₂) : M.Reach s₀ s₂ := by
  induction h₂ with
  | refl => exact h₁
  | step a _ hs ih => exact Reach.step a ih hs

/-- The invariant rule, relative to facts already known of every state
of the run. -/
theorem Reach.invariant_of {s : σ} {K P : σ → Prop}
    (hr : M.Reach s₀ s) (hK : ∀ t, M.Reach s₀ t → K t) (h₀ : P s₀)
    (hstep : ∀ a t t', K t → P t → M.step a t = some t' → P t') :
    P s := by
  induction hr with
  | refl => exact h₀
  | step a hr hs ih => exact hstep a _ _ (hK _ hr) ih hs

/-- The invariant rule. -/
theorem Reach.invariant {s : σ} {P : σ → Prop} (hr : M.Reach s₀ s) (h₀ : P s₀)
    (hstep : ∀ a t t', P t → M.step a t = some t' → P t') : P s :=
  hr.invariant_of (K := fun _ => True) (fun _ _ => trivial) h₀ fun a t t' _ => hstep a t t'

/-- An invariant of every step holds in every run. -/
theorem Reach.leads {s : σ} {P : σ → Prop} (hr : M.Reach s₀ s) (h₀ : P s₀)
    (hstep : ∀ a t, P t → Leads P (M.step a t)) : P s :=
  hr.invariant h₀ fun a t _ ht hs => (hstep a t ht).to hs

-- ======== restricted machines

open Classical in
/-- The machine that takes only the steps `G` allows. -/
noncomputable def restrict (M : Machine σ α) (G : α → σ → Prop) : Machine σ α where
  step a s := if G a s then M.step a s else none

variable {G : α → σ → Prop}

theorem restrict_step {a : α} {s s' : σ} :
    (M.restrict G).step a s = some s' ↔ G a s ∧ M.step a s = some s' := by
  simp only [restrict, Option.ite_none_right_eq_some]

/-- A restricted run is a run. -/
theorem Reach.of_restrict {s : σ} (hr : (M.restrict G).Reach s₀ s) : M.Reach s₀ s := by
  induction hr with
  | refl => exact Reach.refl
  | step a _ hs ih => exact Reach.step a ih (restrict_step.mp hs).2

/-- The machine that takes only the steps a test allows. -/
def guarded (M : Machine σ α) (g : α → σ → Bool) : Machine σ α where
  step a s := if g a s then M.step a s else none

theorem Reach.of_guarded {g : α → σ → Bool} {s : σ} (hr : (M.guarded g).Reach s₀ s) :
    M.Reach s₀ s := by
  induction hr with
  | refl => exact Reach.refl
  | step a _ hs ih => exact Reach.step a ih (Option.ite_none_right_eq_some.mp hs).2

/-- A run whose steps pass the test of a side condition is restricted. -/
theorem Reach.restrict_of_guarded {g : α → σ → Bool} {s : σ}
    (hg : ∀ a s, g a s = true → G a s) (hr : (M.guarded g).Reach s₀ s) :
    (M.restrict G).Reach s₀ s := by
  induction hr with
  | refl => exact Reach.refl
  | step a _ hs ih =>
    simp only [guarded, Option.ite_none_right_eq_some] at hs
    exact Reach.step a ih (restrict_step.mpr ⟨hg a _ hs.1, hs.2⟩)

-- ======== executable runs

/-- Take a schedule step by step, failing on the first disabled one. -/
def run (M : Machine σ α) (s : σ) : List α → Option σ
  | [] => some s
  | a :: rest =>
    match M.step a s with
    | some s' => run M s' rest
    | none => none

section

variable {acts : List α} {s s' : σ} (h : M.run s acts = some s')
include h

/-- The induction rule of schedules, from their end. -/
@[elab_as_elim]
theorem run_induction {R : σ → List α → Prop} (hnil : R s' [])
    (hcons : ∀ {a rest t t'}, M.step a t = some t' → R t' rest → R t (a :: rest)) : R s acts := by
  induction acts generalizing s with
  | nil =>
    cases h
    exact hnil
  | cons a rest ih =>
    simp only [run] at h
    split at h
    next t ht => exact hcons ht (ih h)
    next => cases h

/-- What a schedule computes is reached. -/
theorem reach_of_run : M.Reach s s' :=
  run_induction h .refl fun hs hr => (Reach.refl.step _ hs).trans hr

/-- A schedule of allowed steps is a restricted run. -/
theorem reach_restrict_of_run (hG : ∀ a ∈ acts, ∀ t, G a t) : (M.restrict G).Reach s s' := by
  revert hG
  refine run_induction h (fun _ => .refl) fun {a rest t t'} hs ih hG => ?_
  have hstep := restrict_step.mpr ⟨hG a List.mem_cons_self t, hs⟩
  have hrest := ih fun b hb => hG b (List.mem_cons_of_mem a hb)
  exact (Reach.refl.step a hstep).trans hrest

/-- Steps that each use up one of a number are no more than that. -/
theorem length_of_run {f : σ → Nat} {p : α → Prop}
    (hstep : ∀ a t t', p a → M.step a t = some t' → f t' + 1 = f t) (hp : ∀ a ∈ acts, p a) :
    f s' + acts.length = f s := by
  revert hp
  refine run_induction h (fun _ => rfl) fun {a rest t t'} hs ih hp => ?_
  have hfirst := hstep a t t' (hp a List.mem_cons_self) hs
  have hrest := ih fun b hb => hp b (List.mem_cons_of_mem a hb)
  rw [List.length_cons]
  omega

/-- What no step of a schedule changes is as it was at the end of it. -/
theorem eq_of_run {β : Type*} (f : σ → β)
    (hstep : ∀ a ∈ acts, ∀ t t', M.step a t = some t' → f t' = f t) : f s' = f s := by
  revert hstep
  refine run_induction h (fun _ => rfl) fun {a rest t t'} hs ih hstep => ?_
  rw [ih fun b hb => hstep b (List.mem_cons_of_mem a hb)]
  exact hstep a List.mem_cons_self t t' hs

end

/-- A schedule that ends in a state where the test `p` passes reaches
such a state. -/
theorem exists_reach_of_run (s : σ) (acts : List α) (p : σ → Bool)
    (h : (M.run s acts).any p = true) : ∃ s', M.Reach s s' ∧ p s' = true := by
  obtain ⟨s', hr, hp⟩ := (Option.any_eq_true _ _).mp h
  exact ⟨s', reach_of_run hr, hp⟩

end Machine

end OpenWA

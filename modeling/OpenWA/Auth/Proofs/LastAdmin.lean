/-
The last usable admin key is never lost, over every run.

# Layout

A bound statement is the one its request builds (`Bound`), so every
statement that runs is lawful (Proofs/Guard.lean) and the horizon never
falls. The two consequences are read off the horizon and the guard:

- a usable admin that never expires puts the horizon at `⊤` at every
  instant, whatever the clocks show, so there is always another;
- a removal whose target is the only usable admin finds no witness and
  touches nothing, so of two removals of the last two admins the second
  to run is refused.
-/
import OpenWA.Auth.Proofs.Removal

namespace OpenWA.Auth

open List

variable {parseDate : Text → Option Nat}

-- ======== the calls

/-- Every statement about to run is the one its request builds, at some
reading of a clock. -/
def World.Bound (parseDate : Text → Option Nat) (w : World) : Prop :=
  ∀ c ∈ w.calls, ∀ s, c.phase = .bound s → ∃ now, c.request.statement parseDate now = .ok s

variable {w w' : World} {i t : Nat}

/-- Setting the phase of one call keeps `Bound` if the new phase is
right. -/
theorem World.Bound.setPhase (h : w.Bound parseDate) {phase : Phase}
    (hp : ∀ c, w.calls[i]? = some c → ∀ s, phase = .bound s →
      ∃ now, c.request.statement parseDate now = .ok s) : (w.setPhase i phase).Bound parseDate := by
  intro c hc s hs
  obtain ⟨j, hj⟩ := getElem?_of_mem hc
  rw [World.setPhase, getElem?_modify] at hj
  cases hcj : w.calls[j]? with
  | none => rw [hcj] at hj; cases hj
  | some c₀ =>
    rw [hcj] at hj
    by_cases hij : i = j
    · subst hij
      simp only [if_true, Option.map_eq_map, Option.map_some, Option.some.injEq] at hj
      subst hj
      exact hp c₀ hcj s hs
    · simp only [hij, if_false, Option.map_eq_map, Option.map_some, Option.some.injEq] at hj
      subst hj
      exact h c₀ (mem_of_getElem? hcj) s hs

/-- What a step can do. -/
inductive Moves (parseDate : Text → Option Nat) (w : World) : Act → World → Prop
  | created {a : Act} (k : ApiKey) (keys : KeyTable) (h : keys.rows = k :: w.keys.rows) :
      Moves parseDate w a { w with keys }
  | requested {a : Act} (r : Request) :
      Moves parseDate w a { w with calls := w.calls ++ [⟨r, .found⟩] }
  | moved {a : Act} {i : Nat} {phase : Phase}
      (h : ∀ c, w.calls[i]? = some c → ∀ s, phase = .bound s →
        ∃ now, c.request.statement parseDate now = .ok s) :
      Moves parseDate w a (w.setPhase i phase)
  | executed {i : Nat} {r : Request} {s : Statement} (h : w.calls[i]? = some ⟨r, .bound s⟩) :
      Moves parseDate w (.execute i) { w.setPhase i (.applied s (s.affected w.keys)) with
        keys := s.execute w.keys }

/-- Every step is one of the moves. -/
theorem moves_of_step {a : Act} (h : (service parseDate).step a w = some w') :
    Moves parseDate w a w' := by
  cases a with
  | create id dto =>
    simp only [service, World.create] at h
    split at h
    next k _ =>
      obtain ⟨keys, hkeys, rfl⟩ := Option.map_eq_some_iff.1 h
      unfold KeyTable.insert at hkeys
      split at hkeys
      · cases hkeys
      · cases hkeys
        exact .created k _ rfl
    next => cases h
  | request r =>
    simp only [service, World.request] at h
    split at h
    · cases h
      exact .requested r
    · cases h
  | bind i now =>
    simp only [service, World.bind] at h
    split at h
    next r hc =>
      split at h
      next s hs =>
        cases h
        refine .moved fun c hc' s' hs' => ?_
        obtain rfl := Option.some.inj (hc.symm.trans hc')
        obtain rfl := Phase.bound.inj hs'
        exact ⟨now, hs⟩
      next =>
        cases h
        exact .moved fun _ _ _ hs => by cases hs
    next => cases h
  | execute i =>
    simp only [service, World.execute] at h
    split at h
    next hc =>
      cases h
      exact .executed hc
    next => cases h
  | settle i =>
    simp only [service, World.settle] at h
    split at h
    next =>
      cases h
      exact .moved fun _ _ _ hs => by cases hs
    next => cases h

theorem bound_step (a : Act) (w w' : World) (hb : w.Bound parseDate)
    (h : (service parseDate).step a w = some w') :
    w'.Bound parseDate := by
  cases moves_of_step h with
  | created => exact hb
  | requested r =>
    intro c hc s hs
    rcases mem_append.1 hc with hc | hc
    · exact hb c hc s hs
    · obtain rfl := mem_singleton.1 hc
      cases hs
  | moved hp => exact hb.setPhase hp
  | executed => exact hb.setPhase fun _ _ _ hs => by cases hs

/-- Every bound statement is its request's, in every run. -/
theorem bound_of_reach {keys : KeyTable} (hr : (service parseDate).Reach (.start keys) w) :
    w.Bound parseDate := by
  apply hr.invariant
  · intro c hc
    cases hc
  · exact bound_step

-- ======== the horizon

/-- The clock reading a step judges expiry by, if it judges it. -/
def World.guardNow (w : World) : Act → Option Nat
  | .execute i =>
    match w.calls[i]? with
    | some { phase := .bound s, .. } => s.guard.map (·.guardNow)
    | _ => none
  | _ => none

/-- One step leaves every usable admin covered, at every instant from
its clock reading on. -/
theorem step_covers {a : Act} (hb : w.Bound parseDate) (h : (service parseDate).step a w = some w')
    (hgt : ∀ g ∈ w.guardNow a, g ≤ t) : Covers t w.keys w'.keys := by
  cases moves_of_step h with
  | created new keys hkeys =>
    intro k hk husable
    exact ⟨k, hkeys ▸ mem_cons_of_mem _ hk, husable, le_rfl⟩
  | requested | moved => exact fun k hk husable => ⟨k, hk, husable, le_rfl⟩
  | @executed i r s hc =>
    obtain ⟨now, hs⟩ := hb _ (mem_of_getElem? hc) s rfl
    apply (Request.statement_lawful hs).covers
    intro g hg
    apply hgt
    simp only [World.guardNow, hc]
    exact Option.mem_map_of_mem _ hg

/-- Some usable admin never expires. -/
def KeyTable.hasLastingAdmin (keys : KeyTable) : Prop :=
  ∃ k ∈ keys.rows, usableAdminCondition 0 k = true ∧ k.expiresAt = none

theorem hasLastingAdmin_of_covers {keys keys' : KeyTable} (h : Covers t keys keys')
    (hk : keys.hasLastingAdmin) : keys'.hasLastingAdmin := by
  obtain ⟨k, hmem, husable, hexp⟩ := hk
  have htop : k.expiry = ⊤ := by rw [ApiKey.expiry, hexp]; rfl
  have husable' : usableAdminCondition t k = true := by
    rw [usableAdminCondition_iff] at husable ⊢
    exact ⟨husable.1, husable.2.1, htop ▸ ENat.natCast_lt_top t, husable.2.2.2⟩
  obtain ⟨k', hmem', hk', hle⟩ := h k hmem husable'
  refine ⟨k', hmem', usableAdminCondition_of_le (Nat.zero_le t) hk', ?_⟩
  rw [htop, top_le_iff] at hle
  unfold ApiKey.expiry at hle
  cases hx : k'.expiresAt with
  | none => rfl
  | some e =>
    rw [hx] at hle
    exact absurd hle (ENat.natCast_ne_top e)

/-- A usable admin that never expires always has a successor. -/
theorem hasLastingAdmin_of_reach (hb : w.Bound parseDate) (hr : (service parseDate).Reach w w')
    (h : w.keys.hasLastingAdmin) : w'.keys.hasLastingAdmin := by
  have hinv : w'.Bound parseDate ∧ w'.keys.hasLastingAdmin := by
    apply hr.invariant (P := fun w => w.Bound parseDate ∧ w.keys.hasLastingAdmin) ⟨hb, h⟩
    intro a v v' hv hstep
    -- the reading of this step's own clock will do
    have hcov : Covers ((v.guardNow a).getD 0) v.keys v'.keys := by
      apply step_covers hv.1 hstep
      intro g hg
      rw [Option.mem_def.1 hg]
      exact le_rfl
    exact ⟨bound_step a v v' hv.1 hstep, hasLastingAdmin_of_covers hcov hv.2⟩
  exact hinv.2

-- ======== every run

/-- Call `i` is about to run a removal of the key `id`, built at a clock
reading no later than `t`. -/
def World.PendingRemoval (w : World) (i : Nat) (id : Text) (t : Nat) :
    Prop :=
  ∃ r s, w.calls[i]? = some ⟨r, .bound s⟩ ∧ r.removes = true ∧ r.id = id
    ∧ ∀ g ∈ s.guard, g.guardNow ≤ t

/-- How many rows call `i` touched, once its statement has run. -/
def World.affectedBy (w : World) (i : Nat) : Option Nat :=
  match w.calls[i]? with
  | some { phase := .applied _ affected, .. } => some affected
  | _ => none

/-- What running a pending removal does. -/
theorem execute_removal (hb : w.Bound parseDate) {id : Text} (hp : w.PendingRemoval i id t)
    (h : (service parseDate).step (.execute i) w = some w') :
    ∃ (s : Statement) (now : Nat), s.id = id
      ∧ s.guard = some ⟨now, none⟩ ∧ now ≤ t
      ∧ (∀ p, s.write = .update p → ∀ k t, usableAdminCondition t (p.apply k) = false)
      ∧ w'.keys = s.execute w.keys
      ∧ w'.affectedBy i = some (s.affected w.keys)
      ∧ ∀ j, i ≠ j → w'.calls[j]? = w.calls[j]? := by
  obtain ⟨r, s, hc, hrem, hid, hgt⟩ := hp
  obtain ⟨now, hs⟩ := hb _ (mem_of_getElem? hc) s rfl
  obtain ⟨hsid, hg, hwrite⟩ := Request.statement_of_removes hrem hs
  simp only [service, World.execute, hc] at h
  cases h
  refine ⟨s, now, hsid.trans hid, hg, hgt _ hg, hwrite, rfl, ?_, ?_⟩
  · simp [World.affectedBy, World.setPhase, hc]
  · intro j hij
    simp [World.setPhase, hij]

/-- A removal of the only usable admin is refused. -/
theorem removal_of_sole_refused (hb : w.Bound parseDate) {id : Text} (hp : w.PendingRemoval i id t)
    (hsole : w.keys.AdminsAre t [id]) (h : (service parseDate).step (.execute i) w = some w') :
    w'.affectedBy i = some 0 := by
  obtain ⟨s, now, hsid, hg, hgt, -, -, haff, -⟩ := execute_removal hb hp h
  rw [haff, affected_eq_zero_of_sole hg hgt (hsid ▸ hsole)]

/-- Of two removals of the last two usable admins, run one after the
other, one is refused. -/
theorem removals_of_last_two {w₁ w₂ : World} (hb : w.Bound parseDate) {j : Nat} {a b : Text}
    (hab : a ≠ b) (hi : w.PendingRemoval i a t) (hj : w.PendingRemoval j b t)
    (hadmins : w.keys.AdminsAre t [a, b]) (h₁ : (service parseDate).step (.execute i) w = some w₁)
    (h₂ : (service parseDate).step (.execute j) w₁ = some w₂) :
    w₁.affectedBy i = some 0 ∨ w₂.affectedBy j = some 0 := by
  obtain ⟨s, now, hsid, -, -, hwrite, hkeys, haff, hcalls⟩ := execute_removal hb hi h₁
  by_cases hzero : s.affected w.keys = 0
  · left
    rw [haff, hzero]
  · right
    have hij : i ≠ j := by
      intro hij
      obtain ⟨r, si, hci, -, hri, -⟩ := hi
      obtain ⟨r', sj, hcj, -, hrj, -⟩ := hj
      rw [hij, hcj] at hci
      obtain ⟨rfl, -⟩ : r' = r ∧ sj = si := by simpa using hci
      exact hab (hri.symm.trans hrj)
    have hj₁ : w₁.PendingRemoval j b t := by
      obtain ⟨r, sj, hcj, hrest⟩ := hj
      exact ⟨r, sj, (hcalls j hij).trans hcj, hrest⟩
    apply removal_of_sole_refused (bound_step _ _ _ hb h₁) hj₁ _ h₂
    rw [hkeys]
    exact adminsAre_of_removed hab hadmins hsid hwrite hzero

/-- The last usable admin key is never lost. In every run of the
service's statements, from any table and any number of calls:

- no step lowers the latest expiry over the usable admins, judged at the
  clock reading the step was built with or at any later instant;
- a usable admin that never expires, once there, always has a successor;
- a removal of the only usable admin is refused;
- of two removals of the last two usable admins, one is refused. -/
theorem last_admin_never_lost {keys : KeyTable} {w : World}
    (hr : (service parseDate).Reach (.start keys) w) :
    (∀ a w', (service parseDate).step a w = some w' →
      ∀ t, (∀ g ∈ w.guardNow a, g ≤ t) → w.keys.horizon t ≤ w'.keys.horizon t)
    ∧ (∀ w', (service parseDate).Reach w w' → w.keys.hasLastingAdmin → w'.keys.hasLastingAdmin)
    ∧ (∀ i id t w', w.PendingRemoval i id t → w.keys.AdminsAre t [id] →
      (service parseDate).step (.execute i) w = some w' → w'.affectedBy i = some 0)
    ∧ (∀ i j a b t w₁ w₂, a ≠ b →
      w.PendingRemoval i a t → w.PendingRemoval j b t →
      w.keys.AdminsAre t [a, b] →
      (service parseDate).step (.execute i) w = some w₁ →
      (service parseDate).step (.execute j) w₁ = some w₂ →
        w₁.affectedBy i = some 0 ∨ w₂.affectedBy j = some 0) := by
  have hb := bound_of_reach hr
  refine ⟨?_, ?_, ?_, ?_⟩
  · intro a w' h t hgt
    exact (step_covers hb h hgt).horizon_le
  · intro w' hr' h
    exact hasLastingAdmin_of_reach hb hr' h
  · intro i id t w' hp hsole h
    exact removal_of_sole_refused hb hp hsole h
  · intro i j a b t w₁ w₂ hab hi hj hadmins h₁ h₂
    exact removals_of_last_two hb hab hi hj hadmins h₁ h₂

/-- An admin key that never expires. -/
def lastingAdmin (id : Text) : ApiKey where
  id := id
  name := "admin".toList
  role := .admin
  allowedIps := none
  allowedSessions := none
  allowedChats := none
  isActive := true
  expiresAt := none

/-- Two such keys, and nothing else. -/
def twoAdmins : KeyTable where
  rows := [lastingAdmin "a".toList, lastingAdmin "b".toList]
  ids_nodup := by decide

theorem twoAdmins_adminsAre (t : Nat) : twoAdmins.AdminsAre t ["a".toList, "b".toList] := by
  intro id
  constructor
  · intro h
    obtain ⟨k, hk, -, rfl⟩ := h
    rcases mem_pair.1 hk with rfl | rfl
    · exact mem_pair.2 (.inl rfl)
    · exact mem_pair.2 (.inr rfl)
  · intro h
    rcases mem_pair.1 h with rfl | rfl
    · exact ⟨_, mem_pair.2 (.inl rfl), rfl, rfl⟩
    · exact ⟨_, mem_pair.2 (.inr rfl), rfl, rfl⟩

/-- Both about to be deleted, each by a call of its own. -/
def twoDeletes : World where
  keys := twoAdmins
  calls := [⟨.delete "a".toList, .bound (delete "a".toList 5)⟩,
    ⟨.delete "b".toList, .bound (delete "b".toList 5)⟩]

theorem twoDeletes_reach : (service fun _ => none).Reach (.start twoAdmins) twoDeletes := by
  have hrun : (service fun _ => none).run (.start twoAdmins)
      [.request (.delete "a".toList), .request (.delete "b".toList),
        .bind 0 5, .bind 1 5] = some twoDeletes := rfl
  exact Machine.reach_of_run hrun

/-- The first delete goes through, the second is refused, and the key
that is left never expires. -/
theorem last_admin_never_lost_two_deletes :
    ∃ w₁ w₂, (service fun _ => none).step (.execute 0) twoDeletes = some w₁
      ∧ (service fun _ => none).step (.execute 1) w₁ = some w₂
      ∧ w₁.affectedBy 0 = some 1
      ∧ w₂.affectedBy 1 = some 0
      ∧ w₂.keys.hasLastingAdmin := by
  obtain ⟨-, hlasting, -, htwo⟩ := last_admin_never_lost twoDeletes_reach
  refine ⟨_, _, rfl, rfl, rfl, ?_, ?_⟩
  · refine (htwo 0 1 "a".toList "b".toList 5 _ _ (by decide)
      ⟨_, _, rfl, rfl, rfl, ?_⟩ ⟨_, _, rfl, rfl, rfl, ?_⟩ ?_ rfl rfl).resolve_left ?_
    · rintro g ⟨⟩
      exact le_rfl
    · rintro g ⟨⟩
      exact le_rfl
    · exact twoAdmins_adminsAre 5
    · decide
  · exact hlasting _ (.step (.execute 1)
      (.step (.execute 0) .refl rfl) rfl) ⟨_, mem_cons_self, rfl, rfl⟩

end OpenWA.Auth

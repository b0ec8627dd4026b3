/-
What one statement does to the usable admin keys.

# The measure

`horizon keys t` is how long the usable admins of a table last: the
latest expiry among the keys that are usable admins at the instant `t`,
`⊤` if one of them never expires and `⊥` if there is none.

# The argument

Every statement the service issues is `Lawful`: it is guarded with no
exception, or it only pushes an expiry to the date its guard lets
through, or it is unguarded and takes nothing from the key. A lawful
statement run on ANY table leaves every usable admin covered by one that
lasts as long (`Lawful.covers`): the row itself if it was not selected
or only gained, and otherwise the witness of the guard's EXISTS — a row
with another id, which the same statement cannot touch. That the target
may itself be the witness of another statement does not matter: each
statement looks at the table it finds.

# Clocks

A guard judges expiry at `guardNow`, the reading its node took when it
built the statement. Coverage holds at that instant and at every later
one: a witness outlasts the target, so when the target is still usable
at `t`, the witness is too. If the clocks agree, `t` is the moment the
statement runs.
-/
import Mathlib.Data.ENat.Lattice
import Mathlib.Data.Finset.Lattice.Fold
import OpenWA.Auth.World

namespace OpenWA.Auth

-- ======== the horizon

/-- How long a key lasts. -/
def ApiKey.expiry (k : ApiKey) : ℕ∞ := k.expiresAt.elim ⊤ (↑)

/-- The usable admins at the instant `t`. -/
def KeyTable.usableAdmins (keys : KeyTable) (t : Nat) : List ApiKey :=
  keys.rows.filter (usableAdminCondition t)

/-- The latest expiry over the usable admins at `t`; `⊥` if there is
none. -/
noncomputable def KeyTable.horizon (keys : KeyTable) (t : Nat) : WithBot ℕ∞ :=
  (keys.usableAdmins t).toFinset.sup fun k => (k.expiry : WithBot ℕ∞)

/-- Every usable admin of `keys` at `t` has one in `keys'` that lasts as
long. -/
def Covers (t : Nat) (keys keys' : KeyTable) : Prop :=
  ∀ k ∈ keys.rows, usableAdminCondition t k = true →
    ∃ k' ∈ keys'.rows, usableAdminCondition t k' = true ∧ k.expiry ≤ k'.expiry

variable {t : Nat}

/-- Its admins last as long in a table that covers it. -/
theorem Covers.horizon_le {keys keys' : KeyTable} (h : Covers t keys keys') :
    keys.horizon t ≤ keys'.horizon t := by
  apply Finset.sup_le
  intro k hk
  rw [KeyTable.usableAdmins, List.mem_toFinset, List.mem_filter] at hk
  obtain ⟨k', hmem, husable, hle⟩ := h k hk.1 hk.2
  have hk' : k' ∈ (keys'.usableAdmins t).toFinset := by
    rw [KeyTable.usableAdmins, List.mem_toFinset, List.mem_filter]
    exact ⟨hmem, husable⟩
  calc (k.expiry : WithBot ℕ∞) ≤ (k'.expiry : WithBot ℕ∞) := WithBot.coe_le_coe.2 hle
    _ ≤ keys'.horizon t := Finset.le_sup (f := fun k => (k.expiry : WithBot ℕ∞)) hk'

-- ======== conditions in words

variable {k : ApiKey}

/-- What the guard takes for a usable admin. -/
theorem usableAdminCondition_iff :
    usableAdminCondition t k = true ↔
      k.role = .admin ∧ k.isActive = true ∧ (t : ℕ∞) < k.expiry
        ∧ unscoped k.allowedSessions = true
        ∧ unscoped k.allowedChats = true := by
  have hexp : (k.expiresAt.all (t < ·)) = true ↔ (t : ℕ∞) < k.expiry := by
    unfold ApiKey.expiry
    cases k.expiresAt with
    | none | some => simp
  unfold usableAdminCondition
  rw [Bool.and_eq_true, Bool.and_eq_true, Bool.and_eq_true,
    Bool.and_eq_true, hexp, decide_eq_true_eq]
  tauto

/-- A key usable at an instant was usable before it. -/
theorem usableAdminCondition_of_le {g : Nat} (hgt : g ≤ t)
    (h : usableAdminCondition t k = true) : usableAdminCondition g k = true := by
  rw [usableAdminCondition_iff] at h ⊢
  obtain ⟨hrole, hactive, hexp, hscopes⟩ := h
  exact ⟨hrole, hactive, lt_of_le_of_lt (Nat.cast_le.2 hgt) hexp, hscopes⟩

variable {other : ApiKey} {dto : UpdateApiKeyDto} {now : Nat}

theorem outlastsTarget_iff {target : ApiKey} :
    outlastsTarget other target = true ↔ target.expiry ≤ other.expiry := by
  unfold outlastsTarget ApiKey.expiry
  cases other.expiresAt with
  | none => simp
  | some o =>
    cases target.expiresAt with
    | none | some => simp

/-- A key that outlasts one usable at `t` is usable at `t`, if it ever
was. -/
theorem usableAdminCondition_of_outlasts {g : Nat}
    (hk : usableAdminCondition t k = true) (ho : usableAdminCondition g other = true)
    (hle : k.expiry ≤ other.expiry) : usableAdminCondition t other = true := by
  rw [usableAdminCondition_iff] at hk ho ⊢
  exact ⟨ho.1, ho.2.1, lt_of_lt_of_le hk.2.2.1 hle, ho.2.2.2⟩

/-- What the guard knows of a row that is a usable admin at an instant
not before its reading. -/
theorem lastAdminGuard_cases {g : Guard} {rows : List ApiKey} (hgt : g.guardNow ≤ t)
    (hk : usableAdminCondition t k = true) (h : lastAdminGuard g rows k = true) :
    (∃ e ∈ g.extendsTo, k.expiry ≤ e)
      ∨ ∃ other ∈ rows, other.id ≠ k.id
          ∧ usableAdminCondition t other = true
          ∧ k.expiry ≤ other.expiry := by
  unfold lastAdminGuard at h
  rw [Bool.or_eq_true, Bool.or_eq_true] at h
  obtain (hnot | hext) | hother := h
  · rw [usableAdminCondition_of_le hgt hk] at hnot
    cases hnot
  · left
    obtain ⟨e, he, hle⟩ := (Option.any_eq_true _ _).1 hext
    refine ⟨e, he, ?_⟩
    unfold ApiKey.expiry
    cases hexp : k.expiresAt with
    | none => rw [hexp] at hle; cases hle
    | some d =>
      rw [hexp] at hle
      simpa using hle
  · right
    obtain ⟨other, hmem, hcond⟩ := List.any_eq_true.1 hother
    rw [Bool.and_eq_true, Bool.and_eq_true, decide_eq_true_eq] at hcond
    have hle := outlastsTarget_iff.1 hcond.2
    exact ⟨other, hmem, hcond.1.1, usableAdminCondition_of_outlasts hk hcond.1.2 hle, hle⟩

-- ======== lawful statements

/-- A SET list that leaves an admin's role, state and scopes alone or
widens them. -/
structure Patch.KeepsAdmin (p : Patch) : Prop where
  role : p.role.all (· = .admin) = true
  isActive : p.isActive = none
  allowedSessions : p.allowedSessions.all unscoped = true
  allowedChats : p.allowedChats.all unscoped = true

/-- The statements the service issues. -/
inductive Lawful : Statement → Prop
  /-- Guarded with no exception: whatever it writes. -/
  | guarded (id : Text) (write : Write) (guardNow : Nat) : Lawful ⟨id, write, some ⟨guardNow, none⟩⟩
  /-- An expiry pushed to the date its guard lets through. -/
  | extending (id : Text) (p : Patch) (guardNow e : Nat) :
      p.KeepsAdmin → p.expiresAt = some (some e) → Lawful ⟨id, .update p, some ⟨guardNow, some e⟩⟩
  /-- Unguarded: nothing is taken, no expiry is set. -/
  | widening (id : Text) (p : Patch) :
      p.KeepsAdmin → p.expiresAt.all (· = none) = true → Lawful ⟨id, .update p, none⟩

/-- A usable admin is still one after a SET list that keeps admins, if it
lasts as long. -/
theorem Patch.KeepsAdmin.apply_usable {p : Patch} (hp : p.KeepsAdmin)
    (hk : usableAdminCondition t k = true) (hle : k.expiry ≤ (p.apply k).expiry) :
    usableAdminCondition t (p.apply k) = true := by
  rw [usableAdminCondition_iff] at hk ⊢
  obtain ⟨hrole, hactive, hexp, hsessions, hchats⟩ := hk
  have hgetD : ∀ (o : Option (Option Text)) (c : Option Text),
      o.all unscoped = true → unscoped c = true → unscoped (o.getD c) = true := by
    intro o c ho hc
    cases o with
    | none => exact hc
    | some d => exact ho
  refine ⟨?_, ?_, lt_of_lt_of_le hexp hle,
    hgetD _ _ hp.allowedSessions hsessions, hgetD _ _ hp.allowedChats hchats⟩
  · show p.role.getD k.role = .admin
    cases hr : p.role with
    | none => exact hrole
    | some r =>
      have := hp.role
      rw [hr] at this
      simpa using this
  · show p.isActive.getD k.isActive = true
    rw [hp.isActive]
    exact hactive

namespace Statement

variable {s : Statement} {keys : KeyTable} {k : ApiKey}

/-- A row the statement does not select is left as it is. -/
theorem mem_execute_of_not_selects (hk : k ∈ keys.rows)
    (h : s.selects keys.rows k = false) : k ∈ (s.execute keys).rows := by
  show k ∈ s.rowsAfter keys.rows
  unfold rowsAfter
  split
  · rw [List.mem_map]
    refine ⟨k, hk, ?_⟩
    rw [h]
    rfl
  · rw [List.mem_filter]
    exact ⟨hk, by rw [h]; rfl⟩

theorem not_selects_of_id_ne (h : k.id ≠ s.id) : s.selects keys.rows k = false := by
  simp [selects, h]

/-- Where the rows of the new table come from. -/
theorem exists_of_mem_execute (h : k ∈ (s.execute keys).rows) :
    (k ∈ keys.rows ∧ s.selects keys.rows k = false)
      ∨ ∃ patch k₀, s.write = .update patch ∧ k₀ ∈ keys.rows
          ∧ s.selects keys.rows k₀ = true ∧ k = patch.apply k₀ := by
  have h' : k ∈ s.rowsAfter keys.rows := h
  unfold rowsAfter at h'
  split at h'
  next patch hw =>
    obtain ⟨k₀, hk₀, rfl⟩ := List.mem_map.1 h'
    cases hs : s.selects keys.rows k₀ with
    | false => left; exact ⟨hk₀, hs⟩
    | true => right; exact ⟨patch, k₀, hw, hk₀, hs, rfl⟩
  next hw =>
    left
    obtain ⟨hmem, hs⟩ := List.mem_filter.1 h'
    exact ⟨hmem, by simpa using hs⟩

end Statement

variable {s : Statement}

/-- A lawful statement leaves every usable admin covered, at every
instant from its clock reading on. -/
theorem Lawful.covers (hs : Lawful s) (hgt : ∀ g ∈ s.guard, g.guardNow ≤ t)
    (keys : KeyTable) : Covers t keys (s.execute keys) := by
  intro k hk husable
  cases hsel : s.selects keys.rows k with
  | false =>
    exact ⟨k, Statement.mem_execute_of_not_selects hk hsel, husable, le_rfl⟩
  | true =>
    -- the witness of the guard has another id and stays
    have hother : ∀ other ∈ keys.rows, other.id ≠ k.id →
        usableAdminCondition t other = true → k.expiry ≤ other.expiry →
        ∃ k' ∈ (s.execute keys).rows, usableAdminCondition t k' = true ∧ k.expiry ≤ k'.expiry := by
      intro other hmem hid ho hle
      have hkid : k.id = s.id := by
        rw [Statement.selects, Bool.and_eq_true, decide_eq_true_eq] at hsel
        exact hsel.1
      exact ⟨other, Statement.mem_execute_of_not_selects hmem
        (Statement.not_selects_of_id_ne (hkid ▸ hid)), ho, hle⟩
    have hpatch : ∀ p : Patch, s.write = .update p → p.KeepsAdmin →
        k.expiry ≤ (p.apply k).expiry →
        ∃ k' ∈ (s.execute keys).rows, usableAdminCondition t k' = true ∧ k.expiry ≤ k'.expiry := by
      intro p hw hp hle
      refine ⟨p.apply k, ?_, hp.apply_usable husable hle, hle⟩
      show p.apply k ∈ s.rowsAfter keys.rows
      rw [Statement.rowsAfter, hw]
      exact List.mem_map.2 ⟨k, hk, by rw [hsel]; rfl⟩
    rw [Statement.selects, Bool.and_eq_true] at hsel
    cases hs with
    | guarded id write guardNow =>
      rcases lastAdminGuard_cases (hgt _ rfl) husable hsel.2 with
        hext | hwit
      · obtain ⟨e, he, -⟩ := hext
        cases he
      · obtain ⟨other, hmem, hid, ho, hle⟩ := hwit
        exact hother other hmem hid ho hle
    | extending id p guardNow e hp hexp =>
      rcases lastAdminGuard_cases (hgt _ rfl) husable hsel.2 with
        hext | hwit
      · obtain ⟨e', he, hle⟩ := hext
        obtain rfl : e = e' := Option.some.inj he
        apply hpatch p rfl hp
        show k.expiry ≤ (p.expiresAt.getD k.expiresAt).elim ⊤ (↑)
        rw [hexp]
        exact hle
      · obtain ⟨other, hmem, hid, ho, hle⟩ := hwit
        exact hother other hmem hid ho hle
    | widening id p hp hexp =>
      apply hpatch p rfl hp
      show k.expiry ≤ (p.expiresAt.getD k.expiresAt).elim ⊤ (↑)
      cases hx : p.expiresAt with
      | none => exact le_rfl
      | some d =>
        rw [hx] at hexp
        obtain rfl : d = none := by simpa using hexp
        exact le_top

-- ======== the service's statements

/-- A list that restricts nothing is stored as no scope. -/
theorem unscoped_simpleArray {list : Option (List Text)}
    (h : restricts list = false) : unscoped (simpleArray list) = true := by
  cases list with
  | none => rfl
  | some l =>
    cases l with
    | nil => rfl
    | cons e l => cases h

/-- An update that strips nothing keeps admins. -/
theorem patch_keepsAdmin (h : dto.stripsAdmin = false) (expiry : Option Nat) :
    (dto.patch expiry).KeepsAdmin := by
  rw [UpdateApiKeyDto.stripsAdmin, Bool.or_eq_false_iff, Bool.or_eq_false_iff] at h
  obtain ⟨⟨hrole, hsessions⟩, hchats⟩ := h
  refine ⟨?_, rfl, ?_, ?_⟩
  · show dto.role.toOption.all (· = .admin) = true
    cases hr : dto.role with
    | undefined => rfl
    | null => rw [hr] at hrole; cases hrole
    | value r =>
      rw [hr] at hrole
      cases r with
      | admin => rfl
      | operator | viewer => cases hrole
  · show Option.all unscoped (if dto.allowedSessions = .undefined then none else some _) = true
    split
    · rfl
    · exact unscoped_simpleArray hsessions
  · show Option.all unscoped (if dto.allowedChats = .undefined then none else some _) = true
    split
    · rfl
    · exact unscoped_simpleArray hchats

section Requests

variable {parseDate : Text → Option Nat}

/-- A date that was parsed came from a property that is there. -/
theorem ne_undefined_of_expiryOf {f : Field Text} {e : Nat}
    (h : expiryOf parseDate f = .ok (some e)) : f ≠ .undefined := by
  intro hf
  rw [hf] at h
  cases h

/-- Which statement an update issues. -/
theorem update_cases {id : Text} (h : Auth.update parseDate id dto now = .ok s) :
    ∃ expiry, expiryOf parseDate dto.expiresAt = .ok expiry
      ∧ s = ⟨id, .update (dto.patch expiry),
          if dto.stripsAdmin || expiry.isSome then
            some ⟨now, if dto.stripsAdmin then none else expiry⟩
          else none⟩ := by
  unfold Auth.update at h
  cases hx : expiryOf parseDate dto.expiresAt with
  | error e => rw [hx] at h; cases h
  | ok expiry =>
    rw [hx] at h
    refine ⟨expiry, rfl, ?_⟩
    by_cases hc : (dto.stripsAdmin || expiry.isSome) = true
    · simp only [bind, Except.bind, hc, if_true] at h
      rw [if_pos hc]
      exact (Except.ok.inj h).symm
    · simp only [bind, Except.bind, hc] at h
      rw [if_neg hc]
      exact (Except.ok.inj h).symm

/-- Every statement the service issues is lawful. -/
theorem Request.statement_lawful {r : Request}
    (h : r.statement parseDate now = .ok s) : Lawful s := by
  cases r with
  | delete id =>
    obtain rfl := Except.ok.inj h
    exact .guarded id .delete now
  | revoke id =>
    obtain rfl := Except.ok.inj h
    exact .guarded id _ now
  | update id dto =>
    obtain ⟨expiry, hx, rfl⟩ := update_cases h
    by_cases hstrip : dto.stripsAdmin = true
    · rw [hstrip]
      exact .guarded id _ now
    · have hstrip := Bool.eq_false_of_not_eq_true hstrip
      have hkeeps := patch_keepsAdmin hstrip expiry
      rw [hstrip]
      cases expiry with
      | some e =>
        apply Lawful.extending id _ now e hkeeps
        show (if dto.expiresAt = .undefined then none else some (some e)) = some (some e)
        rw [if_neg (ne_undefined_of_expiryOf hx)]
      | none =>
        apply Lawful.widening id _ hkeeps
        show Option.all (· = none) (if dto.expiresAt = .undefined then none else some none) = true
        split <;> rfl

end Requests

end OpenWA.Auth

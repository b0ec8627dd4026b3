/-
Removals: the requests that take a key out of the usable admins.

# What is shown

A removal is guarded with no exception and leaves no usable admin where
it applies (`Request.statement_of_removes`) — for a scope, because
entries that are not blank are stored as a text that is not blank, which
the guard of the next statement reads as a scope. Hence a removal whose
target is the only usable admin touches nothing, and one that did touch
its target leaves one admin fewer.
-/
import OpenWA.Auth.Proofs.Guard

namespace OpenWA.Auth

open List

variable {parseDate : Text → Option Nat}

-- ======== the removals

/-- The request takes the key out of the usable admins: it deletes or
revokes it, gives it another role or a scope. -/
def Request.removes : Request → Bool
  | .update _ dto =>
    dto.role = .value .operator || dto.role = .value .viewer
      || restricts (normalizeScopeList dto.allowedSessions.toOption)
      || restricts (Security.normalizeChatAllowList dto.allowedChats.toOption)
  | .delete _ => true
  | .revoke _ => true

variable {list : Option (List Text)}

/-- Entries that are not blank are stored as a text that is not. -/
theorem unscoped_simpleArray_eq_false (h : restricts list = true)
    (he : ∀ l ∈ list, ∀ e ∈ l, e ≠ []) :
    unscoped (simpleArray list) = false := by
  cases list with
  | none => cases h
  | some l =>
    cases l with
    | nil => cases h
    | cons e l =>
      have hne : intercalate [','] (e :: l) ≠ [] := by
        have hhead := he _ rfl e mem_cons_self
        cases l with
        | nil => simpa using hhead
        | cons e' l =>
          simp [hhead]
      simp [unscoped, simpleArray, hne]

theorem ne_nil_of_mem_normalizeScopeList {l : List Text} (hl : l ∈ normalizeScopeList list)
    {e : Text} (he : e ∈ l) : e ≠ [] := by
  unfold normalizeScopeList at hl
  split at hl
  · cases hl
  next l₀ =>
    simp only [Option.mem_def] at hl
    split at hl
    · cases hl
    · obtain rfl := Option.some.inj hl
      simpa using (mem_filter.1 he).2

theorem ne_nil_of_mem_normalizeChatAllowList {l : List Text}
    (hl : l ∈ Security.normalizeChatAllowList list) {e : Text} (he : e ∈ l) : e ≠ [] := by
  unfold Security.normalizeChatAllowList at hl
  split at hl
  · cases hl
  next l₀ =>
    simp only [Option.mem_def] at hl
    split at hl
    · cases hl
    · obtain rfl := Option.some.inj hl
      rw [mem_eraseDups] at he
      obtain ⟨e₀, he₀, rfl⟩ := mem_map.1 he
      have hne : e₀ ≠ [] := by simpa using (mem_filter.1 he₀).2
      unfold Security.qualify
      split
      · simp [hne]
      · exact hne

/-- No row an update of this kind writes is a usable admin. -/
theorem patch_not_usable {id : Text} {dto : UpdateApiKeyDto}
    (h : (Request.update id dto).removes = true) (expiry : Option Nat)
    (k : ApiKey) (t : Nat) : usableAdminCondition t ((dto.patch expiry).apply k) = false := by
  apply Bool.eq_false_of_not_eq_true
  intro husable
  rw [usableAdminCondition_iff] at husable
  obtain ⟨hrole, -, -, hsessions, hchats⟩ := husable
  rw [Request.removes, Bool.or_eq_true, Bool.or_eq_true, Bool.or_eq_true,
    decide_eq_true_eq, decide_eq_true_eq] at h
  have hrole : dto.role.toOption.getD k.role = .admin := hrole
  obtain ((hr | hr) | hs) | hc := h
  · rw [hr] at hrole; cases hrole
  · rw [hr] at hrole; cases hrole
  · have hne : dto.allowedSessions ≠ .undefined := by
      intro hu
      rw [hu] at hs
      cases hs
    change unscoped (Option.getD (if dto.allowedSessions = .undefined
      then none else some _) _) = true at hsessions
    rw [if_neg hne, Option.getD_some, unscoped_simpleArray_eq_false hs
      fun l hl e he => ne_nil_of_mem_normalizeScopeList hl he] at hsessions
    cases hsessions
  · have hne : dto.allowedChats ≠ .undefined := by
      intro hu
      rw [hu] at hc
      cases hc
    change unscoped (Option.getD (if dto.allowedChats = .undefined
      then none else some _) _) = true at hchats
    rw [if_neg hne, Option.getD_some, unscoped_simpleArray_eq_false hc
      fun l hl e he => ne_nil_of_mem_normalizeChatAllowList hl he] at hchats
    cases hchats

/-- A removal is guarded with no exception, and what it selects is no
usable admin afterwards. -/
theorem Request.statement_of_removes {r : Request} {now : Nat}
    {s : Statement} (hr : r.removes = true)
    (h : r.statement parseDate now = .ok s) :
    s.id = r.id ∧ s.guard = some ⟨now, none⟩
      ∧ ∀ p, s.write = .update p → ∀ k t, usableAdminCondition t (p.apply k) = false := by
  cases r with
  | delete id =>
    obtain rfl := Except.ok.inj h
    exact ⟨rfl, rfl, fun p hp => by cases hp⟩
  | revoke id =>
    obtain rfl := Except.ok.inj h
    refine ⟨rfl, rfl, fun p hp k t => ?_⟩
    obtain rfl := Write.update.inj hp
    simp [usableAdminCondition, Patch.apply]
  | update id dto =>
    obtain ⟨expiry, -, rfl⟩ := update_cases h
    have hstrip : dto.stripsAdmin = true := by
      simp only [Request.removes, Bool.or_eq_true, decide_eq_true_eq] at hr
      simp only [UpdateApiKeyDto.stripsAdmin, Bool.or_eq_true]
      obtain ((h | h) | h) | h := hr
      · rw [h]; exact .inl (.inl rfl)
      · rw [h]; exact .inl (.inl rfl)
      · exact .inl (.inr h)
      · exact .inr h
    refine ⟨rfl, by rw [hstrip]; rfl, fun p hp k t => ?_⟩
    obtain rfl := Write.update.inj hp
    exact patch_not_usable hr expiry k t

-- ======== the effect

/-- The usable admins at `t` are the keys with these ids. -/
def KeyTable.AdminsAre (keys : KeyTable) (t : Nat) (ids : List Text) :
    Prop :=
  ∀ id, (∃ k ∈ keys.rows, usableAdminCondition t k = true ∧ k.id = id) ↔ id ∈ ids

section Effect

variable {s : Statement} {keys : KeyTable} {now t : Nat}

/-- `id` is the primary key. -/
theorem KeyTable.eq_of_id_eq {k k' : ApiKey} (hk : k ∈ keys.rows)
    (hk' : k' ∈ keys.rows) (hid : k.id = k'.id) : k = k' :=
  inj_on_of_nodup_map keys.ids_nodup hk hk' hid

/-- A removal of the only usable admin touches nothing. -/
theorem affected_eq_zero_of_sole (hg : s.guard = some ⟨now, none⟩)
    (hgt : now ≤ t) (hsole : keys.AdminsAre t [s.id]) : s.affected keys = 0 := by
  obtain ⟨target, htarget, husable, hid⟩ := (hsole s.id).2 mem_cons_self
  apply countP_eq_zero.2
  intro k hk hsel
  rw [Statement.selects, Bool.and_eq_true, decide_eq_true_eq, hg] at hsel
  obtain rfl := KeyTable.eq_of_id_eq hk htarget (hsel.1.trans hid.symm)
  rcases lastAdminGuard_cases hgt husable hsel.2 with hext | hwit
  · obtain ⟨e, he, -⟩ := hext
    cases he
  · obtain ⟨other, hother, hne, ho, -⟩ := hwit
    have hmem := (hsole other.id).1 ⟨other, hother, ho, rfl⟩
    exact hne ((mem_singleton.1 hmem).trans hid.symm)

/-- A removal that touched one of two usable admins leaves the other. -/
theorem adminsAre_of_removed {a b : Text} (hab : a ≠ b)
    (hadmins : keys.AdminsAre t [a, b]) (hid : s.id = a)
    (hwrite : ∀ p, s.write = .update p → ∀ k t, usableAdminCondition t (p.apply k) = false)
    (haff : s.affected keys ≠ 0) : (s.execute keys).AdminsAre t [b] := by
  -- the row that was touched is the row of `a`
  obtain ⟨ka, hka, hsel⟩ := countP_pos_iff.1 (Nat.pos_of_ne_zero haff)
  have hkaid : ka.id = a := by
    rw [Statement.selects, Bool.and_eq_true, decide_eq_true_eq] at hsel
    exact hsel.1.trans hid
  intro id
  rw [mem_singleton]
  constructor
  · intro h
    obtain ⟨k, hk, husable, rfl⟩ := h
    rcases Statement.exists_of_mem_execute hk with ⟨hk, hnot⟩ | hpatched
    · have hmem := (hadmins k.id).1 ⟨k, hk, husable, rfl⟩
      rw [mem_pair] at hmem
      rcases hmem with hka' | hkb
      · obtain rfl := KeyTable.eq_of_id_eq hk hka (hka'.trans hkaid.symm)
        rw [hsel] at hnot
        cases hnot
      · exact hkb
    · obtain ⟨p, k₀, hp, -, -, rfl⟩ := hpatched
      rw [hwrite p hp] at husable
      cases husable
  · intro h
    obtain ⟨k, hk, husable, hkid⟩ := (hadmins b).2 (mem_pair.2 (.inr rfl))
    have hne : k.id ≠ s.id := by
      rw [hkid, hid]
      exact hab.symm
    exact ⟨k, Statement.mem_execute_of_not_selects hk
      (Statement.not_selects_of_id_ne hne), husable, hkid.trans h.symm⟩

end Effect

end OpenWA.Auth

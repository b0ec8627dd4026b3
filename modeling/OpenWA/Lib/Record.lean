/-
Records with ordered keys: JavaScript objects as the JSON columns hold
them, with the spread `{ ...a, ...b }` that every writer builds its new
value from, and the `Map`s of the services with `set`, `delete` and
`size`.

# What is modelled

A record keeps its keys in the order they were first set and holds each
key once. Spreading `b` over `a` keeps `a`'s order, takes `b`'s value for
a key both have and puts `b`'s own keys behind. Two records are equal
exactly when they serialise to the same text, so a compare-and-swap on
the serialised column is a comparison of records.
-/
import Mathlib.Data.List.Nodup

namespace OpenWA

open List

/-- An object: its entries in order, no key twice. -/
structure Record (κ V : Type*) where
  entries : List (κ × V)
  nodup : (entries.map Prod.fst).Nodup
deriving DecidableEq

namespace Record

variable {κ V : Type*} [DecidableEq κ]

/-- The value under a key. -/
def get (r : Record κ V) (k : κ) : Option V := r.entries.lookup k

/-- `{}`. -/
def empty : Record κ V := ⟨[], nodup_nil⟩

/-- `{ k: v }`. -/
def single (k : κ) (v : V) : Record κ V := ⟨[(k, v)], nodup_singleton k⟩

/-- The entries of `a` with the values `b` has for their keys. -/
def overridden (a b : Record κ V) : List (κ × V) :=
  a.entries.map fun e => (e.1, (b.get e.1).getD e.2)

/-- The entries of `b` under keys `a` does not have. -/
def fresh (a b : Record κ V) : List (κ × V) := b.entries.filter fun e => (a.get e.1).isNone

-- ======== the lookups

variable {r : Record κ V} {k : κ}

theorem get_isSome_of_mem (h : k ∈ r.entries.map Prod.fst) : (r.get k).isSome = true := by
  obtain ⟨e, he, hk⟩ := mem_map.1 h
  apply lookup_isSome_iff.2
  exact ⟨e, he, beq_iff_eq.2 hk.symm⟩

theorem keys_overridden (a b : Record κ V) :
    (overridden a b).map Prod.fst = a.entries.map Prod.fst := by
  unfold overridden
  rw [map_map]
  rfl

theorem nodup_spread (a b : Record κ V) : ((overridden a b ++ fresh a b).map Prod.fst).Nodup := by
  rw [map_append, keys_overridden]
  have hfresh : ((fresh a b).map Prod.fst).Nodup := by
    exact List.Nodup.sublist (filter_sublist.map Prod.fst) b.nodup
  apply List.Nodup.append a.nodup hfresh
  intro k ha hb
  obtain ⟨e, he, rfl⟩ := mem_map.1 hb
  have hnone := (mem_filter.1 he).2
  rw [Option.isNone_iff_eq_none] at hnone
  have hsome := get_isSome_of_mem ha
  rw [hnone] at hsome
  cases hsome

/-- `{ ...a, ...b }`. -/
def spread (a b : Record κ V) : Record κ V := ⟨overridden a b ++ fresh a b, nodup_spread a b⟩

theorem lookup_cons_of_ne {k' : κ} (v : V) (l : List (κ × V))
    (h : k ≠ k') : ((k', v) :: l).lookup k = l.lookup k := by
  rw [lookup_cons, beq_eq_false_iff_ne.2 h]

/-- The lookup, one entry at a time. -/
theorem lookup_cons_eq_ite (k k' : κ) (v : V) (l : List (κ × V)) :
    ((k', v) :: l).lookup k = if k = k' then some v else l.lookup k := by
  by_cases h : k = k'
  · rw [if_pos h, h, lookup_cons_self]
  · rw [if_neg h, lookup_cons_of_ne v l h]

theorem get_of_notMem (h : k ∉ r.entries.map Prod.fst) : r.get k = none := by
  cases hv : r.get k with
  | none => rfl
  | some v =>
    obtain ⟨e, he, hke⟩ := lookup_isSome_iff.mp (Option.isSome_of_eq_some hv)
    rw [eq_of_beq hke] at h
    exact absurd (mem_map_of_mem he) h

/-- Mapping values by key commutes with the lookup. -/
theorem lookup_map_snd (f : κ → V → V) (l : List (κ × V)) (k : κ) :
    (l.map fun e => (e.1, f e.1 e.2)).lookup k = (l.lookup k).map (f k) := by
  induction l with
  | nil => rfl
  | cons e l ih =>
    obtain ⟨k', v⟩ := e
    rw [map_cons]
    by_cases h : k = k'
    · subst h
      rw [lookup_cons_self, lookup_cons_self]
      rfl
    · rw [lookup_cons_of_ne _ _ h, lookup_cons_of_ne _ _ h, ih]

/-- Filtering by key keeps or drops a lookup as a whole. -/
theorem lookup_filter_fst (p : κ → Bool) (l : List (κ × V)) (k : κ) :
    (l.filter fun e => p e.1).lookup k = if p k then l.lookup k else none := by
  induction l with
  | nil => cases p k <;> rfl
  | cons e l ih =>
    obtain ⟨k', v⟩ := e
    rw [filter_cons]
    by_cases h : k = k'
    · subst h
      by_cases hp : p k = true
      · rw [if_pos hp, if_pos hp, lookup_cons_self, lookup_cons_self]
      · rw [if_neg hp, ih, if_neg hp, if_neg hp]
    · rw [lookup_cons_of_ne v l h, ← ih]
      by_cases hp : p k' = true
      · rw [if_pos hp, lookup_cons_of_ne _ _ h]
      · rw [if_neg hp]

/-- The spread reads `b` first. -/
@[simp] theorem get_spread (a b : Record κ V) (k : κ) :
    (spread a b).get k = (b.get k).or (a.get k) := by
  have ha : (overridden a b).lookup k = (a.get k).map fun v => (b.get k).getD v :=
    lookup_map_snd (fun k v => (b.get k).getD v) a.entries k
  have hb : (fresh a b).lookup k = if (a.get k).isNone then b.get k else none :=
    lookup_filter_fst (fun k => (a.get k).isNone) b.entries k
  show (overridden a b ++ fresh a b).lookup k = _
  rw [lookup_append, ha, hb]
  cases a.get k <;> cases b.get k <;> rfl

@[simp] theorem get_empty (k : κ) : (empty : Record κ V).get k = none := rfl

@[simp] theorem get_single_self (k : κ) (v : V) : (single k v).get k = some v := by
  show lookup k [(k, v)] = _
  rw [lookup_cons_self]

theorem get_single_of_ne {k' : κ} (v : V) (h : k ≠ k') : (single k' v).get k = none := by
  exact lookup_cons_of_ne v [] h

-- ======== updates

/-- `map.set(k, v)`: a key that is there keeps its place. -/
def set (r : Record κ V) (k : κ) (v : V) : Record κ V := spread r (single k v)

/-- `map.delete(k)`. -/
def delete (r : Record κ V) (k : κ) : Record κ V :=
  ⟨r.entries.filter fun e => e.1 ≠ k, r.nodup.sublist (filter_sublist.map Prod.fst)⟩

/-- `map.size`. -/
def size (r : Record κ V) : Nat := r.entries.length

@[simp] theorem get_set_self (r : Record κ V) (k : κ) (v : V) : (r.set k v).get k = some v := by
  unfold set
  rw [get_spread, get_single_self]
  rfl

theorem get_set_of_ne (r : Record κ V) {k' : κ} (v : V) (h : k ≠ k') :
    (r.set k' v).get k = r.get k := by
  unfold set
  rw [get_spread, get_single_of_ne v h]
  rfl

@[simp] theorem get_delete_self (r : Record κ V) (k : κ) : (r.delete k).get k = none := by
  have hget := lookup_filter_fst (fun k' => decide (k' ≠ k)) r.entries k
  rw [if_neg (by simp)] at hget
  exact hget

theorem get_delete_of_ne (r : Record κ V) {k' : κ} (h : k ≠ k') :
    (r.delete k').get k = r.get k := by
  have hget := lookup_filter_fst (fun k => decide (k ≠ k')) r.entries k
  rw [if_pos (by simp [h])] at hget
  exact hget

variable {l : List (κ × V)} {v : V}

/-- A first key that is deleted leaves the rest. -/
theorem entries_delete_head (h : r.entries = (k, v) :: l) : (r.delete k).entries = l := by
  have hnodup := r.nodup
  rw [h, map_cons, nodup_cons] at hnodup
  show r.entries.filter (fun e => e.1 ≠ k) = l
  rw [h, filter_cons_of_neg (by simp), filter_eq_self]
  intro e he
  have hne : e.1 ≠ k := by
    intro hek
    exact hnodup.1 (mem_map.mpr ⟨e, he, hek⟩)
  exact decide_eq_true hne

/-- A key that is not there is set behind the others. -/
theorem entries_set_of_get_none (v : V)
    (h : r.get k = none) : (r.set k v).entries = r.entries ++ [(k, v)] := by
  have hover : overridden r (single k v) = r.entries := by
    refine (map_congr_left ?_).trans (map_id r.entries)
    intro e he
    have hne : e.1 ≠ k := by
      intro hek
      have hsome := get_isSome_of_mem (r := r) (mem_map_of_mem he)
      rw [hek, h] at hsome
      cases hsome
    rw [get_single_of_ne v hne]
    rfl
  have hfresh : fresh r (single k v) = [(k, v)] := by
    refine filter_eq_self.mpr ?_
    intro e he
    rw [mem_singleton.mp he, h]
    rfl
  show overridden r (single k v) ++ fresh r (single k v) = _
  rw [hover, hfresh]

/-- The keys that are there stay, in their places. -/
theorem keys_set (r : Record κ V) (k : κ) (v : V) :
    ∃ l, (r.set k v).entries.map Prod.fst = r.entries.map Prod.fst ++ l := by
  refine ⟨(fresh r (single k v)).map Prod.fst, ?_⟩
  show (overridden r (single k v) ++ fresh r (single k v)).map Prod.fst = _
  rw [map_append, keys_overridden]

/-- Setting a key that is there adds none. -/
theorem keys_set_of_get (v : V) (h : (r.get k).isSome = true) :
    (r.set k v).entries.map Prod.fst = r.entries.map Prod.fst := by
  have hfresh : fresh r (single k v) = [] := by
    refine filter_eq_nil_iff.mpr fun e he => ?_
    rw [mem_singleton.mp he, Option.isNone_eq_false_iff.mpr h]
    exact Bool.false_ne_true
  show (overridden r (single k v) ++ fresh r (single k v)).map Prod.fst = _
  rw [hfresh, append_nil, keys_overridden]

theorem lookup_of_mem (hnodup : (l.map Prod.fst).Nodup) (h : (k, v) ∈ l) : l.lookup k = some v := by
  induction l with
  | nil => cases h
  | cons e l ih =>
    obtain ⟨k', v'⟩ := e
    rw [map_cons, nodup_cons] at hnodup
    rw [lookup_cons_eq_ite]
    rcases mem_cons.mp h with hhead | htail
    · injection hhead with hk hv
      rw [if_pos hk, hv]
    · have hne : k ≠ k' := by
        intro hk
        exact hnodup.1 (mem_map.mpr ⟨(k, v), htail, hk⟩)
      rw [if_neg hne]
      exact ih hnodup.2 htail

/-- An entry is what its key gets. -/
theorem get_of_mem (h : (k, v) ∈ r.entries) : r.get k = some v := lookup_of_mem r.nodup h

theorem mem_of_get (h : r.get k = some v) : (k, v) ∈ r.entries := by
  obtain ⟨l₁, l₂, hl, -⟩ := lookup_eq_some_iff.mp h
  rw [hl]
  simp

theorem size_delete_le (r : Record κ V) (k : κ) : (r.delete k).size ≤ r.size := length_filter_le _ _

theorem size_set (r : Record κ V) (k : κ) (v : V) :
    (r.set k v).size = r.size + if (r.get k).isNone then 1 else 0 := by
  have hfresh : (fresh r (single k v)).length = if (r.get k).isNone then 1 else 0 := by
    cases hk : r.get k <;> simp [fresh, single, hk]
  show (overridden r (single k v) ++ fresh r (single k v)).length = _
  rw [length_append, hfresh, overridden, length_map]
  rfl

/-- A record without a value is empty. -/
theorem size_eq_zero (r : Record κ V) (h : ∀ k, r.get k = none) : r.size = 0 := by
  unfold size
  cases hentries : r.entries with
  | nil => rfl
  | cons e l =>
    have hsome : (r.get e.1).isSome = true := by
      apply get_isSome_of_mem
      rw [hentries]
      exact mem_cons_self
    rw [h] at hsome
    cases hsome

end Record

end OpenWA

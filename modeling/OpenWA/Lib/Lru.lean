/-
Maps that forget: a record whose keys move behind the others when they are
touched and whose oldest keys go once there are too many.

# The rule

`Recent r k v ks`: the record holds `v` under `k`, and whatever was touched
later is in `ks`. A touch of `k` itself starts over with no other key;
a touch of another key adds it. As long as `ks` has fewer keys than the
limit, the eviction cannot reach `k`, however many calls there were and
whatever the record held before.
-/
import OpenWA.Lib.Record
import Mathlib.Data.Finset.Card

namespace OpenWA.Record

open List

variable {κ V : Type*} [DecidableEq κ]

-- ======== operations

/-- Sets a key and makes it the newest. -/
def touch (r : Record κ V) (k : κ) (v : V) : Record κ V := (r.delete k).set k v

/-- Drops the oldest entry until at most `limit` are left. -/
def dropOldest (limit : Nat) : List (κ × V) → List (κ × V)
  | [] => []
  | e :: l => if limit < (e :: l).length then dropOldest limit l else e :: l

omit [DecidableEq κ] in
theorem dropOldest_suffix (limit : Nat) (l : List (κ × V)) : dropOldest limit l <:+ l := by
  induction l with
  | nil => exact suffix_refl []
  | cons e l ih =>
    unfold dropOldest
    split
    · exact ih.trans (suffix_cons e l)
    · exact suffix_refl _

/-- Deletes the oldest keys of a record with more than `limit` of them. -/
def evict (r : Record κ V) (limit : Nat) : Record κ V :=
  ⟨dropOldest limit r.entries, r.nodup.sublist ((dropOldest_suffix limit _).sublist.map Prod.fst)⟩

-- ======== lookups

theorem entries_touch (r : Record κ V) (k : κ) (v : V) :
    (r.touch k v).entries = (r.entries.filter fun e => e.1 ≠ k) ++ [(k, v)] :=
  entries_set_of_get_none v (get_delete_self r k)

@[simp] theorem get_touch_self (r : Record κ V) (k : κ) (v : V) : (r.touch k v).get k = some v :=
  get_set_self (r.delete k) k v

variable {k : κ}

theorem get_touch_of_ne (r : Record κ V) {k' : κ} (v : V) (h : k ≠ k') :
    (r.touch k' v).get k = r.get k := by
  unfold touch
  rw [get_set_of_ne _ v h, get_delete_of_ne r h]

variable {v : V} {limit : Nat} {r : Record κ V}

/-- What an eviction leaves is what was there. -/
theorem get_of_get_evict (h : (r.evict limit).get k = some v) : r.get k = some v :=
  get_of_mem ((dropOldest_suffix limit _).subset (mem_of_get h))

-- ======== recency

/-- The record holds `v` under `k`, and the keys touched later are in `ks`. -/
def Recent (r : Record κ V) (k : κ) (v : V) (ks : Finset κ) : Prop :=
  ∃ older newer, r.entries = older ++ (k, v) :: newer ∧ ∀ e ∈ newer, e.1 ∈ ks

variable {ks : Finset κ}

theorem Recent.get (h : r.Recent k v ks) : r.get k = some v := by
  obtain ⟨older, newer, hentries, -⟩ := h
  refine get_of_mem ?_
  rw [hentries]
  simp

variable {e : κ × V}

omit [DecidableEq κ] in
/-- An entry with fewer than `limit` behind it stays. -/
theorem dropOldest_append {newer : List (κ × V)}
    (h : newer.length < limit) (older : List (κ × V)) :
    ∃ older', dropOldest limit (older ++ e :: newer) = older' ++ e :: newer := by
  induction older with
  | nil =>
    refine ⟨[], ?_⟩
    show dropOldest limit (e :: newer) = _
    unfold dropOldest
    rw [if_neg (by simp only [length_cons]; omega)]
    rfl
  | cons o older ih =>
    rw [cons_append]
    unfold dropOldest
    split
    · exact ih
    · exact ⟨o :: older, rfl⟩

/-- Behind an entry there are at most as many as there are keys for them. -/
theorem length_newer_le {older newer : List (κ × V)}
    (hentries : r.entries = older ++ e :: newer) (hnewer : ∀ e ∈ newer, e.1 ∈ ks) :
    newer.length ≤ ks.card := by
  have hsub : (newer.map Prod.fst).Sublist (r.entries.map Prod.fst) := by
    rw [hentries]
    exact ((sublist_cons_self e newer).trans (sublist_append_right _ _)).map Prod.fst
  have hcard := toFinset_card_of_nodup (r.nodup.sublist hsub)
  have hkeys : (newer.map Prod.fst).toFinset ⊆ ks := by
    intro k hk
    obtain ⟨e, he, rfl⟩ := mem_map.mp (mem_toFinset.mp hk)
    exact hnewer e he
  have hle := Finset.card_le_card hkeys
  rw [hcard, length_map] at hle
  exact hle

theorem Recent.evict
    (h : r.Recent k v ks) (hcard : ks.card < limit) : (r.evict limit).Recent k v ks := by
  obtain ⟨older, newer, hentries, hnewer⟩ := h
  have hlength := length_newer_le hentries hnewer
  obtain ⟨older', holder⟩ := dropOldest_append (e := (k, v)) (hlength.trans_lt hcard) older
  refine ⟨older', newer, ?_, hnewer⟩
  show dropOldest limit r.entries = _
  rw [hentries, holder]

theorem recent_touch_self (r : Record κ V) (k : κ) (v : V) : (r.touch k v).Recent k v ∅ :=
  ⟨_, [], entries_touch r k v, by simp⟩

theorem Recent.touch {k' : κ}
    (h : r.Recent k v ks) (hne : k ≠ k') (v' : V) : (r.touch k' v').Recent k v (insert k' ks) := by
  obtain ⟨older, newer, hentries, hnewer⟩ := h
  refine ⟨older.filter (fun e => e.1 ≠ k'), newer.filter (fun e => e.1 ≠ k') ++ [(k', v')], ?_, ?_⟩
  · rw [entries_touch, hentries]
    simp [hne]
  · intro e he
    rcases mem_append.mp he with he | he
    · exact Finset.mem_insert_of_mem (hnewer e (mem_filter.mp he).1)
    · rw [mem_singleton.mp he]
      exact Finset.mem_insert_self k' ks

end OpenWA.Record

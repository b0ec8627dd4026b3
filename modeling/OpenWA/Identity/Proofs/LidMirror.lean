/-
The mirror over one step: `index` puts its lid last, so the eviction that
follows never takes it, and apart from `index` and `reload` an entry either
stays as it is or goes.
-/
import OpenWA.Identity.Proofs.LidWrites

namespace OpenWA.Lid

open Function (update update_self update_of_ne)

-- ======== the entries

variable {lid x : Nat} {s : Store}

/-- The entry of a lid goes with its key, or is as it was. -/
theorem shrinks_delete (s : Store) (lid x : Nat) :
    (s.lidToPhone.delete x).get lid = none ∨ (s.lidToPhone.delete x).get lid = s.cached lid := by
  by_cases hx : lid = x
  · rw [hx]
    exact .inl (Record.get_delete_self _ _)
  · exact .inr (Record.get_delete_of_ne _ hx)

theorem get_place_of_ne (s : Store) (phone : Option Nat) (h : lid ≠ x) :
    (s.place x phone).get lid = s.cached lid := by
  unfold Store.place
  rw [Record.get_set_of_ne _ _ h, Record.get_delete_of_ne _ h]
  rfl

/-- Apart from its lid, `index` changes the sets of reporters. -/
theorem index_eq (s : Store) (lid : Nat) (phone session : Option Nat) (isReported : Bool) :
    ∃ reporters seen nextSeen, s.index lid phone session isReported = Store.evictIfOverCap { s with
      lidToPhone := s.place lid phone
      unreported := update s.unreported lid (!isReported)
      seenBy := update s.seenBy lid reporters
      seen := seen
      nextSeen := nextSeen
      absentFromTable := s.absentFromTable.filter (· ≠ lid) } := by
  unfold Store.index Store.reporters Store.count
  dsimp only
  repeat' split
  all_goals exact ⟨_, _, _, rfl⟩

theorem entries_evict (n : Nat) (s : Store) :
    (Store.evict n s).lidToPhone.entries = s.lidToPhone.entries.drop n := by
  induction n generalizing s with
  | zero => rfl
  | succ n ih =>
    have holdest : s.evictOldest.lidToPhone.entries = s.lidToPhone.entries.drop 1 := by
      unfold Store.evictOldest
      split
      next hnil => rw [hnil]; rfl
      next hentries => rw [hentries]; exact Record.entries_delete_head hentries
    rw [Store.evict, ih, holdest, List.drop_drop, Nat.add_comm]

theorem last_evictIfOverCap {e : Nat × Option Nat} {l : List (Nat × Option Nat)}
    (hs : s.lidToPhone.entries = l ++ [e]) : e ∈ s.evictIfOverCap.lidToPhone.entries := by
  unfold Store.evictIfOverCap
  split
  · rw [hs]
    exact List.mem_append_right l List.mem_cons_self
  · rw [entries_evict, Record.size, hs, List.length_append, List.length_singleton,
      List.drop_append_of_le_length (by omega)]
    exact List.mem_append_right _ List.mem_cons_self

/-- What was indexed is in the mirror, whatever the cap is. -/
theorem cached_index (s : Store) (lid : Nat) (phone session : Option Nat)
    (isReported : Bool) : (s.index lid phone session isReported).cached lid = some phone := by
  have hentries : (s.place lid phone).entries
      = (s.lidToPhone.delete lid).entries ++ [(lid, phone)] :=
    Record.entries_set_of_get_none phone (Record.get_delete_self _ _)
  exact Record.get_of_mem (last_evictIfOverCap hentries)

/-- A hit is moved, not changed. -/
theorem get_place_hit (s : Store) {phone : Option Nat} (h : s.cached x = some phone) (lid : Nat) :
    (s.place x phone).get lid = s.cached lid := by
  by_cases hx : lid = x
  · rw [hx, h]
    exact Record.get_set_self _ x phone
  · exact get_place_of_ne s phone hx

theorem lidToPhone_endWrite (s : Store) (lid ref : Nat) :
    (s.endWrite lid ref).lidToPhone = s.lidToPhone := by
  unfold Store.endWrite
  dsimp only
  repeat' split
  all_goals rfl

theorem lidToPhone_noteAbsent (s : Store) (lid : Nat) :
    (s.noteAbsent lid).lidToPhone = s.lidToPhone := by
  unfold Store.noteAbsent
  split <;> rfl

/-- A report counted before names the phone the mirror has. -/
theorem cached_of_seen {w : World} {phone session : Option Nat}
    (h : w.seen lid phone session = true) : w.store.cached lid = some phone := by
  unfold World.seen at h
  rw [Bool.and_eq_true, Bool.and_eq_true] at h
  exact of_decide_eq_true h.1.2

-- ======== the marks and the cap

/-- Every mark is of a lid in the mirror. -/
def Store.Marked (s : Store) : Prop :=
  ∀ lid, s.unreported lid = true ∨ (s.seenBy lid).isSome = true ∨ s.failedWrites lid = true →
    (s.cached lid).isSome = true

/-- The mirror holds the marked lids, and no more than its cap. -/
structure Store.Sound (cap : Nat) (s : Store) : Prop where
  marks : s.Marked
  cap_eq : s.maxCachedLids = cap
  size_le : 0 < cap → s.lidToPhone.size ≤ cap

theorem Store.Marked.delete (h : s.Marked) (lid : Nat) (writing : Nat → Writing)
    (absent : List Nat) : Store.Marked { s with
      lidToPhone := s.lidToPhone.delete lid
      unreported := update s.unreported lid false
      seenBy := update s.seenBy lid none
      failedWrites := update s.failedWrites lid false
      writing := writing
      absentFromTable := absent } := by
  intro x hx
  by_cases hxl : x = lid
  · simp [hxl] at hx
  · simp only [update_of_ne hxl] at hx
    change ((s.lidToPhone.delete lid).get x).isSome = true
    rw [Record.get_delete_of_ne _ hxl]
    exact h x hx

theorem marked_evictOldest (s : Store) (h : s.Marked) : s.evictOldest.Marked := by
  unfold Store.evictOldest
  split
  · exact h
  · exact h.delete _ _ _

/-- The eviction ends at the cap. -/
theorem size_evictIfOverCap (s : Store) (h : 0 < s.maxCachedLids) :
    s.evictIfOverCap.lidToPhone.size ≤ s.maxCachedLids := by
  unfold Store.evictIfOverCap Record.size
  rw [if_neg (Nat.ne_of_gt h), entries_evict, List.length_drop]
  omega

theorem sound_evictIfOverCap {cap : Nat} (h : s.Marked) (hcap : s.maxCachedLids = cap) :
    s.evictIfOverCap.Sound cap := by
  have hevict : s.evictIfOverCap.maxCachedLids = s.maxCachedLids :=
    evictIfOverCap_of (R := fun s s' => s'.maxCachedLids = s.maxCachedLids) (fun _ => rfl)
      (fun h h' => h'.trans h) (fun s => by unfold Store.evictOldest; split <;> rfl) s
  refine ⟨?_, hevict.trans hcap, fun hpos => ?_⟩
  · exact evictIfOverCap_of (R := fun s s' => s.Marked → s'.Marked) (fun _ => id)
      (fun h h' => h' ∘ h) marked_evictOldest s h
  · rw [← hcap] at hpos ⊢
    exact size_evictIfOverCap s hpos

/-- Indexing keeps the mirror marked and under its cap. -/
theorem sound_index {cap : Nat} (s : Store) (lid : Nat) (phone session : Option Nat)
    (isReported : Bool) (h : s.Sound cap) : (s.index lid phone session isReported).Sound cap := by
  obtain ⟨reporters, seen, nextSeen, hindex⟩ := index_eq s lid phone session isReported
  rw [hindex]
  refine sound_evictIfOverCap ?_ h.cap_eq
  intro x hx
  change ((s.place lid phone).get x).isSome = true
  by_cases hxl : x = lid
  · rw [hxl, Store.place, Record.get_set_self]
    rfl
  · rw [get_place_of_ne s phone hxl]
    dsimp only at hx
    rw [update_of_ne hxl, update_of_ne hxl] at hx
    exact h.marks x hx

theorem sound_drop {cap : Nat} (s : Store) (lid : Nat) (h : s.Sound cap) : (s.drop lid).Sound cap :=
  ⟨h.marks.delete lid _ _, h.cap_eq, fun hpos => (Record.size_delete_le _ _).trans (h.size_le hpos)⟩

theorem sound_reloadWith {cap : Nat} (rows : List (Nat × Row)) (h : s.Sound cap) :
    (s.reloadWith rows).Sound cap := by
  refine index_rows_of (R := fun s s' => s.Sound cap → s'.Sound cap) (fun _ => id)
    (fun h h' => h' ∘ h) sound_index rows.reverse _ ⟨?_, h.cap_eq, fun _ => Nat.zero_le _⟩
  rintro x (hx | hx | hx) <;> cases hx

end OpenWA.Lid

/-
The two mirrors of the lid store over whole runs: the reverse one holds the
pairs of the forward one, whatever a report, a warm-up, an eviction or a
reload does to them.

Each operation on the maps is said by the pairs it takes and adds
(`mem_forget`, `mem_add`); a step writes what its call writes
(`Quiet.mirror`).
-/
import OpenWA.Identity.Proofs.LidSteps

namespace OpenWA.Lid

open Function (update update_apply update_self update_of_ne)

variable {r : Reverse} {f g : Nat → Option (Option Nat)} {s : Store} {lid x p : Nat}
  {phone : Option Nat}

-- ======== the pairs

theorem mem_forget : x ∈ (r.forget lid phone p).getD [] ↔
    x ∈ (r p).getD [] ∧ ¬(x = lid ∧ phone = some p) := by
  cases phone with
  | none => simp [Reverse.forget]
  | some q =>
    simp only [Reverse.forget, Reverse.unindex]
    cases hset : r q with
    | none => grind
    | some set =>
      dsimp only
      repeat' split
      all_goals grind [update_apply]

theorem ne_forget (h : ∀ p, r p ≠ some []) (p : Nat) : r.forget lid phone p ≠ some [] := by
  cases phone with
  | none => exact h p
  | some q =>
    simp only [Reverse.forget, Reverse.unindex]
    cases hset : r q with
    | none => exact h p
    | some set =>
      dsimp only
      repeat' split
      all_goals grind [update_apply]

theorem mem_add : x ∈ (r.add lid phone p).getD [] ↔
    x ∈ (r p).getD [] ∨ (x = lid ∧ phone = some p) := by
  cases phone with
  | none => simp [Reverse.add]
  | some q =>
    unfold Reverse.add
    dsimp only
    split <;> grind [update_apply]

theorem ne_add (h : ∀ p, r p ≠ some []) (p : Nat) : r.add lid phone p ≠ some [] := by
  cases phone with
  | none => exact h p
  | some q =>
    simp only [Reverse.add, update_apply]
    repeat' split
    · grind
    · simp
    · exact h p

/-- The maps hold the same pairs, and no phone an empty set. -/
structure Mirrors (f : Nat → Option (Option Nat)) (r : Reverse) : Prop where
  mem : ∀ lid p, lid ∈ (r p).getD [] ↔ f lid = some (some p)
  ne : ∀ p, r p ≠ some []

theorem mirrors_empty : Mirrors (fun _ => none) fun _ => none := ⟨by simp, by simp⟩

theorem Mirrors.forget (h : Mirrors f r) (hgone : g lid = none) (hsame : ∀ x ≠ lid, g x = f x) :
    Mirrors g (r.forget lid (f lid).join) := by
  refine ⟨fun x p => ?_, ne_forget h.ne⟩
  rw [mem_forget, h.mem]
  by_cases hx : x = lid
  · subst hx
    rw [hgone]
    grind
  · rw [hsame x hx]
    grind

theorem Mirrors.place (h : Mirrors f r) (hput : g lid = some phone)
    (hsame : ∀ x ≠ lid, g x = f x) : Mirrors g
      ((if (f lid).join ≠ phone then r.forget lid (f lid).join else r).add lid phone) := by
  constructor
  · intro x p
    have hmem := h.mem x p
    rw [mem_add]
    by_cases hx : x = lid
    · subst hx
      split
      · rw [mem_forget]
        grind
      · grind
    · rw [hsame x hx]
      split
      · rw [mem_forget]
        grind
      · grind
  · apply ne_add
    split
    · exact ne_forget h.ne
    · exact h.ne

theorem mirrors_evict (n : Nat) (h : Mirrors s.cached r) : Mirrors (Store.evict n s).cached
    ((s.lidToPhone.entries.take n).foldl (fun r e => r.forget e.1 e.2) r) := by
  induction n generalizing s r with
  | zero => exact h
  | succ n ih =>
    have hdrop : s.evictOldest.lidToPhone.entries = s.lidToPhone.entries.drop 1 := entries_evict 1 s
    cases hentries : s.lidToPhone.entries with
    | nil =>
      have hstay : s.evictOldest = s := by
        unfold Store.evictOldest
        rw [hentries]
      have hrest := ih h
      rw [hentries, List.take_nil] at hrest
      rw [Store.evict, hstay]
      exact hrest
    | cons e rest =>
      obtain ⟨oldest, phone⟩ := e
      rw [hentries] at hdrop
      have hphone : s.cached oldest = some phone :=
        Record.get_of_mem (hentries ▸ List.mem_cons_self)
      have hgone : ∀ x, s.evictOldest.cached x = (s.lidToPhone.delete oldest).get x := by
        intro x
        unfold Store.evictOldest
        rw [hentries]
        rfl
      have hforget : Mirrors s.evictOldest.cached (r.forget oldest (s.cached oldest).join) := by
        refine h.forget ?_ fun x hx => ?_
        · rw [hgone, Record.get_delete_self]
        · rw [hgone, Record.get_delete_of_ne _ hx]
          rfl
      have hrest := ih hforget
      rw [hdrop, hphone] at hrest
      exact hrest

/-- Indexing keeps the two maps in step. -/
theorem mirrors_index (lid : Nat) (phone session : Option Nat) (isReported : Bool)
    (h : Mirrors s.cached r) :
    Mirrors (s.index lid phone session isReported).cached (r.index s lid phone) := by
  have hplace := h.place (g := (s.place lid phone).get) (Record.get_set_self _ _ _)
    fun x hx => get_place_of_ne s phone hx
  obtain ⟨reporters, seen, nextSeen, hindex⟩ := index_eq s lid phone session isReported
  rw [hindex]
  unfold Store.evictIfOverCap Reverse.index
  split
  · exact hplace
  · exact mirrors_evict _ hplace

/-- Every call keeps the two maps in step. -/
theorem mirrors_calls (c : Call) (h : Mirrors s.cached r) :
    Mirrors (s.calls c).cached (r.calls s c) := by
  cases c with
  | none => exact h
  | index lid phone session isReported => exact mirrors_index lid phone session isReported h
  | drop lid =>
    exact h.forget (Record.get_delete_self _ _) fun x hx => Record.get_delete_of_ne _ hx
  | reload rows =>
    have hrows : ∀ (rows : List (Nat × Row)) (t : Store) (r : Reverse), Mirrors t.cached r →
        Mirrors (rows.foldl (fun st e => st.index e.1 e.2.phone e.2.sessionId e.2.isReported)
          t).cached (rows.foldl (fun (st, (r : Reverse)) e =>
            (st.index e.1 e.2.phone e.2.sessionId e.2.isReported, r.index st e.1 e.2.phone))
            (t, r)).2 := by
      intro rows
      induction rows with
      | nil => exact fun _ _ => id
      | cons e rows ih => exact fun t r ht => ih _ _ (mirrors_index _ _ _ _ ht)
    exact hrows rows.reverse (s.reloadWith []) _ mirrors_empty

-- ======== the runs

/-- The mirrors agree, and the store keeps its cap and its marks. -/
structure Consistent (cap : Nat) (d : Directory) : Prop where
  sound : d.world.store.Sound cap
  mirrors : Mirrors d.world.store.cached d.phoneToLids

theorem Consistent.step {cap : Nat} {d : Directory} (a : Act) (h : Consistent cap d) :
    Leads (Consistent cap) (directory.step a d) := by
  refine Leads.bind fun w hw => ?_
  obtain ⟨v, hquiet, hmoves⟩ := does_step.to hw
  refine ⟨sound_of_moves (hquiet.sound cap h.sound) hmoves, ?_⟩
  have hcached : w.store.cached = (d.world.store.calls (d.world.call a)).cached :=
    funext fun lid => (cached_of_moves hmoves lid).trans (hquiet.mirror lid)
  rw [hcached]
  exact mirrors_calls _ h.mirrors

/-- **The lid directory is consistent.** In every reachable state the reverse
mirror lists a lid under a phone exactly when the forward one maps it there,
no phone has an empty set, a positive cap bounds the cached lids, and the
marks are of cached lids. -/
theorem lid_directory {cap : Nat} {table : Record Nat Row} {d : Directory}
    (h : directory.Reach ⟨World.init cap table, fun _ => none⟩ d) :
    let s := d.world.store
    (∀ lid p, lid ∈ (d.phoneToLids p).getD [] ↔ s.cached lid = some (some p)) ∧
      (∀ p, d.phoneToLids p ≠ some []) ∧ (0 < cap → s.lidToPhone.size ≤ cap) ∧
      ∀ lid, s.unreported lid = true ∨ (s.seenBy lid).isSome = true ∨
        s.failedWrites lid = true → (s.cached lid).isSome = true := by
  have hinit : Consistent cap ⟨World.init cap table, fun _ => none⟩ := by
    refine ⟨⟨?_, rfl, fun _ => Nat.zero_le _⟩, mirrors_empty⟩
    rintro x (hx | hx | hx) <;> cases hx
  obtain ⟨hsound, hmirrors⟩ := h.leads hinit fun a _ => Consistent.step a
  exact ⟨hmirrors.mem, hmirrors.ne, hsound.size_le, hsound.marks⟩

/-- Room for one lid: the report of lid 2 evicts lid 1 from both maps, and
the phone both had keeps lid 2. -/
theorem lid_directory_evicts : ∃ d : Directory, (d.phoneToLids 7).getD [] = [2] ∧
    d.world.store.cached 1 = none ∧ d.world.store.cached 2 = some (some 7) := by
  obtain ⟨d, hreach, hset⟩ := directory.exists_reach_of_run
    ⟨World.init 1 Record.empty, fun _ => none⟩
    [.remember 0 1 (some 7) none, .remember 1 2 (some 7) none]
    (fun d => (d.phoneToLids 7).getD [] = [2] ∧ d.world.store.cached 1 = none) rfl
  obtain ⟨hset, hgone⟩ := of_decide_eq_true hset
  refine ⟨d, hset, hgone, ((lid_directory hreach).1 2 7).mp ?_⟩
  rw [hset]
  exact List.mem_cons_self

end OpenWA.Lid

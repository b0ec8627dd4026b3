/-
The unsettled writes of a lid: the shared record is in the map as long as
an operation holds it, and its count is the number of operations that do.
So while a report is under way the store knows that its lid's row may be
behind (`Open.unstored`).
-/
import OpenWA.Identity.LidWorld
import OpenWA.Lib.Counts

namespace OpenWA.Lid

open Function (update update_self update_of_ne)

/-- The lid an operation writes and the record it holds. -/
def Phase.write : Phase → Option (Nat × Nat)
  | .storing r => some (r.lid, r.writing)
  | .stored r => some (r.lid, r.writing)
  | .checking r _ => some (r.lid, r.writing)
  | .checked r _ _ => some (r.lid, r.writing)
  | .emptying r => some (r.lid, r.writing)
  | .emptied r => some (r.lid, r.writing)
  | .clearing r => some (r.lid, r.writing)
  | .cleared r _ => some (r.lid, r.writing)
  | .refused r => some (r.lid, r.writing)
  | .offering o => some (o.lid, o.writing)
  | .offered o => some (o.lid, o.writing)
  | .revoking o => some (o.lid, o.writing)
  | .revoked o _ => some (o.lid, o.writing)
  | .offerRefused o => some (o.lid, o.writing)
  | _ => none

/-- The writes in flight are those the store counts. -/
structure Open (w : World) : Prop where
  holds : ∀ j lid ref, (w.phase j).write = some (lid, ref) → w.store.unsettledWrites lid = some ref
  counts : ∀ lid ref, w.store.unsettledWrites lid = some ref →
    Counts (fun j => (w.phase j).write = some (lid, ref)) (w.store.writing ref).count
  inj : ∀ lid lid' ref, w.store.unsettledWrites lid = some ref →
    w.store.unsettledWrites lid' = some ref → lid = lid'
  fresh : ∀ lid ref, w.store.unsettledWrites lid = some ref → ref < w.store.nextWriting

theorem open_init (cap : Nat) (table : Record Nat Row) : Open (World.init cap table) where
  holds := by intro j lid ref h; cases h
  counts := by intro lid ref h; cases h
  inj := by intro lid lid' ref h; cases h
  fresh := by intro lid ref h; cases h

variable {w : World} {j : Nat} {lid ref : Nat} {s s' : Store} {p : Phase}

/-- A lid with a write under way is not stored yet. -/
theorem Open.unstored (h : Open w) (hj : (w.phase j).write = some (lid, ref)) :
    w.store.unstored lid = true := by
  unfold Store.unstored
  rw [h.holds j lid ref hj]
  rfl

-- ======== the loops of the store

section Loops

variable {R : Store → Store → Prop} (refl : ∀ s, R s s) (trans : ∀ {s t u}, R s t → R t u → R s u)
include refl trans

theorem evictIfOverCap_of (one : ∀ s, R s s.evictOldest) (s : Store) : R s s.evictIfOverCap := by
  have hevict : ∀ n s, R s (Store.evict n s) := by
    intro n
    induction n with
    | zero => exact refl
    | succ n ih => exact fun s => trans (one s) (ih s.evictOldest)
  unfold Store.evictIfOverCap
  split
  · exact refl s
  · exact hevict _ s

theorem index_rows_of (one : ∀ s lid phone session isReported,
      R s (s.index lid phone session isReported)) (rows : List (Nat × Row)) (s : Store) :
    R s (rows.foldl (fun st e => st.index e.1 e.2.phone e.2.sessionId e.2.isReported) s) := by
  induction rows generalizing s with
  | nil => exact refl s
  | cons e rows ih => exact trans (one s _ _ _ _) (ih _)

end Loops

-- ======== stores that agree

/-- The same unsettled writes, with the same counts. -/
structure SameWrites (s s' : Store) : Prop where
  map : s'.unsettledWrites = s.unsettledWrites
  count : ∀ ref, (s'.writing ref).count = (s.writing ref).count
  next : s'.nextWriting = s.nextWriting

theorem SameWrites.refl (s : Store) : SameWrites s s := ⟨rfl, fun _ => rfl, rfl⟩

theorem SameWrites.trans {s'' : Store} (h : SameWrites s s') (h' : SameWrites s' s'') :
    SameWrites s s'' :=
  ⟨h'.map.trans h.map, fun ref => (h'.count ref).trans (h.count ref), h'.next.trans h.next⟩

theorem sameWrites_noteAbsent (s : Store) (lid : Nat) : SameWrites s (s.noteAbsent lid) := by
  unfold Store.noteAbsent
  split
  · exact SameWrites.refl s
  · exact ⟨rfl, fun _ => rfl, rfl⟩

theorem SameWrites.lookups (h : SameWrites s s') (pending raced : Nat → Bool) :
    SameWrites s { s' with pendingLookups := pending, racedLookups := raced } :=
  ⟨h.map, h.count, h.next⟩

-- ======== kinds of steps

/-- A step that starts and settles no write. -/
theorem Open.same {w' : World} (h : Open w) (hs : SameWrites w.store w'.store)
    (hp : ∀ i, (w'.phase i).write = (w.phase i).write) : Open w' where
  holds := by
    intro i lid ref hi
    rw [hp] at hi
    rw [hs.map]
    exact h.holds i lid ref hi
  counts := by
    intro lid ref hl
    rw [hs.map] at hl
    rw [hs.count]
    exact (h.counts lid ref hl).congr fun i => by rw [hp]
  inj := by
    intro lid lid' ref hl hl'
    rw [hs.map] at hl hl'
    exact h.inj lid lid' ref hl hl'
  fresh := by
    intro lid ref hl
    rw [hs.map] at hl
    rw [hs.next]
    exact h.fresh lid ref hl

theorem phase_setPhase (w : World) (j : Nat) (p : Phase) (i : Nat) :
    (i = j ∧ (w.setPhase j p).phase i = p) ∨ (i ≠ j ∧ (w.setPhase j p).phase i = w.phase i) :=
  (of_update rfl).imp (fun h => ⟨h.1, h.2.symm⟩) fun h => ⟨h.1, h.2.symm⟩

theorem write_setPhase (hp : p.write = (w.phase j).write) (i : Nat) :
    ((w.setPhase j p).phase i).write = (w.phase i).write := by
  rcases phase_setPhase w j p i with ⟨rfl, hsame⟩ | ⟨-, hsame⟩
  · rw [hsame, hp]
  · rw [hsame]

/-- An operation moves on with the record it holds, or still without one. -/
theorem Open.moves (h : Open w) (hs : SameWrites w.store s) (hp : p.write = (w.phase j).write) :
    Open ((w.setStore s).setPhase j p) := h.same hs (write_setPhase hp)

theorem Open.goes (h : Open w) (hp : p.write = (w.phase j).write) : Open (w.setPhase j p) :=
  h.same (SameWrites.refl _) (write_setPhase hp)

theorem Open.setStore (h : Open w) (hs : SameWrites w.store s) : Open (w.setStore s) :=
  h.same hs fun _ => rfl

theorem Open.setRow {row : Row} (h : Open w) : Open (w.setRow lid row) :=
  h.same (SameWrites.refl _) fun _ => rfl

/-- What settling a write of the record leaves. -/
theorem endWrite_spec (hmap : s.unsettledWrites lid = some ref) :
    (∀ x y, (s.endWrite lid ref).unsettledWrites x = some y ↔
      s.unsettledWrites x = some y ∧ (x = lid → 0 < (s.writing ref).count - 1)) ∧
    (∀ y, ((s.endWrite lid ref).writing y).count
      = if y = ref then (s.writing ref).count - 1 else (s.writing y).count) ∧
    (s.endWrite lid ref).nextWriting = s.nextWriting := by
  unfold Store.endWrite
  rw [if_neg (fun hne => hne hmap)]
  dsimp only
  split <;> grind [Function.update_apply]

/-- A write settles. -/
theorem Open.settle (h : Open w) (hj : (w.phase j).write = some (lid, ref)) :
    Open (w.settle j lid ref) := by
  have hmap := h.holds j lid ref hj
  obtain ⟨hwrites, hcount, hnext⟩ := endWrite_spec hmap
  have hphase : ∀ i x y, ((w.settle j lid ref).phase i).write = some (x, y) ↔
      (w.phase i).write = some (x, y) ∧ i ≠ j := by
    intro i x y
    change (update w.phase j (.done .nothing) i).write = _ ↔ _
    by_cases hij : i = j
    · rw [hij, update_self]
      simp [Phase.write]
    · rw [update_of_ne hij]
      exact (and_iff_left hij).symm
  have hless := (h.counts lid ref hmap).remove hj fun i => hphase i lid ref
  constructor
  · intro i x y hi
    have hold := h.holds i x y ((hphase i x y).mp hi).1
    refine (hwrites x y).mpr ⟨hold, ?_⟩
    rintro rfl
    obtain rfl := Option.some.inj (hmap.symm.trans hold)
    exact hless.pos_iff.mpr ⟨i, hi⟩
  · intro x y hx
    have hold := ((hwrites x y).mp hx).1
    change Counts _ ((w.store.endWrite lid ref).writing y).count
    rw [hcount]
    split
    next hy =>
      subst hy
      rw [h.inj x lid y hold hmap]
      exact hless
    next hy =>
      -- the operations of another record are as they were
      refine (h.counts x y hold).congr fun i => (hphase i x y).trans (and_iff_left_of_imp ?_)
      rintro hi rfl
      rw [hj] at hi
      exact hy (congrArg Prod.snd (Option.some.inj hi)).symm
  · intro x x' y hx hx'
    exact h.inj x x' y ((hwrites x y).mp hx).1 ((hwrites x' y).mp hx').1
  · intro x y hx
    exact Nat.lt_of_lt_of_eq (h.fresh x y ((hwrites x y).mp hx).1) hnext.symm

-- ======== a write begins

/-- What `beginWrite` gives: the record of the lid, new or there, with one
more operation on it. -/
theorem Open.beginWrite_spec (h : Open w) (lid : Nat) (operation : Operation) (actual : Bool)
    (hs : w.store.beginWrite lid operation actual = (ref, s)) :
    s.unsettledWrites = update w.store.unsettledWrites lid (some ref) ∧
    (∀ x y, w.store.unsettledWrites x = some y → (x = lid ↔ y = ref)) ∧
    (∃ n, Counts (fun i => (w.phase i).write = some (lid, ref)) n ∧
      ∀ y, (s.writing y).count = if y = ref then n + 1 else (w.store.writing y).count) ∧
    w.store.nextWriting ≤ s.nextWriting ∧ ref < s.nextWriting := by
  unfold Store.beginWrite at hs
  obtain ⟨rfl, rfl⟩ := Prod.ext_iff.mp hs
  refine ⟨rfl, ?_, ?_⟩
  · intro x y hold
    have hlt := h.fresh x y hold
    cases hmap : w.store.unsettledWrites lid with
    | none =>
      constructor
      · rintro rfl
        cases hmap.symm.trans hold
      · rintro rfl
        exact absurd hlt (Nat.lt_irrefl _)
    | some shared =>
      constructor
      · rintro rfl
        exact Option.some.inj (hold.symm.trans hmap)
      · rintro rfl
        exact h.inj x lid _ hold hmap
  · cases hmap : w.store.unsettledWrites lid with
    | none =>
      refine ⟨⟨0, counts_zero_iff.mpr fun i hi => ?_, ?_⟩, ?_⟩
      · cases hmap.symm.trans (h.holds i lid _ hi)
      · grind [Function.update_apply]
      · simp
    | some shared =>
      refine ⟨⟨_, h.counts lid shared hmap, ?_⟩, ?_⟩
      · grind [Function.update_apply]
      · simpa using h.fresh lid shared hmap

/-- A write begins with the record `beginWrite` gives it. -/
theorem Open.begins {operation : Operation} {actual : Bool} (h : Open w) (hs : SameWrites w.store s)
    (hu : (w.phase j).write = none)
    (hp : p.write = some (lid, (s.beginWrite lid operation actual).1)) :
    Open ((w.setStore (s.beginWrite lid operation actual).2).setPhase j p) := by
  have hopen : Open (w.setStore s) := h.setStore hs
  obtain ⟨ref, s', hbegin⟩ : ∃ ref s', s.beginWrite lid operation actual = (ref, s') := ⟨_, _, rfl⟩
  obtain ⟨hmap, hsame, ⟨n, hn, hcount⟩, hle, hlt⟩ := hopen.beginWrite_spec lid operation actual
    hbegin
  rw [hbegin] at hp ⊢
  have hphase : ∀ i x y, (((w.setStore s').setPhase j p).phase i).write = some (x, y) ↔
      (i = j ∧ x = lid ∧ y = ref) ∨ (w.phase i).write = some (x, y) := by
    intro i x y
    rcases phase_setPhase (w.setStore s') j p i with ⟨rfl, hphase⟩ | ⟨hij, hphase⟩
    · simp [hphase, hp, hu, eq_comm]
    · rw [hphase]
      simp [hij, World.setStore]
  constructor
  · intro i x y hi
    change s'.unsettledWrites x = some y
    rw [hmap]
    rcases (hphase i x y).mp hi with ⟨-, rfl, rfl⟩ | hi
    · exact update_self _ _ _
    · have hold := hopen.holds i x y hi
      by_cases hx : x = lid
      · rw [hx, update_self, (hsame x y hold).mp hx]
      · rw [update_of_ne hx]
        exact hold
  · intro x y hx
    change Counts _ (s'.writing y).count
    rw [hcount]
    rcases of_update (hmap ▸ hx) with ⟨rfl, ⟨⟩⟩ | ⟨hxl, hx⟩
    · rw [if_pos rfl]
      refine hn.add (i := j) ?_ ?_
      · rw [show ((w.setStore s).phase j).write = none from hu]
        exact Option.some_ne_none _ ∘ Eq.symm
      · intro i
        rw [hphase]
        simp [World.setStore]
    · have hy := mt (hsame x y hx).mpr hxl
      rw [if_neg hy]
      exact (hopen.counts x y hx).congr fun i => (hphase i x y).trans (by simp [hy, World.setStore])
  · intro x x' y hx hx'
    rcases of_update (hmap ▸ hx) with ⟨rfl, ⟨⟩⟩ | ⟨-, hx⟩
    · rcases of_update (hmap ▸ hx') with ⟨rfl, -⟩ | ⟨-, hx'⟩
      · rfl
      · exact ((hsame x' ref hx').mpr rfl).symm
    · rcases of_update (hmap ▸ hx') with ⟨rfl, ⟨⟩⟩ | ⟨-, hx'⟩
      · exact (hsame x ref hx).mpr rfl
      · exact hopen.inj x x' y hx hx'
  · intro x y hx
    rcases of_update (hmap ▸ hx) with ⟨-, ⟨⟩⟩ | ⟨-, hx⟩
    · exact hlt
    · exact Nat.lt_of_lt_of_le (hopen.fresh x y hx) hle

theorem write_of_isUnused (h : p.isUnused = true) : p.write = none := by
  cases p <;> first | rfl | cases h

end OpenWA.Lid

/-
The calm steps of the lid store: what they leave of the recorded absences,
the warm-ups and the writes.

Most steps are calm (`Calmly`): no absence is recorded, no lid recorded
absent gets an entry, no write begins, and the rows of other lids than those
being written stay as they are, but for their owners.
-/
import OpenWA.Identity.Proofs.LidMirror

namespace OpenWA.Lid

open Function (update update_self update_of_ne)

/-- The lid a warm-up reads. -/
def Phase.warms : Phase → Option Nat
  | .warming lid _ => some lid
  | .warmed lid _ _ => some lid
  | .warmRefused lid => some lid
  | _ => none

/-- The lid a report gives a phone, until its statement is refused or it
settles. -/
def Phase.reports : Phase → Option Nat
  | .storing r => some r.lid
  | .stored r => some r.lid
  | .checking r _ => some r.lid
  | .checked r _ _ => some r.lid
  | _ => none

/-- The lid of a display lookup whose insert has run. -/
def Phase.offers : Phase → Option Nat
  | .offered o => some o.lid
  | .revoking o => some o.lid
  | .revoked o _ => some o.lid
  | _ => none

variable {p p' : Phase} {lid : Nat}

theorem write_of_reports (h : p.reports = some lid) : ∃ ref, p.write = some (lid, ref) := by
  cases p <;> cases h <;> exact ⟨_, rfl⟩

theorem write_of_warms (h : p.warms = some lid) : p.write = none := by
  cases p <;> first | rfl | cases h

theorem roles_of_isUnused (h : p.isUnused = true) :
    p.warms = none ∧ p.reports = none ∧ p.offers = none := by
  cases p <;> first | exact ⟨rfl, rfl, rfl⟩ | cases h

-- ======== calm stores

/-- No absence is recorded, no lid recorded absent gets an entry, no write
begins and the warm-ups are left alone. -/
structure Calm (s s' : Store) : Prop where
  absent : ∀ lid, s'.absentFromTable.contains lid = true → s.absentFromTable.contains lid = true
  mirror : ∀ lid, s'.absentFromTable.contains lid = true → s.cached lid = none →
    s'.cached lid = none
  pending : s'.pendingLookups = s.pendingLookups
  raced : s'.racedLookups = s.racedLookups
  writes : ∀ lid, s.unsettledWrites lid = none → s'.unsettledWrites lid = none

namespace Calm

variable {s s' s'' : Store}

theorem refl (s : Store) : Calm s s := ⟨fun _ => id, fun _ _ => id, rfl, rfl, fun _ => id⟩

theorem trans (h : Calm s s') (h' : Calm s' s'') : Calm s s'' where
  absent := fun lid habs => h.absent lid (h'.absent lid habs)
  mirror := fun lid habs hnone =>
    h'.mirror lid habs (h.mirror lid (h'.absent lid habs) hnone)
  pending := h'.pending.trans h.pending
  raced := h'.raced.trans h.raced
  writes := fun lid hnone => h'.writes lid (h.writes lid hnone)

end Calm

/-- So, and the unsettled writes stay. -/
structure Tame (s s' : Store) : Prop where
  writes : SameWrites s s'
  calm : Calm s s'

theorem Tame.refl (s : Store) : Tame s s := ⟨.refl s, .refl s⟩

theorem Tame.trans {s s' s'' : Store} (h : Tame s s') (h' : Tame s' s'') : Tame s s'' :=
  ⟨h.writes.trans h'.writes, h.calm.trans h'.calm⟩

theorem tame_evictOldest (s : Store) : Tame s s.evictOldest := by
  unfold Store.evictOldest
  split
  · exact .refl s
  next oldest phone rest hentries =>
    refine ⟨⟨rfl, fun ref => ?_, rfl⟩, fun _ => id, fun lid _ hnone => ?_, rfl, rfl, fun _ => id⟩
    · cases s.unsettledWrites oldest with
      | none => rfl
      | some shared =>
        dsimp only
        by_cases href : ref = shared
        · rw [href, update_self]
        · rw [update_of_ne href]
    · rcases shrinks_delete s lid oldest with hgone | hsame
      · exact hgone
      · exact hsame.trans hnone

theorem tame_evictIfOverCap (s : Store) : Tame s s.evictIfOverCap :=
  evictIfOverCap_of Tame.refl Tame.trans tame_evictOldest s

theorem contains_filter_ne {l : List Nat} {x : Nat} :
    (l.filter (· ≠ x)).contains lid = true ↔ l.contains lid = true ∧ lid ≠ x := by
  simp

theorem tame_index (s : Store) (lid : Nat) (phone session : Option Nat)
    (isReported : Bool) : Tame s (s.index lid phone session isReported) := by
  obtain ⟨reporters, seen, nextSeen, hindex⟩ := index_eq s lid phone session isReported
  rw [hindex]
  refine Tame.trans ?_ (tame_evictIfOverCap _)
  refine ⟨⟨rfl, fun _ => rfl, rfl⟩, ?_, ?_, rfl, rfl, fun _ => id⟩
  · intro x habs
    exact (contains_filter_ne.mp habs).1
  · intro x habs hnone
    change (s.place lid phone).get x = none
    rw [get_place_of_ne s phone (contains_filter_ne.mp habs).2]
    exact hnone

theorem tame_reloadWith (s : Store) (rows : List (Nat × Row)) : Tame s (s.reloadWith rows) := by
  refine Tame.trans ?_ (index_rows_of Tame.refl Tame.trans tame_index rows.reverse _)
  refine ⟨⟨rfl, fun _ => rfl, rfl⟩, ?_, ?_, rfl, rfl, fun _ => id⟩
  · intro lid habs
    cases habs
  · intro lid habs
    cases habs

theorem calm_endWrite (s : Store) (lid ref : Nat) : Calm s (s.endWrite lid ref) := by
  unfold Store.endWrite
  dsimp only
  split
  · exact Calm.refl s
  · split
    · exact ⟨fun _ => id, fun _ _ => id, rfl, rfl, fun _ => id⟩
    · refine ⟨fun _ => id, fun _ _ => id, rfl, rfl, ?_⟩
      intro x hnone
      simp [Function.update_apply, hnone]

/-- Recorded absences go, entries go. -/
theorem calm_drop (s : Store) (lid : Nat) : Calm s (s.drop lid) := by
  refine ⟨?_, ?_, rfl, rfl, fun _ => id⟩
  · intro x habs
    exact (contains_filter_ne.mp habs).1
  · intro x _ hnone
    rcases shrinks_delete s x lid with hgone | hsame
    · exact hgone
    · exact hsame.trans hnone

variable {phone : Option Nat}

theorem calm_hit (s : Store) (h : s.cached lid = some phone) :
    Calm s { s with lidToPhone := s.place lid phone } := by
  refine ⟨fun _ => id, ?_, rfl, rfl, fun _ => id⟩
  intro x _ hnone
  exact (get_place_hit s h x).trans hnone

-- ======== the moves

variable {F : Prop} {w w' : World} {j : Nat}

/-- An operation moves on, as no warm-up: it does not become a report, and
if `F` holds a display lookup whose insert has run keeps its name until the
absence of its lid is gone. -/
structure Goes (F : Prop) (s : Store) (p p' : Phase) : Prop where
  after : p'.warms = none
  reports : ∀ lid, p'.reports = some lid → p.reports = some lid
  offers : F → ∀ lid, p.offers = some lid →
    p'.offers = some lid ∨ s.absentFromTable.contains lid = false

/-- A step that starts no write and touches no warm-up. -/
structure Calmly (F : Prop) (w w' : World) : Prop where
  store : Calm w.store w'.store
  phase : ∀ i, w'.phase i = w.phase i ∨ Goes F w'.store (w.phase i) (w'.phase i)
  /-- A phone in the table was there, or has just been reported or offered. -/
  pairs : ∀ lid row, w'.table.get lid = some row → row.phone.isSome = true →
    (∃ old, w.table.get lid = some old ∧ old.phone.isSome = true) ∨
      ∃ i, (w'.phase i).offers = some lid ∨ (w.phase i).reports = some lid
  /-- Only the writes of a lid make its row. -/
  rows : ∀ lid, w.table.get lid = none →
    w'.table.get lid = none ∨ ∃ i ref, (w.phase i).write = some (lid, ref)

variable {s : Store}

/-- The operation is gone or keeps what it was. -/
theorem Goes.quiet (ha : p'.warms = none) (hr : p'.reports = none)
    (ho : p.offers = none) : Goes F s p p' := by
  refine ⟨ha, ?_, ?_⟩
  · intro lid h
    rw [hr] at h
    cases h
  · intro _ lid h
    rw [ho] at h
    cases h

theorem Goes.same (ha : p'.warms = none)
    (hr : p'.reports = p.reports) (ho : p'.offers = p.offers) : Goes F s p p' := by
  refine ⟨ha, ?_, ?_⟩
  · intro lid h
    rw [← hr]
    exact h
  · intro _ lid h
    rw [ho]
    exact .inl h

theorem phase_update (h : Goes F s (w.phase j) p) (i : Nat) :
    update w.phase j p i = w.phase i ∨ Goes F s (w.phase i) (update w.phase j p i) := by
  by_cases hi : i = j
  · rw [hi, update_self]
    exact .inr h
  · exact .inl (update_of_ne hi _ _)

/-- The table stays. -/
theorem Calmly.goes (hs : Calm w.store s) (hp : Goes F s (w.phase j) p) :
    Calmly F w ((w.setStore s).setPhase j p) where
  store := hs
  phase := phase_update hp
  pairs := fun _ row hrow hphone => .inl ⟨row, hrow, hphone⟩
  rows := fun _ hnone => .inl hnone

/-- Nothing but the store changes. -/
theorem Calmly.setStore (hs : Calm w.store s) : Calmly F w (w.setStore s) where
  store := hs
  phase := fun _ => .inl rfl
  pairs := fun _ row hrow hphone => .inl ⟨row, hrow, hphone⟩
  rows := fun _ hnone => .inl hnone

/-- Nothing the absences rest on changes. -/
theorem Calmly.of_eq (hs : w'.store = w.store) (ht : w'.table = w.table)
    (hp : w'.phase = w.phase) : Calmly F w w' where
  store := hs ▸ Calm.refl w.store
  phase := fun _ => .inl (by rw [hp])
  pairs := fun _ row hrow hphone => .inl ⟨row, ht ▸ hrow, hphone⟩
  rows := fun _ hnone => .inl (ht ▸ hnone)

variable {ref spare : Nat} {r : Report} {session : Option Nat}

/-- A statement of a write leaves its lid's row as it is or sets it; a phone
it sets is one reported or offered, or was there. -/
theorem Calmly.writes {row : Row} (hp : Goes F w.store (w.phase j) p)
    (hw : (w.phase j).write = some (lid, ref))
    (hrow : row.phone.isSome = true →
      (∃ old, w.table.get lid = some old ∧ old.phone.isSome = true) ∨
        p.offers = some lid ∨ (w.phase j).reports = some lid) :
    Calmly F w ((w.setRow lid row).setPhase j p) where
  store := Calm.refl _
  phase := phase_update hp
  pairs := by
    intro x row' hx hphone
    change (w.table.set lid row).get x = some row' at hx
    by_cases hxl : x = lid
    · rw [hxl, Record.get_set_self] at hx
      rw [hxl]
      rw [← Option.some.inj hx] at hphone
      rcases hrow hphone with hold | hoffer | hreport
      · exact .inl hold
      · refine .inr ⟨j, .inl ?_⟩
        change (update w.phase j p j).offers = some lid
        rw [update_self]
        exact hoffer
      · exact .inr ⟨j, .inr hreport⟩
    · rw [Record.get_set_of_ne _ _ hxl] at hx
      exact .inl ⟨row', hx, hphone⟩
  rows := by
    intro x hnone
    by_cases hxl : x = lid
    · rw [hxl]
      exact .inr ⟨j, ref, hw⟩
    · refine .inl ?_
      change (w.table.set lid row).get x = none
      rw [Record.get_set_of_ne _ _ hxl]
      exact hnone

-- ======== the steps

/-- Rows whose owner is released keep their phones. -/
theorem released_rows (f : Row → Row) (hf : ∀ row, (f row).phone = row.phone)
    {table : Record Nat Row} (l : List (Nat × Row)) (hl : ∀ e ∈ l, e ∈ table.entries) :
    ∀ t : Record Nat Row,
      (∀ lid, table.get lid = none → t.get lid = none) →
      (∀ lid row, t.get lid = some row → ∃ old, table.get lid = some old ∧ old.phone = row.phone) →
      (∀ lid, table.get lid = none → (l.foldl (fun t e => t.set e.1 (f e.2)) t).get lid = none) ∧
      (∀ lid row, (l.foldl (fun t e => t.set e.1 (f e.2)) t).get lid = some row →
        ∃ old, table.get lid = some old ∧ old.phone = row.phone) := by
  induction l with
  | nil => exact fun t hnone hrow => ⟨hnone, hrow⟩
  | cons e l ih =>
    intro t hnone hrow
    have he : table.get e.1 = some e.2 := Record.get_of_mem (hl e List.mem_cons_self)
    refine ih (fun x hx => hl x (List.mem_cons_of_mem e hx)) _ ?_ ?_
    · intro lid hlid
      have hne : lid ≠ e.1 := by
        intro heq
        rw [heq, he] at hlid
        cases hlid
      rw [Record.get_set_of_ne _ _ hne]
      exact hnone lid hlid
    · intro lid row hlid
      by_cases heq : lid = e.1
      · rw [heq, Record.get_set_self] at hlid
        refine ⟨e.2, heq ▸ he, ?_⟩
        rw [← Option.some.inj hlid, hf]
      · rw [Record.get_set_of_ne _ _ heq] at hlid
        exact hrow lid row hlid

theorem calmly_releases {f : Row → Row} (hf : ∀ row, (f row).phone = row.phone)
    (hp : ∃ session, w.phase j = .releasing session) :
    Calmly F w (World.setPhase { w with
      table := w.table.entries.foldl (fun t e => t.set e.1 (f e.2)) w.table } j
        (.done .nothing)) := by
  obtain ⟨session, hp⟩ := hp
  obtain ⟨hnone, hrows⟩ := released_rows f hf w.table.entries (fun _ => id) w.table
    (fun _ => id) (fun _ row hrow => ⟨row, hrow, rfl⟩)
  refine ⟨Calm.refl _, phase_update (hp ▸ Goes.quiet rfl rfl rfl), ?_, ?_⟩
  · intro lid row hrow hphone
    obtain ⟨old, hold, hsame⟩ := hrows lid row hrow
    rw [← hsame] at hphone
    exact .inl ⟨old, hold, hphone⟩
  · intro lid hlid
    exact .inl (hnone lid hlid)

/-- The second statement of no display lookup is refused. -/
def Finishes (a : Act) (w : World) : Prop := ∀ j o, a = .fail j → w.phase j ≠ .revoking o

end OpenWA.Lid

/-
The absences the store records: a lid is in `absentFromTable` only as long
as this process has no pair for it.

# The argument

- A warm-up may record an absence only if no write of its lid was under way
  when it started and none has begun since (`racedLookups`). So nothing has
  touched the lid's row since the query read the table, and the absence is
  still true when it is recorded (`Warm`).
- A recorded absence goes when a report indexes the lid, before its
  statement runs; so a row with a phone and a recorded absence of its lid
  meet in one case only, a display lookup between its insert and the end of
  its call (`Absent`).

The second statement of a display lookup may be refused, and then the
absence stays although the row is there (`refused_update_hides_pair`).
-/
import OpenWA.Identity.Proofs.LidFence
import OpenWA.Identity.Proofs.LidMoves

namespace OpenWA.Lid

open Function (update update_self update_of_ne)

namespace World

variable (w : World) (lid : Nat)

/-- A lookup of the lid is answered from the recorded absences: no entry,
and no query is made for one. -/
def answersAbsent : Bool := (w.store.cached lid).isNone && w.store.absentFromTable.contains lid

/-- This process has a pair for the lid: in the mirror, in a report under
way, or in the table. -/
inductive Known : Prop
  | entry (phone : Option Nat) (h : w.store.cached lid = some phone)
  | report (i : Nat) (h : (w.phase i).reports = some lid)
  | row (row : Row) (h : w.table.get lid = some row) (hp : row.phone.isSome = true)

end World

variable {F : Prop} {w w' : World} {j : Nat}

-- ======== the warm-ups

/-- The lid of a warm-up that started with no write of it under way. -/
def Phase.reads : Phase → Option Nat
  | .warming lid inFlight => if inFlight then none else some lid
  | .warmed lid inFlight _ => if inFlight then none else some lid
  | _ => none

/-- A lid has one warm-up at a time. Unless it is marked as raced, no write
of the lid is under way, and a row it did not find is still not there. -/
structure Warm (w : World) : Prop where
  pending : ∀ i lid, (w.phase i).warms = some lid → w.store.pendingLookups lid = true
  single : ∀ i k lid, (w.phase i).warms = some lid → (w.phase k).warms = some lid → i = k
  quiet : ∀ i lid, (w.phase i).reads = some lid → w.store.racedLookups lid = false →
    w.store.unsettledWrites lid = none ∧
      (w.phase i = .warmed lid false none → w.table.get lid = none)

variable {p : Phase} {s : Store} {lid : Nat}

theorem warms_of_reads (h : p.reads = some lid) : p.warms = some lid := by
  cases p
  case warming x inFlight | warmed x inFlight row =>
    cases inFlight
    · exact h
    · cases h
  all_goals cases h

theorem warm_init (cap : Nat) (table : Record Nat Row) : Warm (World.init cap table) where
  pending := by intro i lid h; cases h
  single := by intro i k lid h; cases h
  quiet := by intro i lid h; cases h

/-- A warm-up that is under way after a calm step was so before it. -/
theorem Calmly.phase_of_warms (h : Calmly F w w') {i : Nat}
    (hi : (w'.phase i).warms = some lid) : w'.phase i = w.phase i := by
  rcases h.phase i with hsame | hgoes
  · exact hsame
  · rw [hgoes.after] at hi
    cases hi

/-- A step that starts no warm-up: those under way keep their marks, and if
they are not raced no write of their lid begins and its row is not made. -/
theorem Warm.keeps (h : Warm w) (hk : ∀ i x, (w'.phase i).warms = some x →
      w'.phase i = w.phase i ∧ w'.store.pendingLookups x = true ∧
      (w'.store.racedLookups x = false → w.store.racedLookups x = false ∧
        (w.store.unsettledWrites x = none → w'.store.unsettledWrites x = none ∧
          (w.table.get x = none → w'.table.get x = none)))) : Warm w' where
  pending := fun i x hi => (hk i x hi).2.1
  single := by
    intro i k x hi hx
    have hisame := (hk i x hi).1
    have hksame := (hk k x hx).1
    rw [hisame] at hi
    rw [hksame] at hx
    exact h.single i k x hi hx
  quiet := by
    intro i x hi hraced
    obtain ⟨hsame, -, hold⟩ := hk i x (warms_of_reads hi)
    rw [hsame] at hi ⊢
    obtain ⟨hraced, hwrites⟩ := hold hraced
    obtain ⟨hquiet, habsent⟩ := h.quiet i x hi hraced
    exact (hwrites hquiet).imp_right fun hrow hp => hrow (habsent hp)

theorem Warm.calm (h : Warm w) (ho : Open w) (hc : Calmly F w w') : Warm w' := by
  refine h.keeps fun i x hi => ?_
  have hsame := hc.phase_of_warms hi
  rw [hsame] at hi
  refine ⟨hsame, hc.store.pending ▸ h.pending i x hi, fun hraced => ?_⟩
  refine ⟨hc.store.raced ▸ hraced, fun hquiet => ⟨hc.store.writes x hquiet, fun hnone => ?_⟩⟩
  -- no write of the lid is under way, so its row is not made here
  rcases hc.rows x hnone with hnone | ⟨k, ref, hk⟩
  · exact hnone
  · rw [ho.holds k x ref hk] at hquiet
    cases hquiet

theorem warms_setPhase {i : Nat} (hp : p.warms = none)
    (hi : ((w.setPhase j p).phase i).warms = some lid) :
    i ≠ j ∧ (w.setPhase j p).phase i = w.phase i := by
  rcases phase_setPhase w j p i with ⟨-, hsame⟩ | hother
  · rw [hsame, hp] at hi
    cases hi
  · exact hother

/-- A write begins: the warm-up of its lid is marked as raced. -/
theorem Warm.begins {operation : Operation} {actual : Bool} (h : Warm w)
    (hs : Calm w.store s) (hp : p.warms = none) :
    Warm ((w.setStore (s.beginWrite lid operation actual).2).setPhase j p) := by
  refine h.keeps fun i x hi => ?_
  have hsame := (warms_setPhase hp hi).2
  rw [hsame] at hi
  have hpend := h.pending i x hi
  refine ⟨hsame, hs.pending.symm ▸ hpend, fun hraced => ?_⟩
  change (if s.pendingLookups lid = true then update s.racedLookups lid true
    else s.racedLookups) x = false at hraced
  rw [hs.pending, hs.raced] at hraced
  by_cases hx : x = lid
  · rw [← hx, if_pos hpend, update_self] at hraced
    cases hraced
  · refine ⟨?_, fun hquiet => ⟨(update_of_ne hx _ _).trans (hs.writes x hquiet), id⟩⟩
    split at hraced
    · rw [update_of_ne hx] at hraced
      exact hraced
    · exact hraced

/-- A warm-up starts: no other one of its lid is pending. -/
theorem Warm.warms {spare : Nat} (h : Warm w)
    (hp : w.store.pendingLookups lid = false) :
    Warm ((w.setStore
      { w.store with pendingLookups := update w.store.pendingLookups lid true }).setPhase
        spare (.warming lid (w.store.unsettledWrites lid).isSome)) := by
  have hother : ∀ i, (w.phase i).warms ≠ some lid := by
    intro i hi
    rw [h.pending i lid hi] at hp
    cases hp
  have hphase := phase_setPhase (w.setStore
    { w.store with pendingLookups := update w.store.pendingLookups lid true }) spare
      (.warming lid (w.store.unsettledWrites lid).isSome)
  constructor
  · intro i x hi
    change update w.store.pendingLookups lid true x = true
    by_cases hx : x = lid
    · rw [hx, update_self]
    · rw [update_of_ne hx]
      rcases hphase i with ⟨-, hsame⟩ | ⟨-, hsame⟩ <;> rw [hsame] at hi
      · exact absurd (Option.some.inj hi).symm hx
      · exact h.pending i x hi
  · intro i k x hi hk
    rcases hphase i with ⟨his, hsame⟩ | ⟨-, hsame⟩ <;> rw [hsame] at hi <;>
      rcases hphase k with ⟨hks, hsame⟩ | ⟨-, hsame⟩ <;> rw [hsame] at hk
    · rw [his, hks]
    · exact absurd (hk.trans hi.symm) (hother k)
    · exact absurd (hi.trans hk.symm) (hother i)
    · exact h.single i k x hi hk
  · intro i x hi hraced
    rcases hphase i with ⟨-, hsame⟩ | ⟨-, hsame⟩ <;> rw [hsame] at hi ⊢
    · obtain ⟨hnone, ⟨⟩⟩ := Option.ite_none_left_eq_some.mp hi
      exact ⟨Option.not_isSome_iff_eq_none.mp hnone, fun hp => by cases hp⟩
    · exact h.quiet i x hi hraced

/-- A warm-up goes on: it is the one of its lid, still. -/
theorem Warm.goes (h : Warm w) (hj : (w.phase j).warms = some lid)
    (hp : p.warms = some lid) (hreads : ∀ x, p.reads = some x → (w.phase j).reads = some x)
    (hnone : ∀ x, p = .warmed x false none → w.table.get x = none) : Warm (w.setPhase j p) := by
  have hphase := phase_setPhase w j p
  have hwarms : ∀ i x, ((w.setPhase j p).phase i).warms = some x → (w.phase i).warms = some x := by
    intro i x hi
    rcases hphase i with ⟨rfl, hsame⟩ | ⟨-, hsame⟩ <;> rw [hsame] at hi
    · rw [hj, ← hp, hi]
    · exact hi
  constructor
  · exact fun i x hi => h.pending i x (hwarms i x hi)
  · exact fun i k x hi hk => h.single i k x (hwarms i x hi) (hwarms k x hk)
  · intro i x hi hraced
    rcases hphase i with ⟨rfl, hsame⟩ | ⟨-, hsame⟩ <;> rw [hsame] at hi ⊢
    · exact ⟨(h.quiet i x (hreads x hi) hraced).1, hnone x⟩
    · exact h.quiet i x hi hraced

/-- A warm-up ends: its marks go, and they were those of no other one. -/
theorem Warm.ends (h : Warm w) (hj : (w.phase j).warms = some lid)
    (hpending : s.pendingLookups = w.store.pendingLookups)
    (hraced : s.racedLookups = w.store.racedLookups)
    (hwrites : ∀ x, w.store.unsettledWrites x = none → s.unsettledWrites x = none) :
    Warm ((w.setStore { s with
      pendingLookups := update s.pendingLookups lid false
      racedLookups := update s.racedLookups lid false }).setPhase j (.done .nothing)) := by
  refine h.keeps fun i x hi => ?_
  obtain ⟨hij, hsame⟩ := warms_setPhase (p := .done .nothing) rfl hi
  rw [hsame] at hi
  have hx : x ≠ lid := by
    rintro rfl
    exact hij (h.single i j x hi hj)
  refine ⟨hsame, (update_of_ne hx _ _).trans (hpending ▸ h.pending i x hi), fun hr => ?_⟩
  refine ⟨?_, fun hquiet => ⟨hwrites x hquiet, id⟩⟩
  rw [← hraced]
  exact (update_of_ne hx _ _).symm.trans hr

theorem noteAbsent_frame (s : Store) (lid : Nat) :
    (s.noteAbsent lid).pendingLookups = s.pendingLookups ∧
      (s.noteAbsent lid).racedLookups = s.racedLookups ∧
      (s.noteAbsent lid).unsettledWrites = s.unsettledWrites := by
  unfold Store.noteAbsent
  split <;> exact ⟨rfl, rfl, rfl⟩

/-- Every move leaves a lid one warm-up. -/
theorem Warm.move (h : Warm w) (hm : Moves w w') : Warm w' := by
  cases hm with
  | stays => exact h
  | begins hu hw hwarms => exact h.begins (.refl _) hwarms
  | warms hu hp => exact h.warms hp
  | reads hp =>
    refine h.goes (by rw [hp]; rfl) rfl ?_ ?_
    · intro x hx
      rw [hp]
      exact hx
    · intro x hx
      injection hx with hlid _ hrow
      rw [← hlid]
      exact hrow
  | refuses hp =>
    refine h.goes (by rw [hp]; rfl) rfl ?_ ?_
    · intro x hx
      cases hx
    · intro x hx
      cases hx
  | ends hp => exact h.ends hp rfl rfl fun _ => id
  | @notes j lid hp hraced hc =>
    obtain ⟨hpending, hraces, hwrites⟩ := noteAbsent_frame w.store lid
    refine h.ends (by rw [hp]; rfl) hpending hraces ?_
    intro x hx
    rw [hwrites]
    exact hx

-- ======== the absences

/-- The lid has no entry, no report under way gives it a phone, and a row
with a phone is there only while the display lookup that inserted it is
under way. -/
structure Unpaired (w : World) (lid : Nat) : Prop where
  mirror : w.store.cached lid = none
  reports : ∀ i, (w.phase i).reports ≠ some lid
  pairs : ∀ row, w.table.get lid = some row → row.phone.isSome = true →
    ∃ i, (w.phase i).offers = some lid

/-- The lids recorded absent are so. -/
def Absent (w : World) : Prop := ∀ lid, w.store.absentFromTable.contains lid = true → Unpaired w lid

theorem absent_init (cap : Nat) (table : Record Nat Row) : Absent (World.init cap table) := by
  intro lid h
  cases h

theorem Absent.calm (h : Absent w) (hf : F) (hc : Calmly F w w') : Absent w' := by
  intro lid habs
  have hbefore := h lid (hc.store.absent lid habs)
  refine ⟨hc.store.mirror lid habs hbefore.mirror, fun i hi => ?_, fun row hrow hphone => ?_⟩
  · rcases hc.phase i with hsame | hgoes
    · rw [hsame] at hi
      exact hbefore.reports i hi
    · exact hbefore.reports i (hgoes.reports lid hi)
  · rcases hc.pairs lid row hrow hphone with ⟨old, hold, hphone⟩ | ⟨i, hoffer | hreport⟩
    · obtain ⟨i, hi⟩ := hbefore.pairs old hold hphone
      rcases hc.phase i with hsame | hgoes
      · exact ⟨i, hsame ▸ hi⟩
      · rcases hgoes.offers hf lid hi with hoffer | hgone
        · exact ⟨i, hoffer⟩
        · rw [habs] at hgone
          cases hgone
    · exact ⟨i, hoffer⟩
    · exact absurd hreport (hbefore.reports i)

/-- Operations without a role take one up or leave it; `lids` are those the
new phase reports. -/
theorem Absent.setPhase (h : Absent w) (hoffers : (w.phase j).offers = none)
    (hreports : ∀ lid, p.reports = some lid → w.store.absentFromTable.contains lid = false) :
    Absent (w.setPhase j p) := by
  intro lid habs
  have hlid := h lid habs
  refine ⟨hlid.mirror, fun i hi => ?_, fun row hrow hphone => ?_⟩
  · rcases phase_setPhase w j p i with ⟨-, hsame⟩ | ⟨-, hsame⟩ <;> rw [hsame] at hi
    · cases habs.symm.trans (hreports lid hi)
    · exact hlid.reports i hi
  · obtain ⟨i, hi⟩ := hlid.pairs row hrow hphone
    have hij : i ≠ j := by
      rintro rfl
      rw [hoffers] at hi
      cases hi
    exact ⟨i, (congrArg Phase.offers (update_of_ne hij _ _)).trans hi⟩

/-- Stores that differ in what the absences do not rest on. -/
theorem Absent.setStore (h : Absent w) (habs : s.absentFromTable = w.store.absentFromTable)
    (hm : s.lidToPhone = w.store.lidToPhone) : Absent (w.setStore s) := by
  intro lid hlid
  change s.absentFromTable.contains lid = true at hlid
  rw [habs] at hlid
  have hold := h lid hlid
  exact ⟨(congrArg (Record.get · lid) hm).trans hold.mirror, hold.reports, hold.pairs⟩

theorem contains_noteAbsent {x : Nat}
    (h : (s.noteAbsent lid).absentFromTable.contains x = true) :
    s.absentFromTable.contains x = true ∨ x = lid := by
  unfold Store.noteAbsent at h
  split at h
  · exact .inl h
  · have hmem := List.mem_of_mem_drop (List.contains_iff_mem.mp h)
    split at hmem
    · exact .inl (List.contains_iff_mem.mpr hmem)
    · rcases List.mem_append.mp hmem with hold | hnew
      · exact .inl (List.contains_iff_mem.mpr hold)
      · exact .inr (List.mem_singleton.mp hnew)

/-- An absence is recorded: nothing is known of the lid. -/
theorem Absent.notes (h : Absent w) (ho : Open w) (hw : Warm w)
    (hp : w.phase j = .warmed lid false none) (hraced : w.store.racedLookups lid = false)
    (hc : w.store.cached lid = none) : Absent (w.setStore (w.store.noteAbsent lid)) := by
  obtain ⟨hquiet, habsent⟩ := hw.quiet j lid (by rw [hp]; rfl) hraced
  have hmirror := lidToPhone_noteAbsent w.store lid
  intro x hx
  rcases contains_noteAbsent hx with hold | rfl
  · have hx := h x hold
    exact ⟨(congrArg (Record.get · x) hmirror).trans hx.mirror, hx.reports, hx.pairs⟩
  · refine ⟨(congrArg (Record.get · x) hmirror).trans hc, fun i hi => ?_, fun row hrow _ => ?_⟩
    · obtain ⟨ref, hwrite⟩ := write_of_reports hi
      cases hquiet.symm.trans (ho.holds i x ref hwrite)
    · cases (habsent hp).symm.trans hrow

theorem offers_of_warms (h : p.warms = some lid) : p.offers = none := by
  cases p <;> first | rfl | cases h

/-- Every move keeps the recorded absences true. -/
theorem Absent.move (h : Absent w) (ho : Open w) (hw : Warm w) (hm : Moves w w') : Absent w' := by
  cases hm with
  | stays => exact h
  | @begins j lid operation actual p hu hwrite hwarms hreports =>
    have hstore : Absent (w.setStore (w.store.beginWrite lid operation actual).2) :=
      h.setStore rfl rfl
    refine hstore.setPhase (roles_of_isUnused hu).2.2 ?_
    intro x hx
    obtain ⟨rfl, hentry⟩ := hreports x hx
    -- a lid with an entry is not recorded absent
    rw [Bool.eq_false_iff]
    intro habs
    rw [(h x habs).mirror] at hentry
    cases hentry
  | warms hu hp =>
    refine (h.setStore ?_ ?_).setPhase (roles_of_isUnused hu).2.2 ?_
    · rfl
    · rfl
    · intro x hx
      cases hx
  | reads hp | refuses hp =>
    refine h.setPhase (by rw [hp]; rfl) ?_
    intro x hx
    cases hx
  | ends hp =>
    refine (h.setStore ?_ ?_).setPhase (offers_of_warms hp) ?_
    · rfl
    · rfl
    · intro x hx
      cases hx
  | @notes j lid hp hraced hc =>
    have hnoted := h.notes ho hw hp hraced hc
    have hoffers : (w.phase j).offers = none := by
      rw [hp]
      rfl
    refine (hnoted.setStore ?_ ?_).setPhase hoffers ?_
    · rfl
    · rfl
    · intro x hx
      cases hx

-- ======== the runs

variable {cap : Nat} {table : Record Nat Row}

theorem warm_of_reach (h : system.Reach (World.init cap table) w) : Warm w := by
  refine h.invariant_of (K := Open) (fun t ht => open_of_reach ht) (warm_init cap table) ?_
  intro a t t' ho hw hs
  obtain ⟨v, hquiet, hmoves⟩ := does_step.to hs
  exact (hw.calm ho hquiet.calm).move hmoves

theorem absent_of_reach (h : (system.restrict Finishes).Reach (World.init cap table) w) :
    Absent w := by
  refine h.invariant_of (K := fun t => Open t ∧ Warm t) ?_ (absent_init cap table) ?_
  · intro t ht
    exact ⟨open_of_reach ht.of_restrict, warm_of_reach ht.of_restrict⟩
  · intro a t t' hk habs hs
    obtain ⟨hf, hs⟩ := Machine.restrict_step.mp hs
    obtain ⟨v, hquiet, hmoves⟩ := does_step.to hs
    have hcalm := hquiet.calm
    exact (habs.calm hf hcalm).move (hquiet.opens hk.1) (hk.2.calm hk.1 hcalm) hmoves

/-- The step that records an absence: the table has no row for the lid, the
mirror no entry, and no write of it is under way. -/
theorem noted_of_moves (hw : Warm w) (hm : Moves w w')
    (hbefore : w.store.absentFromTable.contains lid = false)
    (hafter : w'.store.absentFromTable.contains lid = true) :
    w'.table.get lid = none ∧ w'.store.cached lid = none ∧ w'.store.unsettledWrites lid = none := by
  cases hm with
  | @notes j x hp hraced hc =>
    rcases contains_noteAbsent hafter with hsame | hnew
    · cases hbefore.symm.trans hsame
    · rw [hnew]
      obtain ⟨hquiet, habsent⟩ := hw.quiet j x (by rw [hp]; rfl) hraced
      refine ⟨habsent hp, ?_, ?_⟩
      · change (w.store.noteAbsent x).lidToPhone.get x = none
        rw [lidToPhone_noteAbsent]
        exact hc
      · change (w.store.noteAbsent x).unsettledWrites x = none
        rw [(noteAbsent_frame w.store x).2.2]
        exact hquiet
  -- no other move records anything
  | stays | begins | warms | reads | refuses | ends => cases hbefore.symm.trans hafter

/-- **A recorded absence hides no pair.** An absence is recorded only while
the table has no row for the lid, the mirror no entry and no write of it is
under way; so a query that ran before a write of the lid committed records
nothing after it. And in runs where no second statement of a display lookup
is refused, a lid this process has a pair for is not answered from the
recorded absences, a display lookup of it between its insert and its end
apart. -/
theorem absence_hides_no_pair (h : system.Reach (World.init cap table) w) :
    (∀ (a : Act) (w' : World) (lid : Nat), system.step a w = some w' →
      w.store.absentFromTable.contains lid = false →
      w'.store.absentFromTable.contains lid = true →
        w'.table.get lid = none ∧ w'.store.cached lid = none ∧
          ∀ i ref, (w'.phase i).write ≠ some (lid, ref)) ∧
    ((system.restrict Finishes).Reach (World.init cap table) w → ∀ lid, w.Known lid →
      (∀ i, (w.phase i).offers ≠ some lid) → w.answersAbsent lid = false) := by
  constructor
  · intro a w' lid hs hbefore hafter
    have ho := open_of_reach h
    obtain ⟨v, hquiet, hmoves⟩ := does_step.to hs
    have hwarm := (warm_of_reach h).calm ho hquiet.calm
    have hbefore : v.store.absentFromTable.contains lid = false := by
      rw [Bool.eq_false_iff] at hbefore ⊢
      exact fun habs => hbefore (hquiet.calm.store.absent lid habs)
    obtain ⟨htable, hcached, hnone⟩ := noted_of_moves hwarm hmoves hbefore hafter
    refine ⟨htable, hcached, ?_⟩
    intro i ref hi
    rw [((ho.step a).to hs).holds i lid ref hi] at hnone
    cases hnone
  · intro hr lid hknown hoffers
    have habsent := absent_of_reach hr
    rw [Bool.eq_false_iff]
    intro hans
    obtain ⟨hmiss, habs⟩ := Bool.and_eq_true_iff.mp hans
    cases hknown with
    | entry phone hentry =>
      rw [hentry] at hmiss
      cases hmiss
    | report i hi => exact (habsent lid habs).reports i hi
    | row row hrow hphone =>
      obtain ⟨i, hi⟩ := (habsent lid habs).pairs row hrow hphone
      exact hoffers i hi

/-- The lookup of lid 1 reads the table before the report of `5` commits and
is answered after it: the absence is not recorded. -/
theorem absence_hides_no_pair_raced : ∃ w : World, w.Known 1 ∧ w.answersAbsent 1 = false := by
  let acts : List Act :=
    [.getCached 0 1, .exec 0, .remember 1 1 (some 5) none, .exec 1, .reply 1 2, .reply 0 2]
  obtain ⟨w, hrun, hcached, hoffers⟩ : ∃ w, system.run (World.init 2 Record.empty) acts
      = some w ∧ w.store.cached 1 = some (some 5) ∧ ∀ i, (w.phase i).offers = none := by
    refine ⟨_, rfl, rfl, ?_⟩
    intro i
    rcases i with _ | _ | i
    · rfl
    · rfl
    · rfl
  have hfinishes : ∀ a ∈ acts, ∀ t, Finishes a t := by
    intro a ha t j o hfail
    rw [hfail] at ha
    simp [acts] at ha
  have hreach := Machine.reach_of_run hrun
  have hrestricted := Machine.reach_restrict_of_run hrun hfinishes
  have hknown : w.Known 1 := .entry (some 5) hcached
  refine ⟨w, hknown, (absence_hides_no_pair hreach).2 hrestricted 1 hknown ?_⟩
  intro i hi
  rw [hoffers i] at hi
  cases hi

/-- With lid 1 recorded absent, a display lookup inserts the pair `1 ↦ 5`
and its second statement is refused: the row is in the table, no write is
under way, and the lookups of lid 1 are still answered from the recorded
absence. -/
theorem refused_update_hides_pair :
    ∃ w, system.Reach (World.init 2 Record.empty) w ∧ w.Known 1 ∧
      (∀ i, (w.phase i).write = none) ∧ w.answersAbsent 1 = true := by
  let acts : List Act :=
    [.getCached 0 1, .exec 0, .reply 0 1, .rememberIfUnknown 1 1 5 none, .exec 1,
      .reply 1 2, .fail 1, .reply 1 2]
  obtain ⟨w, hrun, hrow, hwrites, hanswers⟩ :
      ∃ w, system.run (World.init 2 Record.empty) acts = some w ∧ w.table.get 1 = some
          { phone := some 5, sessionId := none, isReported := false, updatedAt := 0 } ∧
        (∀ i, (w.phase i).write = none) ∧ w.answersAbsent 1 = true := by
    refine ⟨_, rfl, rfl, ?_, rfl⟩
    intro i
    rcases i with _ | _ | i
    · rfl
    · rfl
    · rfl
  exact ⟨w, Machine.reach_of_run hrun, .row _ hrow rfl, hwrites, hanswers⟩

end OpenWA.Lid

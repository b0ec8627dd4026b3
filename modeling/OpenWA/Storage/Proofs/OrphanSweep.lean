/-
A file is deleted only after its grace.

A first-seen time in the map is the time of a pass that found the file
unreferenced, and no pass has broken the grace since (`Since`): no look
found a reference, and every pass that was completed found the file
unreferenced again. Only a look changes what is tracked, but for the prune
at the end of a pass.
-/
import OpenWA.Storage.OrphanSweep

namespace OpenWA.OrphanSweep

open List

variable {o : Options} {w w' : World} {p : Pass} {file f : Text} {t : Int} {referenced : Bool}
  {reports : List Report}

/-- The grace of a file began with a pass at `t`. -/
inductive Since (f : Text) (t : Int) : List Report → Prop
  | here {r : Report} {before : List Report} (ht : r.now = t) (hf : (f, false) ∈ r.found) :
      Since f t (r :: before)
  | later {r : Report} {before : List Report} (h : Since f t before)
      (hc : r.completed = true → (f, false) ∈ r.found) (hr : (f, true) ∉ r.found) :
      Since f t (r :: before)

/-- A look that finds no reference leaves the grace as it was. -/
theorem Since.note (h : Since f t reports) (hother : file = f → referenced = false) :
    Since f t (Report.note file referenced reports) := by
  cases h with
  | here ht hf => exact .here ht (mem_cons_of_mem _ hf)
  | later h hc hr =>
    refine .later h (fun hdone => mem_cons_of_mem _ (hc hdone)) ?_
    intro hmem
    rcases mem_cons.mp hmem with heq | hold
    · injection heq with hfile htrue
      rw [hother hfile.symm] at htrue
      cases htrue
    · exact hr hold

variable {r : Report} {before : List Report}

theorem Since.complete (h : Since f t (r :: before)) (hf : (f, false) ∈ r.found) :
    Since f t ({ r with completed := true } :: before) := by
  cases h with
  | here ht _ => exact .here ht hf
  | later h _ hr => exact .later h (fun _ => hf) hr

/-- The passes since, one by one. -/
theorem Since.exists_pass (h : Since f t reports) :
    ∃ after r₀ before, reports = after ++ r₀ :: before ∧ r₀.now = t ∧ (f, false) ∈ r₀.found ∧
      ∀ r ∈ after, (r.completed = true → (f, false) ∈ r.found) ∧ (f, true) ∉ r.found := by
  induction h with
  | @here r before ht hf => exact ⟨[], r, before, rfl, ht, hf, fun r hr => by cases hr⟩
  | @later r _ _ hc hr ih =>
    obtain ⟨after, r₀, before, rfl, ht, hf, hafter⟩ := ih
    refine ⟨r :: after, r₀, before, rfl, ht, hf, ?_⟩
    intro r' hr'
    rcases mem_cons.mp hr' with rfl | hold
    · exact ⟨hc, hr⟩
    · exact hafter r' hold

/-- The report of the pass under way. -/
structure Current (o : Options) (p : Pass) (r : Report) : Prop where
  now : r.now = p.now
  orphaned : ∀ f ∈ p.stillOrphaned, (f, false) ∈ r.found
  chunk : ∀ f ∈ p.chunk, o.keyPrefix <+: f
  flushing : ∀ set files, p.flushing = some (set, files) → ∀ f ∈ files, o.keyPrefix <+: f

/-- What the map and the pass say of the reports. -/
structure Inv (o : Options) (w : World) : Prop where
  size : w.firstSeenAt.size ≤ maxTrackedOrphans
  since : ∀ f t, w.firstSeenAt.get f = some t → Since f t w.reports
  pass : ∀ p, w.pass = some p → ∃ r before, w.reports = r :: before ∧ Current o p r

theorem Current.note (h : Current o p r) :
    Current o p { r with found := (file, referenced) :: r.found } :=
  { h with orphaned := fun f hf => mem_cons_of_mem _ (h.orphaned f hf) }

theorem Current.track (h : Current o p r) :
    Current o { p with stillOrphaned := file :: p.stillOrphaned }
      { r with found := (file, false) :: r.found } :=
  { h with
    orphaned := by
      intro f hf
      rcases mem_cons.mp hf with rfl | hold
      · exact mem_cons_self
      · exact mem_cons_of_mem _ (h.orphaned f hold) }

theorem Inv.size_set (h : Inv o w) {v : Int}
    (hroom : ¬ ((w.firstSeenAt.get file).isNone && maxTrackedOrphans ≤ w.firstSeenAt.size) = true) :
    (w.firstSeenAt.set file v).size ≤ maxTrackedOrphans := by
  have hsize := h.size
  rw [Record.size_set]
  split
  next hnone =>
    rw [hnone, Bool.true_and, decide_eq_true_eq] at hroom
    omega
  next => exact hsize

/-- A file that is tracked has a first-seen time that a pass stands for. -/
theorem Inv.tracked (h : Inv o w) (file : Text) (hr : w.reports = r :: before)
    (hp : Current o p r) :
    Since file ((w.firstSeenAt.get file).getD p.now) (Report.note file false w.reports) := by
  cases hknown : w.firstSeenAt.get file with
  | none =>
    rw [hr]
    exact .here hp.now mem_cons_self
  | some t => exact (h.since file t hknown).note fun _ => rfl

/-- A look at a file keeps the invariant; it deletes that file or none, and
only if its grace has passed. -/
theorem Inv.look (h : Inv o w) (hr : w.reports = r :: before) (hp : Current o p r) (set : List Text)
    (removable : Bool) :
    Inv o (w.look o p set file removable) ∧
      ∀ f, (w.look o p set file removable).deleted = w.deleted ++ [f] → f = file ∧
        (w.look o p set file removable).reports = Report.note file false w.reports ∧
        ∃ t, t ≤ p.now - o.graceMs ∧ Since file t (Report.note file false w.reports) := by
  have hkept : ∀ {f t b}, w.firstSeenAt.get f = some t → (file = f → b = false) →
      Since f t (Report.note file b w.reports) := fun hget hb => (h.since _ _ hget).note hb
  unfold World.look
  dsimp only
  split
  · refine ⟨⟨(Record.size_delete_le _ _).trans h.size, ?_, ?_⟩, fun f hd => by simp at hd⟩
    · intro f t hget
      by_cases hf : f = file
      · rw [hf, Record.get_delete_self] at hget
        cases hget
      · rw [Record.get_delete_of_ne _ hf] at hget
        exact hkept hget fun heq => absurd heq.symm hf
    · rintro p' ⟨⟩
      rw [hr]
      exact ⟨_, _, rfl, hp.note⟩
  split
  · refine ⟨⟨h.size, fun f t hget => hkept hget fun _ => rfl, ?_⟩, fun f hd => by simp at hd⟩
    rintro p' ⟨⟩
    rw [hr]
    exact ⟨_, _, rfl, hp.note⟩
  next hroom =>
  have htracked := h.tracked file hr hp
  split
  · refine ⟨⟨h.size_set hroom, ?_, ?_⟩, fun f hd => by simp at hd⟩
    · intro f t hget
      by_cases hf : f = file
      · rw [hf, Record.get_set_self] at hget
        rw [hf, ← Option.some.inj hget]
        exact htracked
      · rw [Record.get_set_of_ne _ _ hf] at hget
        exact hkept hget fun _ => rfl
    · rintro p' ⟨⟩
      rw [hr]
      exact ⟨_, _, rfl, hp.track⟩
  next hgrace =>
  refine ⟨⟨(Record.size_delete_le _ _).trans (h.size_set hroom), ?_, ?_⟩,
    fun f hd => ⟨?_, rfl, _, ?_, htracked⟩⟩
  · intro f t hget
    by_cases hf : f = file
    · rw [hf, Record.get_delete_self] at hget
      cases hget
    · rw [Record.get_delete_of_ne _ hf, Record.get_set_of_ne _ _ hf] at hget
      exact hkept hget fun _ => rfl
  · rintro p' ⟨⟩
    rw [hr]
    refine ⟨_, _, rfl, { hp.note with orphaned := ?_ }⟩
    exact fun f hf => mem_cons_of_mem _ (hp.orphaned f (mem_of_mem_filter hf))
  · exact (singleton_inj.mp (append_cancel_left hd)).symm
  · rw [Bool.or_eq_true, not_or, decide_eq_true_eq] at hgrace
    omega

-- ======== the passes

/-- The pass moves on; nothing else does. -/
theorem Inv.setPass {p' : Pass} (h : Inv o w) (hp : w.pass = some p)
    (hgoes : ∀ r, Current o p r → Current o p' r) : Inv o { w with pass := some p' } :=
  { h with
    pass := by
      rintro q ⟨⟩
      obtain ⟨r, before, hr, hcur⟩ := h.pass p hp
      exact ⟨r, before, hr, hgoes r hcur⟩ }

/-- A prune keeps what the pass found orphaned. -/
theorem get_prune {m : Record Text Int} {stillOrphaned : List Text}
    (h : (World.prune m stillOrphaned).get f = some t) : f ∈ stillOrphaned ∧ m.get f = some t := by
  have hget := Record.lookup_filter_fst (fun k => stillOrphaned.contains k) m.entries f
  obtain ⟨hmem, hold⟩ := Option.ite_none_right_eq_some.mp (hget.symm.trans h)
  exact ⟨contains_iff_mem.mp hmem, hold⟩

/-- What a step that deletes a file has behind it. -/
def Graced (o : Options) (f : Text) (reports : List Report) : Prop :=
  o.keyPrefix <+: f ∧ ∃ r before t, reports = r :: before ∧ (f, false) ∈ r.found ∧
    t ≤ r.now - o.graceMs ∧ Since f t reports

/-- Every step keeps the map, and deletes after the grace only. -/
theorem Inv.step {a : Act} (h : Inv o w) : Leads (fun w' => Inv o w' ∧
    ∀ f, w'.deleted = w.deleted ++ [f] → Graced o f w'.reports) (w.step o a) := by
  unfold World.step
  split
  next now hp =>
    refine ⟨⟨h.size, ?_, ?_⟩, fun f hd => by simp at hd⟩
    · intro f t hget
      exact .later (h.since f t hget) (by simp) (by simp)
    · rintro p ⟨⟩
      exact ⟨_, _, rfl, rfl, by simp, by simp, by simp⟩
  next file p hp =>
    split
    next => trivial
    split
    next hprefix =>
      refine ⟨h.setPass hp fun r hcur => { hcur with chunk := ?_ }, fun f hd => by simp at hd⟩
      intro f hf
      rcases mem_append.mp hf with hold | hnew
      · exact hcur.chunk f hold
      · rw [mem_singleton.mp hnew]
        exact isPrefixOf_iff_prefix.mp hprefix
    next => exact ⟨h, fun f hd => by simp at hd⟩
  next p hp =>
    exact .unless fun _ => ⟨h.setPass hp fun r hcur => { hcur with }, fun f hd => by simp at hd⟩
  next set p hp =>
    refine .unless fun _ => ⟨h.setPass hp fun r hcur => { hcur with chunk := ?_, flushing := ?_ },
      fun f hd => by simp at hd⟩
    · intro f hf
      cases hf
    · rintro set files ⟨⟩
      exact hcur.chunk
  next removable p hp =>
    split
    next set file rest hflush =>
      obtain ⟨r, before, hr, hcur⟩ := h.pass p hp
      have hunder := hcur.flushing set _ hflush
      have hcur' : Current o { p with flushing :=
          if rest.isEmpty then none else some (set, rest) } r :=
        { hcur with
          flushing := by
            intro set' files hfiles
            obtain ⟨-, ⟨⟩⟩ := Option.ite_none_left_eq_some.mp hfiles
            exact fun f hf => hunder f (mem_cons_of_mem _ hf) }
      obtain ⟨hinv, hdel⟩ := h.look hr hcur' set removable
      refine ⟨hinv, fun f hd => ?_⟩
      obtain ⟨rfl, hreports, t, ht, hsince⟩ := hdel f hd
      rw [hreports]
      refine ⟨hunder f mem_cons_self, ?_⟩
      rw [hr] at hsince ⊢
      exact ⟨_, _, t, rfl, mem_cons_self, hcur.now ▸ ht, hsince⟩
    next => trivial
  next p hp =>
    obtain ⟨r, before, hr, hcur⟩ := h.pass p hp
    refine .unless fun _ => ⟨⟨(length_filter_le _ _).trans h.size, ?_, fun q hq => by cases hq⟩,
      fun f hd => by simp at hd⟩
    intro f t hget
    obtain ⟨hmem, hold⟩ := get_prune hget
    have hsince := h.since f t hold
    rw [hr] at hsince ⊢
    exact hsince.complete (hcur.orphaned f hmem)
  next p hp =>
    exact .unless fun _ => ⟨{ h with pass := fun q hq => by cases hq }, fun f hd => by simp at hd⟩
  next => trivial

/-- **Orphans get their grace.** At most `maxTrackedOrphans` files are tracked,
and a file is deleted only if it is under the prefix, the pass under way has
found it unreferenced, and a pass at least the grace window before it has; no
pass since that one found the file referenced, and each that was completed
found it unreferenced. -/
theorem orphan_sweep_grace (o : Options) {w : World} (hr : (sweeper o).Reach World.start w) :
    w.firstSeenAt.size ≤ maxTrackedOrphans ∧
    ∀ a w' f, (sweeper o).step a w = some w' → w'.deleted = w.deleted ++ [f] →
      o.keyPrefix <+: f ∧
      (∃ r before, w'.reports = r :: before ∧ (f, false) ∈ r.found ∧
        ∃ after r₀ before, w'.reports = after ++ r₀ :: before ∧ r₀.now ≤ r.now - o.graceMs ∧
          (f, false) ∈ r₀.found ∧
          ∀ r ∈ after, (r.completed = true → (f, false) ∈ r.found) ∧ (f, true) ∉ r.found) := by
  have hinv : Inv o w := by
    refine hr.invariant ⟨Nat.zero_le _, ?_, ?_⟩ fun a t t' ht hs => (ht.step.to hs).1
    · intro f t hget
      cases hget
    · intro p hp
      cases hp
  refine ⟨hinv.size, ?_⟩
  intro a w' f hs hd
  obtain ⟨hunder, r, before, t, hreports, hfound, ht, hsince⟩ := (hinv.step.to hs).2 f hd
  obtain ⟨after, r₀, before', hsplit, rfl, hfirst, hafter⟩ := hsince.exists_pass
  exact ⟨hunder, r, before, hreports, hfound, after, r₀, before', hsplit, ht, hfirst, hafter⟩

/-- Of two files found at time 0 one is referenced. A pass at time 4 is
aborted, and the pass at time 9 deletes the other file. -/
theorem orphan_sweep_grace_second_pass :
    let o : Options := ⟨['m'], 5, none⟩
    let pass (now : Int) : List Act :=
      [.begin now, .list ['m', 'a'], .list ['m', 'b'], .endWalk, .flush [['m', 'b']]]
    let aborted : List Act := [.begin 4, .list ['m', 'a'], .abort]
    ∃ w w', (sweeper o).run World.start
        (pass 0 ++ [.look true, .look true, .finish] ++ aborted ++ pass 9) = some w ∧
      (sweeper o).step (.look true) w = some w' ∧ w'.deleted = w.deleted ++ [['m', 'a']] ∧
      o.keyPrefix <+: ['m', 'a'] ∧
      ∃ after r₀ before, w'.reports = after ++ r₀ :: before ∧ (['m', 'a'], false) ∈ r₀.found ∧
        ∀ r ∈ after, (['m', 'a'], true) ∉ r.found := by
  intro o pass aborted
  have hrun : ((sweeper o).run World.start
      (pass 0 ++ [.look true, .look true, .finish] ++ aborted ++ pass 9)).any
      (fun w => ((sweeper o).step (.look true) w).any fun w' =>
        w'.deleted = w.deleted ++ [['m', 'a']]) = true := by decide
  obtain ⟨w, hw, hlook⟩ := (Option.any_eq_true _ _).mp hrun
  obtain ⟨w', hs, hd⟩ := (Option.any_eq_true _ _).mp hlook
  have hd' := of_decide_eq_true hd
  obtain ⟨hunder, _, _, _, _, after, r₀, before, hsplit, _, hfound, hafter⟩ :=
    (orphan_sweep_grace o (Machine.reach_of_run hw)).2 _ w' _ hs hd'
  exact ⟨w, w', hw, hs, hd', hunder, after, r₀, before, hsplit, hfound,
    fun r hr => (hafter r hr).2⟩

end OpenWA.OrphanSweep

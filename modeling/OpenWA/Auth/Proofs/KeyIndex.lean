/-
The active-key index misses no write.

# The argument

Loads do not overlap: while one runs, `refreshSoon` only sets
`reloadAgain`, and the loop clears the flag in the step that starts the
next load. So at any time the last load started after every call of
`refreshSoon`, or the flag is set and the loop has not looked yet
(`Tracked.covered`), and what the index holds was read before the load
that runs now was started (`LoadOk`).

`lag` counts the steps the running load still has to take before a load
that started after a given call. Every step of the loader lowers it and no
other step raises it.
-/
import OpenWA.Auth.KeyIndex

namespace OpenWA.Auth

open List

-- ======== the table

/-- The index has a key exactly if a row has its hash. -/
theorem get_foldl_set {rows : List KeyRow} (hnodup : (rows.map KeyRow.keyHash).Nodup)
    (keys : Record Text IndexedKey) (h : Text) (k : IndexedKey) :
    (rows.foldl (fun keys row => keys.set row.keyHash row.indexed) keys).get h = some k
      ↔ (∃ row ∈ rows, row.keyHash = h ∧ row.indexed = k)
        ∨ keys.get h = some k ∧ ∀ row ∈ rows, row.keyHash ≠ h := by
  induction rows generalizing keys with
  | nil => simp
  | cons row rows ih =>
    obtain ⟨hnot, hnodup'⟩ := nodup_cons.mp hnodup
    rw [foldl_cons, ih hnodup']
    by_cases hh : h = row.keyHash
    · have hrows : ∀ r ∈ rows, r.keyHash ≠ h := by
        rintro r hr rfl
        exact hnot (hh ▸ mem_map_of_mem hr)
      rw [hh, Record.get_set_self]
      grind
    · rw [Record.get_set_of_ne _ _ hh]
      grind

/-- The index a load builds holds the active keys, and no others. -/
theorem KeyRows.get_active (table : KeyRows) (h : Text) (k : IndexedKey) :
    table.active.get h = some k
      ↔ ∃ row ∈ table.rows, row.isActive = true ∧ row.keyHash = h ∧ row.indexed = k := by
  have hnodup : ((table.rows.filter KeyRow.isActive).map KeyRow.keyHash).Nodup :=
    table.nodup.sublist (filter_sublist.map KeyRow.keyHash)
  simp [KeyRows.active, get_foldl_set hnodup, and_assoc]

-- ======== the invariant

namespace KeyIndex

variable {w w' : KeyIndex} {act : IndexAct}

/-- What a step can do, with what it needs. -/
inductive Moves (w : KeyIndex) : IndexAct → KeyIndex → Prop
  | write (table : KeyRows) :
      Moves w (.write table) { w.commit table with
        unrefreshed := w.unrefreshed + 1
        lastWrite := w.version + 1 }
  | wrote (h : 0 < w.unrefreshed) :
      Moves w .wrote ({ w with unrefreshed := w.unrefreshed - 1 } : KeyIndex).refreshSoon
  | writeDirectly (table : KeyRows) : Moves w (.writeDirectly table) (w.commit table)
  | refresh : Moves w .refresh w.refreshSoon
  | select (h : w.loading = some .selecting) :
      Moves w .select { w with loading := some (.selected w.version) }
  | store {v : Nat} (h : w.loading = some (.selected v)) :
      Moves w .store { w with
        loading := some .settled
        keys := (w.tableAt v).active
        readAt := v
        lastLoad := some true }
  | fail (h : w.loading ≠ none) (h' : w.loading ≠ some .settled) :
      Moves w .fail { w with loading := some .settled, lastLoad := some false }
  | turn (h : w.loading = some .settled) : Moves w .turn w.turn
  | destroy : Moves w .destroy { w with destroyed := true }

/-- Every step is one of the moves. -/
theorem moves_of_step (hs : keyIndex.step act w = some w') : Moves w act w' := by
  cases act with
  | write table => cases hs; exact .write table
  | wrote =>
    obtain ⟨h, ⟨⟩⟩ := Option.ite_none_right_eq_some.mp hs
    exact .wrote h
  | writeDirectly table => cases hs; exact .writeDirectly table
  | refresh => cases hs; exact .refresh
  | select | store | fail | turn =>
    simp only [keyIndex] at hs
    split at hs
    all_goals cases hs
    all_goals first
      | exact .select ‹_›
      | exact .store ‹_›
      | exact .turn ‹_›
      | exact .fail (by simp [*]) (by simp [*])
  | destroy => cases hs; exact .destroy

/-- What a load is about to replace was read before it started, and what it
reads it reads afterwards. -/
def LoadOk (w : KeyIndex) : Option Load → Prop
  | some .selecting => w.readAt ≤ w.startedAt
  | some (.selected v) => w.readAt ≤ w.startedAt ∧ w.startedAt ≤ v ∧ v ≤ w.version
  | _ => w.lastLoad = some true → w.startedAt ≤ w.readAt

/-- What holds between the index and the table in every run. -/
structure Tracked (w : KeyIndex) : Prop where
  startedAt_le : w.startedAt ≤ w.version
  askedAt_le : w.askedAt ≤ w.version
  lastWrite_le : w.lastWrite ≤ w.version
  readAt_le : w.readAt ≤ w.version
  load : LoadOk w w.loading
  held : w.lastLoad = some true → w.keys = (w.tableAt w.readAt).active
  /-- No call of `refreshSoon` is left behind. -/
  covered : w.destroyed = false → w.loading = none ∨ w.reloadAgain = false →
    w.started = w.asked ∧ w.askedAt ≤ w.startedAt
  written : w.destroyed = false → w.unrefreshed = 0 → w.lastWrite ≤ w.askedAt

theorem tracked_new (table : KeyRows) : Tracked (new table) where
  startedAt_le := Nat.le_refl 0
  askedAt_le := Nat.le_refl 0
  lastWrite_le := Nat.le_refl 0
  readAt_le := Nat.le_refl 0
  load h := by cases h
  held h := by cases h
  covered _ _ := ⟨rfl, Nat.le_refl 0⟩
  written _ _ := Nat.le_refl 0

section

variable (hw : Tracked w)
include hw

theorem Tracked.loaded {load : Option Load} (h : w.loading = load) : LoadOk w load := h ▸ hw.load

theorem Tracked.commit (table : KeyRows) : Tracked (w.commit table) where
  startedAt_le := Nat.le_succ_of_le hw.startedAt_le
  askedAt_le := Nat.le_succ_of_le hw.askedAt_le
  lastWrite_le := Nat.le_succ_of_le hw.lastWrite_le
  readAt_le := Nat.le_succ_of_le hw.readAt_le
  load := by
    have hload := hw.load
    unfold LoadOk at hload ⊢
    grind [KeyIndex.commit]
  held h := by
    have hne : w.readAt ≠ w.version + 1 := by
      have hle := hw.readAt_le
      omega
    show w.keys = (if w.readAt = w.version + 1 then table else w.tableAt w.readAt).active
    rw [if_neg hne]
    exact hw.held h
  covered := hw.covered
  written := hw.written

theorem Tracked.write (table : KeyRows) :
    Tracked { w.commit table with
      unrefreshed := w.unrefreshed + 1
      lastWrite := w.version + 1 } :=
  { hw.commit table with
    lastWrite_le := Nat.le_refl _
    written := fun _ h => absurd h (Nat.succ_ne_zero _) }

/-- A call, by a write that was waiting to make it or by the timer. -/
theorem Tracked.refreshSoon (n : Nat) :
    Tracked ({ w with unrefreshed := n } : KeyIndex).refreshSoon := by
  unfold KeyIndex.refreshSoon
  by_cases hdestroyed : w.destroyed = true
  · rw [if_pos hdestroyed]
    exact { hw with
      written := fun h => absurd (hdestroyed.symm.trans h) (by simp) }
  · rw [if_neg hdestroyed]
    by_cases hloading : w.loading.isSome = true
    · rw [if_pos hloading]
      exact { hw with
        askedAt_le := Nat.le_refl _
        covered := fun _ h => by
          rcases h with hnone | hflag
          · rw [hnone] at hloading
            cases hloading
          · cases hflag
        written := fun _ _ => hw.lastWrite_le }
    · rw [if_neg hloading]
      exact { hw with
        startedAt_le := Nat.le_refl _
        askedAt_le := Nat.le_refl _
        load := hw.readAt_le
        covered := fun _ _ => ⟨rfl, Nat.le_refl _⟩
        written := fun _ _ => hw.lastWrite_le }

theorem Tracked.select (hloading : w.loading = some .selecting) :
    Tracked { w with loading := some (.selected w.version) } :=
  { hw with
    load := ⟨hw.loaded hloading, hw.startedAt_le, Nat.le_refl _⟩
    covered := fun hlive h => hw.covered hlive (.inr (h.resolve_left (by simp))) }

theorem Tracked.store {v : Nat} (hloading : w.loading = some (.selected v)) :
    Tracked { w with
      loading := some .settled
      keys := (w.tableAt v).active
      readAt := v
      lastLoad := some true } :=
  { hw with
    readAt_le := (hw.loaded hloading).2.2
    load := fun _ => (hw.loaded hloading).2.1
    held := fun _ => rfl
    covered := fun hlive h => hw.covered hlive (.inr (h.resolve_left (by simp))) }

theorem Tracked.fail : Tracked { w with loading := some .settled, lastLoad := some false } :=
  { hw with
    load := fun h => by cases h
    held := fun h => by cases h
    covered := fun hlive h => hw.covered hlive (.inr (h.resolve_left (by simp))) }

theorem Tracked.turn (hloading : w.loading = some .settled) : Tracked w.turn := by
  unfold KeyIndex.turn
  by_cases hagain : (w.reloadAgain && !w.destroyed) = true
  · rw [if_pos hagain]
    exact { hw with
      startedAt_le := Nat.le_refl _
      load := hw.readAt_le
      covered := fun _ _ => ⟨rfl, hw.askedAt_le⟩ }
  · rw [if_neg hagain]
    exact { hw with
      load := hw.loaded hloading
      covered := fun hlive _ => by
        refine hw.covered hlive (.inr ?_)
        have hlive' : w.destroyed = false := hlive
        simpa [hlive'] using hagain }

theorem Tracked.destroy : Tracked { w with destroyed := true } :=
  { hw with
    covered := fun h => by cases h
    written := fun h => by cases h }

theorem Tracked.step (hs : keyIndex.step act w = some w') : Tracked w' := by
  cases moves_of_step hs with
  | write table => exact hw.write table
  | wrote _ => exact hw.refreshSoon (w.unrefreshed - 1)
  | writeDirectly table => exact hw.commit table
  | refresh => exact hw.refreshSoon w.unrefreshed
  | select hloading => exact hw.select hloading
  | store hloading => exact hw.store hloading
  | fail _ _ => exact hw.fail
  | turn hloading => exact hw.turn hloading
  | destroy => exact hw.destroy

end

theorem tracked_reach {table : KeyRows} (hr : keyIndex.Reach (new table) w) : Tracked w :=
  hr.invariant (tracked_new table) fun _ _ _ hw hs => hw.step hs

-- ======== the loads

/-- How many steps a running load takes at most until the loop looks at
`reloadAgain`. -/
def remaining : Option Load → Nat
  | none => 0
  | some .selecting => 3
  | some (.selected _) => 2
  | some .settled => 1

/-- The steps until a load starts that the `k`-th call is before. -/
def lag (k : Nat) (w : KeyIndex) : Nat := if k ≤ w.started then 0 else remaining w.loading

/-- A call leaves the load as it is, or starts one after every call. -/
theorem refreshSoon_spec (w : KeyIndex) :
    w.asked ≤ w.refreshSoon.asked ∧ w.refreshSoon.destroyed = w.destroyed
    ∧ (w.asked ≤ w.refreshSoon.started
      ∨ w.refreshSoon.started = w.started
        ∧ remaining w.refreshSoon.loading ≤ remaining w.loading) := by
  unfold KeyIndex.refreshSoon
  split
  · exact ⟨Nat.le_refl _, rfl, .inr ⟨rfl, Nat.le_refl _⟩⟩
  · dsimp only
    split
    · exact ⟨Nat.le_succ _, rfl, .inr ⟨rfl, Nat.le_refl _⟩⟩
    · exact ⟨Nat.le_succ _, rfl, .inl (Nat.le_succ _)⟩

/-- A step takes no call back, and starts a load after every call so far or
brings the running one nearer to its end. -/
theorem step_spec (hs : keyIndex.step act w = some w') :
    w.asked ≤ w'.asked ∧ (act ≠ .destroy → w'.destroyed = w.destroyed)
    ∧ (w.asked ≤ w'.started
      ∨ w'.started = w.started
        ∧ remaining w'.loading + (if act.ofLoader then 1 else 0) ≤ remaining w.loading) := by
  cases moves_of_step hs with
  | write | writeDirectly => exact ⟨Nat.le_refl _, fun _ => rfl, .inr ⟨rfl, Nat.le_refl _⟩⟩
  | destroy => exact ⟨Nat.le_refl _, fun h => absurd rfl h, .inr ⟨rfl, Nat.le_refl _⟩⟩
  | wrote _ =>
    obtain ⟨hasked, hlive, hload⟩ := refreshSoon_spec { w with unrefreshed := w.unrefreshed - 1 }
    exact ⟨hasked, fun _ => hlive, hload⟩
  | refresh =>
    obtain ⟨hasked, hlive, hload⟩ := refreshSoon_spec w
    exact ⟨hasked, fun _ => hlive, hload⟩
  | select h | store h =>
    refine ⟨Nat.le_refl _, fun _ => rfl, .inr ⟨rfl, ?_⟩⟩
    rw [h]
    exact Nat.le_refl _
  | fail h h' =>
    refine ⟨Nat.le_refl _, fun _ => rfl, .inr ⟨rfl, ?_⟩⟩
    show 1 + 1 ≤ remaining w.loading
    cases hloading : w.loading with
    | none => exact absurd hloading h
    | some load =>
      cases load with
      | selecting => decide
      | selected v => exact Nat.le_refl 2
      | settled => exact absurd hloading h'
  | turn h =>
    unfold KeyIndex.turn
    split
    · exact ⟨Nat.le_refl _, fun _ => rfl, .inl (Nat.le_refl _)⟩
    · refine ⟨Nat.le_refl _, fun _ => rfl, .inr ⟨rfl, ?_⟩⟩
      rw [h]
      exact Nat.le_refl _

/-- Every step of the loader lowers the lag, and no step raises it. -/
theorem lag_step {k : Nat} (hk : k ≤ w.asked) (hs : keyIndex.step act w = some w') :
    lag k w' ≤ lag k w - (if act.ofLoader then 1 else 0) := by
  unfold lag
  rcases (step_spec hs).2.2 with hstart | ⟨hsame, hle⟩
  · rw [if_pos (hk.trans hstart)]
    exact Nat.zero_le _
  · rw [hsame]
    split
    · exact Nat.zero_le _
    · exact Nat.le_sub_of_add_le hle

/-- Each step of the loader brings a request closer to its load. -/
theorem lag_run {k : Nat} {acts : List IndexAct} (hk : k ≤ w.asked)
    (hrun : keyIndex.run w acts = some w') :
    lag k w' ≤ lag k w - acts.countP IndexAct.ofLoader := by
  revert hk
  refine Machine.run_induction hrun (fun _ => Nat.le_refl _) fun hs ih hk => ?_
  have hrest := ih (hk.trans (step_spec hs).1)
  have hfirst := lag_step hk hs
  rw [countP_cons]
  omega

theorem lag_le (k : Nat) (w : KeyIndex) : lag k w ≤ 3 := by
  unfold lag
  split
  · exact Nat.zero_le 3
  · cases w.loading with
    | none => exact Nat.zero_le 3
    | some load => cases load <;> simp [remaining]

section

variable (hw : Tracked w) (hlive : w.destroyed = false)
include hw hlive

/-- Without lag, a load has started after the call. -/
theorem Tracked.started_of_lag {k : Nat}
    (hk : k ≤ w.asked) (hlag : lag k w = 0) : k ≤ w.started := by
  unfold lag at hlag
  split at hlag
  next h => exact h
  next =>
    have hnone : w.loading = none := by
      cases hloading : w.loading with
      | none => rfl
      | some load =>
        rw [hloading] at hlag
        cases load <;> cases hlag
    rw [(hw.covered hlive (.inl hnone)).1]
    exact hk

-- ======== the result

theorem Tracked.run {acts : List IndexAct}
    (hacts : ∀ act ∈ acts, act ≠ .destroy) (hrun : keyIndex.run w acts = some w') :
    Tracked w' ∧ w'.destroyed = false ∧ w.asked ≤ w'.asked := by
  revert hw hlive hacts
  refine Machine.run_induction hrun (fun hw hlive _ => ⟨hw, hlive, Nat.le_refl _⟩) ?_
  intro act rest t t' hs ih hw hlive hacts
  obtain ⟨hmore, hsame, -⟩ := step_spec hs
  obtain ⟨hw', hlive', hasked⟩ := ih (hw.step hs) ((hsame (hacts act mem_cons_self)).trans hlive)
    fun a ha => hacts a (mem_cons_of_mem act ha)
  exact ⟨hw', hlive', hmore.trans hasked⟩

/-- A load that is wanted is never stuck. -/
theorem Tracked.enabled
    (hbehind : w.started < w.asked) :
    ∃ act w', act.ofLoader = true ∧ keyIndex.step act w = some w' := by
  cases hloading : w.loading with
  | none =>
    have hcovered := (hw.covered hlive (.inl hloading)).1
    omega
  | some load =>
    cases load with
    | selecting => exact ⟨.select, _, rfl, by simp only [keyIndex, hloading]; rfl⟩
    | selected v => exact ⟨.store, _, rfl, by simp only [keyIndex, hloading]; rfl⟩
    | settled => exact ⟨.turn, _, rfl, by simp only [keyIndex, hloading]; rfl⟩

end

/-- Until the module is destroyed: after every call of `refreshSoon` a load
starts, which three steps of the loader bring about whatever happens between
them and which nothing blocks; a load never replaces what was read after it
had started; and with no load running and the last one good, the index holds
the active keys of the table as it was at the last write or later. -/
theorem index_misses_no_write (table : KeyRows) (hr : keyIndex.Reach (new table) w)
    (hlive : w.destroyed = false) :
    (∀ acts w', keyIndex.run w acts = some w' → (∀ act ∈ acts, act ≠ .destroy) →
      3 ≤ acts.countP IndexAct.ofLoader → w.asked ≤ w'.started)
    ∧ (w.started < w.asked → ∃ act w', act.ofLoader = true ∧ keyIndex.step act w = some w')
    ∧ (∀ w', keyIndex.step .store w = some w' → w.readAt ≤ w.startedAt ∧ w.startedAt ≤ w'.readAt)
    ∧ (w.loading = none → w.lastLoad = some true → w.unrefreshed = 0 →
        ∃ v, w.lastWrite ≤ v ∧ v ≤ w.version ∧ ∀ h k, w.keys.get h = some k
          ↔ ∃ row ∈ (w.tableAt v).rows,
              row.isActive = true ∧ row.keyHash = h ∧ row.indexed = k) := by
  have hw := tracked_reach hr
  refine ⟨?_, hw.enabled hlive, ?_, ?_⟩
  · intro acts w' hrun hacts hcount
    obtain ⟨hw', hlive', hasked⟩ := hw.run hlive hacts hrun
    have hlag := lag_run (Nat.le_refl w.asked) hrun
    have hle := lag_le w.asked w
    exact hw'.started_of_lag hlive' hasked (by omega)
  · intro w' hs
    cases moves_of_step hs with
    | store hloading =>
      exact ⟨(hw.loaded hloading).1, (hw.loaded hloading).2.1⟩
  · intro hnone hgood hall
    refine ⟨w.readAt, ?_, hw.readAt_le, ?_⟩
    · calc w.lastWrite ≤ w.askedAt := hw.written hlive hall
        _ ≤ w.startedAt := (hw.covered hlive (.inl hnone)).2
        _ ≤ w.readAt := hw.loaded hnone hgood
    · intro h k
      rw [hw.held hgood]
      exact (w.tableAt w.readAt).get_active h k

/-- A key is written while a load is under way, after its SELECT: the call
queues one more load, which finds the key. -/
theorem index_misses_no_write_during_load :
    ∃ w, keyIndex.Reach (new ⟨[], nodup_nil⟩) w ∧ w.destroyed = false ∧ w.lastWrite = 1
      ∧ ∃ v, 1 ≤ v ∧ ∀ h k, w.keys.get h = some k
        ↔ ∃ row ∈ (w.tableAt v).rows, row.isActive = true ∧ row.keyHash = h ∧ row.indexed = k := by
  let row : KeyRow := { keyHash := ['k'], isActive := true, allowedIps := none, expiresAt := none }
  obtain ⟨w, hr, hw⟩ := Machine.exists_reach_of_run (M := keyIndex) (new ⟨[], nodup_nil⟩)
    [.refresh, .select, .write ⟨[row], nodup_singleton _⟩, .wrote, .store, .turn, .select,
      .store, .turn]
    (fun w : KeyIndex => decide (w.destroyed = false ∧ w.loading = none ∧ w.lastLoad = some true
      ∧ w.unrefreshed = 0 ∧ w.lastWrite = 1)) (by decide +kernel)
  obtain ⟨hlive, hnone, hgood, hall, hwrite⟩ := of_decide_eq_true hw
  obtain ⟨-, -, -, hindex⟩ := index_misses_no_write _ hr hlive
  obtain ⟨v, hle, -, hkeys⟩ := hindex hnone hgood hall
  exact ⟨w, hr, hlive, hwrite, v, hwrite ▸ hle, hkeys⟩

end KeyIndex

end OpenWA.Auth

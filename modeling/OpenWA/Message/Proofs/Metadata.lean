/-
No metadata change is lost: the row is always the replay of what was written
to it, each successful call's change applied to the metadata it found there.

A call holds a snapshot and what its change made of it. Its update matches
only a row whose text is the snapshot's own text, so reading that row gives
the snapshot again (`snapshot_of_unchanged`) and what is written is the change
of the metadata that is there, whoever wrote to the row in between.
-/
import OpenWA.Lib.Log
import OpenWA.Message.Metadata

namespace OpenWA.Message

open Function (update update_self update_of_ne)

variable {M : Type} {codec : JsonCodec M} {change : Nat → Option M → Option M}
  {row : Row} {snapshot : Option M}

/-- A row that matches a snapshot reads as the snapshot. -/
theorem snapshot_of_unchanged
    (h : row.unchanged codec snapshot = true) :
    row.revoked = false ∧ row.snapshot codec = some snapshot := by
  unfold Row.unchanged at h
  rw [Bool.and_eq_true, Bool.not_eq_true'] at h
  obtain ⟨hlive, hcolumn⟩ := h
  refine ⟨hlive, ?_⟩
  unfold Row.snapshot
  cases snapshot with
  | none =>
    rw [Option.isNone_iff_eq_none.mp hcolumn]
  | some m =>
    rw [of_decide_eq_true hcolumn]
    exact codec.parse_stringify m

-- ======== the steps

/-- What a step may do: a call moves on without a write, a call writes its
change, or someone else writes. -/
inductive Moves (codec : JsonCodec M) (change : Nat → Option M → Option M) :
    World M → World M → Prop
  | moves {w : World M} (k : Nat) (c : Call M) (hbefore : (w.call k).isReturned = false)
      (hafter : c.isReturned = false)
      (hwriting : ∀ attempt snapshot metadata, c = .writing attempt snapshot metadata →
        change k snapshot = some metadata) :
      Moves codec change w (w.setCall k c)
  | writes {w : World M} (k : Nat) (row : Row) (attempt : Nat) (snapshot : Option M)
      (metadata : M) (hcall : w.call k = .writing attempt snapshot metadata)
      (hrow : w.row = some row) (hsame : row.unchanged codec snapshot = true) :
      Moves codec change w
        ((w.setRow (some (row.store codec metadata)) (.change k)).setCall k (.returned metadata))
  | others {w : World M} (e : Effect) (he : ∀ k, e ≠ .change k) :
      Moves codec change w (w.setRow (applyEffect codec change w.row e) e)

variable {w w' : World M} {k : Nat}

theorem isReturned_again (attempt : Nat) : (again attempt : Call M).isReturned = false := by
  unfold again
  split
  · rfl
  · rfl

variable {metadata : M}

theorem again_ne_writing {attempt attempt' : Nat} :
    again attempt ≠ .writing attempt' snapshot metadata := by
  unfold again
  split
  · intro h
    cases h
  · intro h
    cases h

variable (codec change) in
/-- A call that reads ends, or is about to write its change. -/
theorem found_cases (k attempt : Nat) (row : Option Row) :
    (found codec change k attempt row).isReturned = false ∧
    ∀ attempt' snapshot metadata,
      found codec change k attempt row = .writing attempt' snapshot metadata →
      change k snapshot = some metadata := by
  unfold found
  split
  · exact ⟨rfl, fun _ _ _ h => by cases h⟩
  · split
    · exact ⟨rfl, fun _ _ _ h => by cases h⟩
    · split
      · exact ⟨rfl, fun _ _ _ h => by cases h⟩
      · split
        · exact ⟨rfl, fun _ _ _ h => by cases h⟩
        next snapshot _ metadata hchange =>
          refine ⟨rfl, ?_⟩
          intro attempt' snapshot' metadata' h
          cases h
          exact hchange

theorem moves_find : Leads (Moves codec change w) (w.find codec change k) := by
  unfold World.find
  split
  next attempt hcall =>
    obtain ⟨hreturned, hwriting⟩ := found_cases codec change k attempt w.row
    exact .moves k _ (by rw [hcall]; rfl) hreturned hwriting
  next => trivial

theorem moves_update : Leads (Moves codec change w) (w.tryUpdate codec k) := by
  unfold World.tryUpdate
  split
  next attempt snapshot metadata hcall =>
    have hretry : Moves codec change w (w.setCall k (again attempt)) := by
      refine .moves k _ (by rw [hcall]; rfl) (isReturned_again attempt) ?_
      intro attempt' snapshot' metadata' h
      exact absurd h again_ne_writing
    unfold World.write
    split
    next row hrow =>
      split
      next hsame => exact .writes k row attempt snapshot metadata hcall hrow hsame
      next => exact hretry
    next => exact hretry
  next => trivial

/-- Every step is one of the moves. -/
theorem moves_of_step {a : Act} :
    Leads (Moves codec change w) ((metadataWrites codec change).step a w) := by
  cases a with
  | start k =>
    change Leads _ (w.begin k)
    unfold World.begin
    split
    next hcall =>
      refine .moves k _ (by rw [hcall]; rfl) rfl ?_
      intro _ _ _ h
      cases h
    next => trivial
  | find k => exact moves_find
  | update k => exact moves_update
  | fail k =>
    change Leads _ (w.fail k)
    unfold World.fail
    split
    next hcall =>
      refine .moves k _ (by rw [hcall]; rfl) rfl ?_
      intro _ _ _ h
      cases h
    next hcall =>
      refine .moves k _ (by rw [hcall]; rfl) rfl ?_
      intro _ _ _ h
      cases h
    next => trivial
  | revoke =>
    exact .others .revoke fun k h => by cases h
  | other row =>
    exact .others (.other row) fun k h => by cases h

-- ======== the invariant

/-- The call changed the metadata this row held. -/
def Applied (codec : JsonCodec M) (change : Nat → Option M → Option M) (w : World M) (k : Nat)
    (before : Option Row) : Prop :=
  ∃ row snapshot metadata, before = some row ∧ row.revoked = false ∧
    row.snapshot codec = some snapshot ∧ change k snapshot = some metadata ∧
    w.call k = .returned metadata

/-- The row is what its log makes of the first row. -/
structure Composed (codec : JsonCodec M) (change : Nat → Option M → Option M)
    (start : Option Row) (w : World M) : Prop where
  row : w.row = Log.replay (applyEffect codec change) start w.log
  writing : ∀ k attempt snapshot metadata, w.call k = .writing attempt snapshot metadata →
    change k snapshot = some metadata
  once : ∀ k, w.log.count (.change k) = if (w.call k).isReturned then 1 else 0
  applied : Log.Met (applyEffect codec change)
    (fun before e => ∀ k, e = .change k → Applied codec change w k before) start w.log

variable {start : Option Row}

theorem composed_init : Composed codec change start (World.init start) where
  row := rfl
  writing := by
    intro k attempt snapshot metadata h
    cases h
  once := fun _ => rfl
  applied := Log.met_nil

section

variable (h : Composed codec change start w)
include h

/-- A call that has not returned has no entry. -/
theorem Composed.notMem (hk : (w.call k).isReturned = false) : Effect.change k ∉ w.log := by
  apply List.count_eq_zero.mp
  rw [h.once k, hk]
  rfl

/-- What a call has written is not touched by the other calls. -/
theorem Composed.applied_setCall {v : World M}
    (hk : (w.call k).isReturned = false) (hv : ∀ i, i ≠ k → v.call i = w.call i) :
    Log.Met (applyEffect codec change)
      (fun before e => ∀ i, e = .change i → Applied codec change v i before) start w.log := by
  refine h.applied.imp ?_
  intro before e he hmet i hi
  obtain ⟨row, snapshot, metadata, hrow, hlive, hread, hchange, hcall⟩ := hmet i hi
  have hne : i ≠ k := by
    intro heq
    rw [hi, heq] at he
    exact h.notMem hk he
  exact ⟨row, snapshot, metadata, hrow, hlive, hread, hchange, (hv i hne).trans hcall⟩

theorem Composed.moves {c : Call M}
    (hbefore : (w.call k).isReturned = false) (hafter : c.isReturned = false)
    (hwriting : ∀ attempt snapshot metadata, c = .writing attempt snapshot metadata →
      change k snapshot = some metadata) : Composed codec change start (w.setCall k c) where
  row := h.row
  writing := by
    intro i attempt snapshot metadata hi
    change update w.call k c i = _ at hi
    by_cases hik : i = k
    · rw [hik, update_self] at hi
      rw [hik]
      exact hwriting attempt snapshot metadata hi
    · rw [update_of_ne hik] at hi
      exact h.writing i attempt snapshot metadata hi
  once := by
    intro i
    change w.log.count _ = if (update w.call k c i).isReturned then 1 else 0
    by_cases hik : i = k
    · rw [hik, update_self, hafter, h.once k, hbefore]
    · rw [update_of_ne hik]
      exact h.once i
  applied := h.applied_setCall hbefore fun i hi => update_of_ne hi _ _

/-- A call writes its change to the row it finds. -/
theorem Composed.writes {attempt : Nat} (hcall : w.call k = .writing attempt snapshot metadata)
    (hrow : w.row = some row) (hsame : row.unchanged codec snapshot = true) :
    Composed codec change start
      ((w.setRow (some (row.store codec metadata)) (.change k)).setCall k
        (.returned metadata)) := by
  obtain ⟨hlive, hread⟩ := snapshot_of_unchanged hsame
  have hchange := h.writing k attempt snapshot metadata hcall
  have hreturned : (w.call k).isReturned = false := by
    rw [hcall]
    rfl
  constructor
  · change some (row.store codec metadata) = _
    rw [World.setCall, World.setRow, Log.replay_snoc, ← h.row, hrow]
    simp only [applyEffect, Option.map_some, hread, hchange]
  · intro i attempt' snapshot' metadata' hi
    change update w.call k (.returned metadata) i = _ at hi
    by_cases hik : i = k
    · rw [hik, update_self] at hi
      cases hi
    · rw [update_of_ne hik] at hi
      exact h.writing i attempt' snapshot' metadata' hi
  · intro i
    change (w.log ++ [Effect.change k]).count _
      = if (update w.call k (.returned metadata) i).isReturned then 1 else 0
    rw [List.count_append, h.once i]
    by_cases hik : i = k
    · rw [hik, update_self, hreturned]
      simp [Call.isReturned]
    · have hne : (Effect.change k == Effect.change i) = false := by
        simpa using Ne.symm hik
      rw [update_of_ne hik, List.count_singleton, hne]
      simp
  · refine Log.met_snoc (h.applied_setCall hreturned fun i hi => update_of_ne hi _ _) ?_
    intro i hi
    cases hi
    rw [← h.row]
    exact ⟨row, snapshot, metadata, hrow, hlive, hread, hchange, update_self _ _ _⟩

/-- Someone else writes. -/
theorem Composed.others {e : Effect}
    (he : ∀ k, e ≠ .change k) :
    Composed codec change start (w.setRow (applyEffect codec change w.row e) e) where
  row := by
    rw [World.setRow, Log.replay_snoc, ← h.row]
  writing := h.writing
  once := by
    intro i
    have hne : (e == Effect.change i) = false := by
      simpa using he i
    change List.count _ (w.log ++ [e]) = if (w.call i).isReturned then 1 else 0
    rw [List.count_append, h.once i, List.count_singleton, hne]
    simp
  applied := Log.met_snoc h.applied fun k hk => absurd hk (he k)

end

/-- In every run the row is what its log makes of it. -/
theorem composed_of_reach (h : (metadataWrites codec change).Reach (World.init start) w) :
    Composed codec change start w := by
  refine h.invariant composed_init ?_
  intro a v v' hv hs
  cases moves_of_step.to hs with
  | moves k c hbefore hafter hwriting => exact hv.moves hbefore hafter hwriting
  | writes k row attempt snapshot metadata hcall hrow hsame =>
    exact hv.writes hcall hrow hsame
  | others e he => exact hv.others he

/-- **No metadata change is lost.** The row is the replay of the writes. A
call that returned a value is in it exactly once, any other call not at all;
and where it is, its change was applied to the metadata the row held
immediately before, on a row that was not revoked. -/
theorem metadata_change_never_lost
    (h : (metadataWrites codec change).Reach (World.init start) w) :
    w.row = Log.replay (applyEffect codec change) start w.log ∧
    (∀ k, w.log.count (.change k) = if (w.call k).isReturned then 1 else 0) ∧
    ∀ k before after, w.log = before ++ .change k :: after →
      ∃ row snapshot metadata,
        Log.replay (applyEffect codec change) start before = some row ∧
        row.revoked = false ∧ row.snapshot codec = some snapshot ∧
        change k snapshot = some metadata ∧ w.call k = .returned metadata ∧
        Log.replay (applyEffect codec change) start (before ++ [.change k])
          = some (row.store codec metadata) := by
  have hw := composed_of_reach h
  refine ⟨hw.row, hw.once, ?_⟩
  intro k before after hlog
  obtain ⟨row, snapshot, metadata, hrow, hlive, hread, hchange, hcall⟩ :=
    hw.applied before (.change k) after hlog k rfl
  refine ⟨row, snapshot, metadata, hrow, hlive, hread, hchange, hcall, ?_⟩
  rw [Log.replay_snoc, hrow]
  simp only [applyEffect, Option.map_some, hread, hchange]

/-- What stands between two quotes. -/
def parseQuoted : Text → Option (Option Text)
  | '"' :: t => if t.getLast? = some '"' then some (some t.dropLast) else none
  | _ => none

/-- Metadata that is one text, quoted. -/
def quotedText : JsonCodec Text where
  stringify := fun t => '"' :: t ++ ['"']
  parse := parseQuoted
  parse_stringify := fun t => by simp [parseQuoted]

/-- Each call appends a letter. -/
def appendLetter (k : Nat) (snapshot : Option Text) : Option Text :=
  some (snapshot.getD [] ++ [if k = 0 then 'a' else 'b'])

/-- Two calls that read the same row: the second to write reads again. The
row is then revoked, and a third call finds nothing. -/
def overlappingChanges : List Act :=
  [.start 0, .start 1, .find 0, .find 1, .update 1, .update 0, .find 0, .start 2, .find 2,
    .update 0, .revoke, .update 2, .find 2]

/-- Two overlapping changes and a revoke: none is lost. -/
theorem metadata_change_never_lost_overlapping :
    ∃ w : World Text,
      (metadataWrites quotedText appendLetter).Reach (World.init (some ⟨false, none⟩)) w ∧
      w.log = [.change 1, .change 0, .revoke] ∧ w.call 0 = .returned ['b', 'a'] ∧
      w.call 2 = .absent ∧
      w.row = Log.replay (applyEffect quotedText appendLetter) (some ⟨false, none⟩) w.log := by
  obtain ⟨w, hreach, hw⟩ := Machine.exists_reach_of_run
    (M := metadataWrites quotedText appendLetter) (World.init (some ⟨false, none⟩))
    overlappingChanges
    (fun w : World Text => decide (w.log = [.change 1, .change 0, .revoke] ∧
      w.call 0 = .returned ['b', 'a'] ∧ w.call 2 = .absent)) (by decide)
  obtain ⟨hlog, hfirst, hlast⟩ := of_decide_eq_true hw
  exact ⟨w, hreach, hlog, hfirst, hlast, (metadata_change_never_lost hreach).1⟩

end OpenWA.Message

/-
No use of an API key is lost or counted twice.

A use is in the row, in the pending map or in the hands of one call. Each
turn moves a delta from one of these to another; a `record` adds one use.
-/
import OpenWA.Auth.Usage

namespace OpenWA.Auth.Usage

open Function (update update_self update_of_ne)

variable {w w' : World} {k keyId : Text} {delta i : Nat}

/-- What a batch holds of a key. -/
def owed (k : Text) : List (Text × Nat) → Nat
  | [] => 0
  | e :: batch => (if e.1 = k then e.2 else 0) + owed k batch

/-- The deltas of the writes a call has in progress. -/
def Call.holds (k : Text) : Call → Nat
  | .recording apiKey pending => owed k [(apiKey.id, pending)]
  | .recordRefused apiKey pending => owed k [(apiKey.id, pending)]
  | .flushing keyId delta batch => owed k ((keyId, delta) :: batch)
  | .flushRefused keyId delta batch => owed k ((keyId, delta) :: batch)
  | .incremented batch => owed k batch
  | .recorded _ => 0
  | .flushed => 0

/-- The deltas of the writes in progress. -/
def inProgress (k : Text) : List Call → Nat
  | [] => 0
  | call :: calls => call.holds k + inProgress k calls

/-- Where the uses of a key are. -/
def World.total (w : World) (k : Text) : Nat :=
  (w.rows k).usageCount + w.pendingOf k + inProgress k w.calls

/-- The action records a use of the key. -/
def Act.isUse (k : Text) : Act → Bool
  | .record apiKey _ => apiKey.id = k
  | _ => false

-- ======== the parts

theorem owed_entries {batch : List (Text × Nat)} (h : (batch.map Prod.fst).Nodup) :
    owed k batch = (Record.get ⟨batch, h⟩ k).getD 0 := by
  induction batch with
  | nil => rfl
  | cons e batch ih =>
    obtain ⟨hnew, hrest⟩ := List.nodup_cons.mp h
    have hget : (Record.get ⟨e :: batch, h⟩ k) = _ := Record.lookup_cons_eq_ite k e.1 e.2 batch
    rw [owed, ih hrest, hget]
    by_cases hk : e.1 = k
    · rw [if_pos hk, if_pos hk.symm, Record.get_of_notMem (hk ▸ hnew)]
      rfl
    · rw [if_neg hk, if_neg (Ne.symm hk), Nat.zero_add]
      rfl

theorem holds_next (batch : List (Text × Nat)) : (World.next batch).holds k = owed k batch := by
  induction batch with
  | nil => rfl
  | cons e batch ih =>
    rw [World.next, owed]
    split
    next hzero => simp only [ih, hzero, ite_self, Nat.zero_add]
    next => rfl

theorem inProgress_append (calls : List Call) (call : Call) :
    inProgress k (calls ++ [call]) = inProgress k calls + call.holds k := by
  induction calls with
  | nil => exact Nat.add_comm _ _
  | cons c calls ih => rw [List.cons_append, inProgress, ih, inProgress, Nat.add_assoc]

theorem inProgress_set {calls : List Call} {call : Call} (h : calls[i]? = some call)
    (call' : Call) :
    inProgress k (calls.set i call') + call.holds k = inProgress k calls + call'.holds k := by
  induction calls generalizing i with
  | nil => cases h
  | cons c calls ih =>
    cases i with
    | zero =>
      cases h
      rw [List.set_cons_zero, inProgress, inProgress]
      omega
    | succ i =>
      have hrest := ih h
      rw [List.set_cons_succ, inProgress, inProgress]
      omega

theorem getD_set (r : Record Text Nat) (n : Nat) :
    ((r.set keyId n).get k).getD 0 = if keyId = k then n else (r.get k).getD 0 := by
  split
  next h => rw [h, Record.get_set_self, Option.getD_some]
  next h => rw [Record.get_set_of_ne _ _ (Ne.symm h)]

theorem getD_delete (r : Record Text Nat) :
    ((r.delete keyId).get k).getD 0 = if keyId = k then 0 else (r.get k).getD 0 := by
  split
  next h => rw [h, Record.get_delete_self, Option.getD_none]
  next h => rw [Record.get_delete_of_ne _ (Ne.symm h)]

theorem usageCount_update (delta : Nat) {row : Row}
    (h : row.usageCount = (w.rows keyId).usageCount + delta) :
    (update w.rows keyId row k).usageCount
      = (w.rows k).usageCount + if keyId = k then delta else 0 := by
  split
  next hk => rw [← hk, update_self, h]
  next hk => rw [update_of_ne (Ne.symm hk), Nat.add_zero]

theorem pendingOf_giveBack :
    (w.giveBack keyId delta).pendingOf k = w.pendingOf k + if keyId = k then delta else 0 := by
  refine (getD_set w.pending _).trans ?_
  split
  next h => rw [h]
  next => rfl

-- ======== the turns

/-- A call moves on, and its deltas with it. -/
theorem total_setCall {v : World} {call call' : Call} (h : w.calls[i]? = some call)
    (hcalls : v.calls = w.calls)
    (hmoved : (v.rows k).usageCount + v.pendingOf k + call'.holds k
      = (w.rows k).usageCount + w.pendingOf k + call.holds k) :
    (v.setCall i call').total k = w.total k := by
  have hsum := inProgress_set (k := k) h call'
  have htotal : (v.setCall i call').total k = (v.rows k).usageCount + v.pendingOf k
    + inProgress k (v.calls.set i call') := rfl
  rw [htotal, hcalls, World.total]
  omega

/-- A call begins. -/
theorem total_begin (pending : Record Text Nat) (call : Call) :
    World.total { w with pending := pending, calls := w.calls ++ [call] } k =
      (w.rows k).usageCount + (pending.get k).getD 0 + (inProgress k w.calls + call.holds k) := by
  rw [← inProgress_append]
  rfl

theorem total_record (apiKey : ApiKey) (now : Int) :
    (w.record apiKey now).total k = w.total k + if apiKey.id = k then 1 else 0 := by
  have hpending : apiKey.id = k → w.pendingOf apiKey.id = (w.pending.get k).getD 0 := by
    rintro rfl
    rfl
  have htotal : w.total k = _ + (w.pending.get k).getD 0 + _ := rfl
  unfold World.record
  dsimp only
  split
  · rw [total_begin, getD_delete, htotal, Call.holds, owed, owed]
    split <;> grind
  · rw [total_begin, getD_set, htotal, Call.holds]
    split <;> grind

theorem total_flushOnShutdown : w.flushOnShutdown.total k = w.total k := by
  unfold World.flushOnShutdown
  split
  · rfl
  · rw [total_begin, holds_next, owed_entries w.pending.nodup]
    show _ + 0 + (_ + w.pendingOf k) = _
    unfold World.total
    omega

theorem total_execute : Leads (fun w' => w'.total k = w.total k) (w.execute i) := by
  unfold World.execute
  split
  next apiKey pending hcall =>
    refine total_setCall hcall rfl ?_
    dsimp only [Call.holds, owed]
    rw [usageCount_update pending rfl]
    show _ + w.pendingOf k + _ = _
    omega
  next keyId delta batch hcall =>
    refine total_setCall hcall rfl ?_
    dsimp only [Call.holds, owed]
    rw [usageCount_update delta rfl]
    show _ + w.pendingOf k + _ = _
    omega
  next => trivial

theorem total_refuse : Leads (fun w' => w'.total k = w.total k) (w.refuse i) := by
  unfold World.refuse
  split
  next hcall => exact total_setCall hcall rfl rfl
  next hcall => exact total_setCall hcall rfl rfl
  next => trivial

theorem total_resume : Leads (fun w' => w'.total k = w.total k) (w.resume i) := by
  unfold World.resume
  split
  next hcall =>
    refine total_setCall hcall rfl ?_
    rw [pendingOf_giveBack]
    dsimp only [World.giveBack, Call.holds, owed]
    omega
  next hcall =>
    refine total_setCall hcall rfl ?_
    rw [holds_next]
    rfl
  next hcall =>
    refine total_setCall hcall rfl ?_
    rw [pendingOf_giveBack, holds_next]
    dsimp only [World.giveBack, Call.holds, owed]
    omega
  next => trivial

/-- A step adds a use to the total, or moves uses about. -/
theorem total_step {a : Act} :
    Leads (fun w' => w'.total k = w.total k + if a.isUse k then 1 else 0) (tracker.step a w) := by
  cases a with
  | record apiKey now =>
    refine (total_record ..).trans ?_
    simp [Act.isUse]
  | flushOnShutdown => exact total_flushOnShutdown
  | execute i => exact total_execute
  | refuse i => exact total_refuse
  | resume i => exact total_resume

/-- Over a run the total grows by the uses. -/
theorem total_run {acts : List Act} (h : tracker.run w acts = some w') :
    w'.total k = w.total k + acts.countP (Act.isUse k) := by
  refine Machine.run_induction h rfl fun hs ih => ?_
  rw [ih, total_step.to hs, List.countP_cons]
  omega

/-- **Uses are conserved.** After any turns, what the row of a key counts,
what is pending and what the writes in progress carry are together the count
the row had at the start and the uses recorded since. -/
theorem uses_conserved {rows : Text → Row} {acts : List Act}
    (h : tracker.run (World.start rows) acts = some w) (k : Text) :
    (w.rows k).usageCount + w.pendingOf k + inProgress k w.calls
      = (rows k).usageCount + acts.countP (Act.isUse k) := total_run h

/-- A use is recorded while the write of the two before it is under way, and
the write fails. -/
theorem uses_conserved_refused :
    let fresh : ApiKey := ⟨['a'], none, 5⟩
    let stale : ApiKey := ⟨['a'], some 0, 5⟩
    let acts : List Act := [.record stale 1, .record fresh 2, .record stale 3, .refuse 1, .resume 1,
      .flushOnShutdown, .record stale 4, .execute 3]
    ∃ w, tracker.run (World.start fun _ => ⟨none, 5⟩) acts = some w ∧
      (w.rows ['a']).usageCount = 8 ∧
      (w.rows ['a']).usageCount + w.pendingOf ['a'] + inProgress ['a'] w.calls = 5 + 4 := by
  intro fresh stale acts
  have hrun : (tracker.run (World.start fun _ => ⟨none, 5⟩) acts).any
      (fun w => (w.rows ['a']).usageCount = 8) = true := by decide
  obtain ⟨w, hw, hcount⟩ := (Option.any_eq_true _ _).mp hrun
  exact ⟨w, hw, of_decide_eq_true hcount, uses_conserved hw ['a']⟩

end OpenWA.Auth.Usage

/-
An accepted send ends as one SENT row with its payload, whatever the
echo, the reaper, the acks and the other metadata writers do meanwhile.

# Ending

The send's next statement is always enabled, every statement brings it
closer to its end (`Phase.rank`), and no other writer sets it back. So it
ends, and the theorem says how: in every state from then on.
-/
import OpenWA.Send.Proofs.Persist

namespace OpenWA.Send

variable {s : Accepted} {w v : World}

-- ======== one step

/-- Every step keeps the invariant. -/
theorem Inv.step {a : Act} (h : Inv s w) : Leads (Inv s) ((service s).step a w) := by
  cases a with
  | persist => exact h.persist
  | reapFind k => exact h.reapFind
  | reapWrite k now => exact h.reapWrite
  | echoInsert k e => exact h.echoInsert
  | echoFind k => exact h.echoFind
  | echoGiveUp k => exact h.echoGiveUp
  | echoMerge k => exact h.echoMerge
  | echoReplace k => exact h.echoReplace
  | ack target => exact h.ack
  | annotate change => exact h.annotate
  | revoke =>
    apply h.updateWhere
    intro v _ r hp
    exact touched_revoked hp
  | archiveKeep ofOwn key =>
    exact h.updateRow_same ofOwn fun v hl => touched_point key hl
  | archiveReplace ofOwn key => exact h.archiveReplace
  | dropMarker ofOwn =>
    exact h.updateRow_same ofOwn fun v hl => touched_purge hl
  | clearPath ofOwn =>
    exact h.updateRow_same ofOwn fun v hl => touched_clear hl

theorem inv_of_reach (hr : (service s).Reach (.init s) w) : Inv s w :=
  hr.leads (inv_init s) fun _ _ h => h.step

-- ======== progress

/-- How far the send is from its end. -/
def Phase.rank : Phase → Nat
  | .first => 12
  | .second => 11
  | .merging _ left => 6 + 2 * left
  | .swapping _ left _ => 5 + 2 * left
  | .keepPending => 4
  | .keepFailed => 3
  | .stamping => 2
  | .deleting => 1
  | .ended => 0

theorem rank_recover (s : Accepted) (reaped : Bool) : (World.recover s reaped).rank < 11 := by
  unfold World.recover
  split
  · split <;> simp [Phase.rank]
  · simp [Phase.rank]

theorem rank_swapLost (reaped : Bool) (left : Nat) :
    (World.swapLost reaped left).rank < 5 + 2 * left := by
  cases left with
  | zero => cases reaped <;> simp [World.swapLost, Phase.rank]
  | succ left =>
    show 6 + 2 * left < 5 + 2 * (left + 1)
    omega

section

variable (s : Accepted) (w : World)

theorem rank_writeSent : (w.writeSent s).phase.rank < 12 := by
  have hrec := rank_recover s false
  unfold World.writeSent
  split
  · split
    · split
      · show (World.recover s false).rank < 12
        omega
      · simp [Phase.rank]
    · simp [Phase.rank]
  · simp [Phase.rank]

theorem rank_writeReaped : (w.writeReaped s).phase.rank < 11 := by
  unfold World.writeReaped
  split
  · split
    · exact rank_recover s true
    · simp [Phase.rank]
  · simp [Phase.rank]

theorem rank_mergeRead (reaped : Bool)
    (left : Nat) : (w.mergeRead s reaped left).phase.rank < 6 + 2 * left := by
  unfold World.mergeRead
  split
  · show 5 + 2 * left < 6 + 2 * left
    omega
  · show 2 < 6 + 2 * left
    omega

theorem rank_mergeSwap (reaped : Bool)
    (left : Nat) (snapshot : Option Metadata) :
    (w.mergeSwap s reaped left snapshot).phase.rank < 5 + 2 * left := by
  unfold World.mergeSwap
  split
  · show 2 < 5 + 2 * left
    omega
  · exact rank_swapLost reaped left

theorem rank_keepPending : (w.keepPending s).phase.rank < 4 := by
  unfold World.keepPending
  split
  · split <;> simp [Phase.rank]
  · simp [Phase.rank]

theorem rank_keepFailed : (w.keepFailed s).phase.rank < 3 := by
  unfold World.keepFailed
  split
  · split <;> simp [Phase.rank]
  · simp [Phase.rank]

end

/-- The send's next statement is enabled and brings it closer to its
end. -/
theorem persist_advances (s : Accepted) (hne : w.phase ≠ .ended) :
    ∃ v, w.persist s = some v ∧ v.phase.rank < w.phase.rank := by
  unfold World.persist
  cases hp : w.phase with
  | first => exact ⟨_, rfl, rank_writeSent s w⟩
  | second => exact ⟨_, rfl, rank_writeReaped s w⟩
  | merging reaped left => exact ⟨_, rfl, rank_mergeRead s w reaped left⟩
  | swapping reaped left snapshot =>
    exact ⟨_, rfl, rank_mergeSwap s w reaped left snapshot⟩
  | keepPending => exact ⟨_, rfl, rank_keepPending s w⟩
  | keepFailed => exact ⟨_, rfl, rank_keepFailed s w⟩
  | stamping | deleting => exact ⟨_, rfl, by simp [Phase.rank]⟩
  | ended => exact absurd hp hne

/-- The other writers leave the send where it is. -/
theorem phase_of_step {a : Act} (hs : (service s).step a w = some v)
    (hne : a ≠ .persist) : v.phase = w.phase := by
  cases a with
  | persist => exact absurd rfl hne
  | reapFind k =>
    change w.reapFind k = some v at hs
    unfold World.reapFind at hs
    grind
  | reapWrite k now =>
    change w.reapWrite k now = some v at hs
    unfold World.reapWrite at hs
    grind
  | echoInsert k e =>
    change w.echoInsert s k e = some v at hs
    unfold World.echoInsert World.setEcho at hs
    grind
  | echoFind k =>
    change w.echoFind s k = some v at hs
    unfold World.echoFind World.setEcho at hs
    grind
  | echoGiveUp k =>
    change w.echoGiveUp k = some v at hs
    unfold World.echoGiveUp World.setEcho at hs
    grind
  | echoMerge k =>
    change w.echoMerge s k = some v at hs
    unfold World.echoMerge World.setEcho World.updateWhere at hs
    grind
  | echoReplace k =>
    change w.echoReplace s k = some v at hs
    unfold World.echoReplace World.setEcho World.updateWhere at hs
    grind
  | ack target =>
    change w.ack s target = some v at hs
    unfold World.ack World.updateWhere at hs
    grind
  | annotate change =>
    change w.annotate s change = some v at hs
    unfold World.annotate World.updateWhere at hs
    grind
  | revoke =>
    obtain rfl := Option.some.inj hs
    rfl
  | archiveKeep ofOwn key =>
    obtain rfl := Option.some.inj hs
    cases ofOwn <;> rfl
  | archiveReplace ofOwn key =>
    change w.archiveReplace ofOwn key = some v at hs
    unfold World.archiveReplace World.updateRow at hs
    grind
  | dropMarker ofOwn | clearPath ofOwn =>
    obtain rfl := Option.some.inj hs
    cases ofOwn <;> rfl

-- ======== the ending

/-- What a settled send leaves. -/
structure Ending (s : Accepted) (w : World) : Prop where
  /-- Exactly one row carries the engine's id. -/
  one : (w.rows.filter (Row.carries s.id)).length = 1
  /-- It is SENT or further. -/
  sent : ∀ r ∈ w.rows, r.carries s.id = true → r.status.accepted = true
  /-- The own row is that row, or gone, or SENT without an id. -/
  own : ∀ o, w.own = some o → o.carries s.id = true ∨ o.waMessageId = none ∧ o.status = .sent
  open_none : ∀ r ∈ w.rows, r.status ≠ .pending ∧ r.status ≠ .failed
  /-- Unless the message was revoked or its media archived, a row holds
  the payload. -/
  payload : ∀ d, s.payload = some d → (∀ r ∈ w.rows, r.type ≠ revokedType) →
    w.archived = false → ∃ r ∈ w.rows, Held s w.echoes r d

theorem not_open_of_accepted {r : Row} (h : r.status.accepted = true) :
    r.status ≠ .pending ∧ r.status ≠ .failed := by
  constructor
  · intro hp
    rw [hp] at h
    cases h
  · intro hf
    rw [hf] at h
    cases h

theorem not_carries_of_none {r : Row} (h : r.waMessageId = none) : r.carries s.id = false := by
  unfold Row.carries
  rw [h]
  rfl

/-- One row is left, and it carries the id. -/
theorem ending_of_single {r : Row} (hrows : w.rows = [r])
    (hown : ∀ o, w.own = some o → o = r) (hl : Landed s r) (hp : Payload s w r) : Ending s w := by
  have hc := carries_iff.2 hl.id
  have hall (r' : Row) (hr' : r' ∈ w.rows) : r' = r := by
    rw [hrows] at hr'
    exact List.mem_singleton.1 hr'
  refine ⟨?_, ?_, ?_, ?_, ?_⟩
  · rw [hrows, List.filter_cons_of_pos hc]
    rfl
  · intro r' hr' _
    exact hall r' hr' ▸ hl.status
  · intro o ho
    exact .inl (hown o ho ▸ hc)
  · intro r' hr'
    exact hall r' hr' ▸ not_open_of_accepted hl.status
  · intro d hd ht ha
    have hmem : r ∈ w.rows := by
      rw [hrows]
      exact List.mem_singleton_self r
    exact ⟨r, hmem, hp d hd (ht r hmem) ha⟩

theorem ending_of_both {o e : Row} (ho : w.own = some o)
    (he : w.echo = some e) (hl : Landed s e) (hr : Retained s o) :
    Ending s w := by
  have hrows : w.rows = [o, e] := by
    unfold World.rows
    rw [ho, he]
    rfl
  have hc := carries_iff.2 hl.id
  have hnot : ¬ o.carries s.id = true := by
    rw [not_carries_of_none hr.id]
    exact Bool.false_ne_true
  have hacc : o.status.accepted = true := by
    rw [hr.status]
    rfl
  have hall (r : Row) (hmem : r ∈ w.rows) : r.status.accepted = true := by
    rw [hrows] at hmem
    rcases List.mem_cons.1 hmem with rfl | hmem
    · exact hacc
    · exact List.mem_singleton.1 hmem ▸ hl.status
  refine ⟨?_, ?_, ?_, ?_, ?_⟩
  · rw [hrows, List.filter_cons_of_neg hnot, List.filter_cons_of_pos hc]
    rfl
  · intro r hmem _
    exact hall r hmem
  · intro o' ho'
    obtain rfl := Option.some.inj (ho.symm.trans ho')
    exact .inr ⟨hr.id, hr.status⟩
  · intro r hmem
    exact not_open_of_accepted (hall r hmem)
  · intro d hd _ _
    refine ⟨o, ?_, .inl (hr.bytes d hd)⟩
    rw [hrows]
    exact List.mem_cons_self

/-- A send that has settled ends with one row. -/
theorem ending_of_settled (h : Inv s w) (hs : Settled s w) : Ending s w := by
  cases hs with
  | own o ho he hl hp =>
    have hrows : w.rows = [o] := by
      unfold World.rows
      rw [ho, he]
      rfl
    apply ending_of_single hrows _ hl hp
    intro o' ho'
    exact Option.some.inj (ho'.symm.trans ho)
  | echo e ho he hp =>
    have hrows : w.rows = [e] := by
      unfold World.rows
      rw [ho, he]
      rfl
    apply ending_of_single hrows _ (h.echo e he).1 hp
    intro o ho'
    rw [ho] at ho'
    cases ho'
  | both o e ho he hr => exact ending_of_both ho he (h.echo e he).1 hr

/-- An accepted send ends as one SENT row with its payload. In every run
of the send among the writers of its message, the send reaches its end —
its next statement is enabled and brings it closer, and nobody sets it
back — and from then on: exactly one row carries the engine's id, and is
SENT or further; the own row is that row, or deleted, or SENT without an
id; no row is PENDING or FAILED; and unless the message was revoked, the
media only a URL, or archived, a row holds the inline payload (of a
forward placeholder: that or the bytes an echo delivered for it). -/
theorem accepted_send_settles (hr : (service s).Reach (.init s) w) :
    (w.phase ≠ .ended → ∃ v, (service s).step .persist w = some v ∧ v.phase.rank < w.phase.rank)
    ∧ (∀ a v, (service s).step a w = some v → a ≠ .persist → v.phase = w.phase)
    ∧ (w.phase = .ended → Ending s w) := by
  have hi := inv_of_reach hr
  refine ⟨persist_advances s, ?_, ?_⟩
  · intro a v hs hne
    exact phase_of_step hs hne
  · intro hended
    have hok := hi.phase
    rw [hended] at hok
    exact ending_of_settled hi hok

/-- A picture whose bytes the send holds. -/
def picture : Accepted where
  id := "3EB0".toList
  timestamp := 7
  type := "image".toList
  body := []
  stored := some (withMedia ⟨some "aGk=".toList, "image/png".toList, false, false⟩)
  metadata := some (withMedia ⟨some "aGk=".toList, "image/png".toList, false, false⟩)
  changed := {}
  id_ne := by decide
  unlisted := fun _ => rfl
  listed := by
    intro m hm
    cases hm

/-- Its echo, which brings only a marker. -/
def pictureEcho : Echo where
  type := "image".toList
  body := []
  timestamp := 6
  metadata := some (withMedia ⟨none, [], true, false⟩)
  engine_type := by decide

/-- The reaper strips the row before the engine's answer is stored, the
echo takes the id, and reactions win every swap. -/
def lostSwaps : List Act :=
  let reaction (n : Text) : Act := .annotate (.single "reactions".toList (.other n))
  [.reapFind 0, .reapWrite 0 "now".toList, .echoInsert 0 pictureEcho,
    .ack .delivered, .persist, .persist,
    .persist, reaction "1".toList, .persist,
    .persist, reaction "2".toList, .persist,
    .persist, reaction "3".toList, .persist, .persist]

/-- The own row survives with the bytes the reaper had taken. -/
theorem accepted_send_settles_lost_swaps :
    ∃ w, (service picture).Reach (.init picture) w
      ∧ w.own.any (fun o => o.status = .sent ∧ o.bytes = some "aGk=".toList) = true
      ∧ Ending picture w := by
  obtain ⟨w, hr, hw⟩ := Machine.exists_reach_of_run (M := service picture) (.init picture) lostSwaps
    (fun w => w.phase = .ended && w.own.any fun o =>
      o.status = .sent ∧ o.bytes = some "aGk=".toList) (by decide +kernel)
  obtain ⟨hended, hown⟩ := Bool.and_eq_true_iff.1 hw
  obtain ⟨-, -, hending⟩ := accepted_send_settles hr
  exact ⟨w, hr, hown, hending (of_decide_eq_true hended)⟩

end OpenWA.Send

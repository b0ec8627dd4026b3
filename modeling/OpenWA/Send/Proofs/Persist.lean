/-
The statements of `persistSentState` keep the invariant.

# The two recoveries

A unique violation means the echo's row holds the id, and it stays there.
From then on the send either puts its payload on that row and deletes its
own, or leaves its own row SENT without the id. In the first case the
merge decides: it carries the payload over, finds the row revoked, or
finds the media archived. In the second the write under the PENDING guard
leaves the stored metadata alone, and the write under the FAILED guard
restores it.
-/
import OpenWA.Send.Proofs.Steps

namespace OpenWA.Send

variable {s : Accepted} {w v : World}

-- ======== the payload

variable {d : Text} {r e : Row} {reaped : Bool}

theorem bytes_of_payload (h : s.payload = some d) : s.metadata.bind bytesOf = some d := by
  exact (Option.filter_eq_some_iff.1 h).1

theorem metadata_of_payload (h : s.payload = some d) :
    ∃ m, s.metadata = some m ∧ bytesOf m = some d := by
  have hb := bytes_of_payload h
  cases hm : s.metadata with
  | none =>
    rw [hm] at hb
    cases hb
  | some m =>
    rw [hm] at hb
    exact ⟨m, rfl, hb⟩

/-- A URL pointer is no payload. -/
theorem payload_of_urlPointer {m : Metadata} (hm : s.metadata = some m)
    (hurl : isUrlPointerMetadata m = true) : s.payload = none := by
  cases hp : s.payload with
  | none => rfl
  | some d =>
    have hb := bytes_of_payload hp
    have hnot := (Option.filter_eq_some_iff.1 hp).2
    rw [hm] at hb
    have hdata : (mediaOf m).bind Media.data = some d := (Option.filter_eq_some_iff.1 hb).1
    unfold isUrlPointerMetadata at hurl
    rw [hdata] at hurl
    have hd : isMediaUrlPointer d = true := hurl
    simp [hd] at hnot

/-- The row shows the payload once the copy in memory was written. -/
theorem bytes_restore (h : s.payload = some d) : (s.restore r).bytes = some d := by
  obtain ⟨m, hm, hb⟩ := metadata_of_payload h
  show (s.metadata.or r.metadata).bind bytesOf = some d
  rw [hm]
  exact hb

/-- The PENDING row shows it too, whether or not metadata is listed. -/
theorem bytes_patch (hr : r.metadata = s.stored) (h : s.payload = some d) :
    (s.patch r).bytes = some d := by
  have hb := bytes_of_payload h
  show (s.changed.metadata.or r.metadata).bind bytesOf = some d
  cases hc : s.changed.metadata with
  | none =>
    rw [hr, ← s.unlisted hc]
    exact hb
  | some m =>
    rw [s.listed m hc] at hb
    exact hb

-- ======== the own statements

/-- What the send may rely on where it stands. -/
theorem Inv.phaseAt {p : Phase} (h : Inv s w) (hp : w.phase = p) : PhaseOk s w p := hp ▸ h.phase

theorem Settled.toPhase (h : Settled s w) (p : Phase) : Settled s { w with phase := p } := by
  cases h with
  | own o ho he hl hp => exact .own o ho he hl hp
  | echo e ho he hp => exact .echo e ho he hp
  | both o e ho he hr => exact .both o e ho he hr

/-- The send moves on; no row changes. -/
theorem Inv.toPhase {p : Phase} (h : Inv s w) (hun : p.unmerged = true → w.phase.unmerged = true)
    (hp : PhaseOk s w p) : Inv s { w with phase := p } where
  own_type := h.own_type
  echo := h.echo
  replacing := h.replacing
  marker := fun hu => h.marker (hun hu)
  phase := by
    cases p with
    | ended => exact Settled.toPhase hp _
    | _ => exact hp

variable {o : Row} {left : Nat} {f : Row → Row}

/-- The send writes its own row and is done. -/
theorem Inv.settle (h : Inv s w) (ht : o.type = forwardType → s.type = forwardType)
    (hs : Settled s { w with own := some o }) :
    Inv s { w with own := some o, phase := .ended } where
  own_type := by
    intro o' ho'
    obtain rfl := Option.some.inj ho'
    exact ht
  echo := h.echo
  replacing := h.replacing
  marker := by
    intro hu
    cases hu
  phase := hs.toPhase _

theorem taken_of_echo (h : Inv s w) (he : w.echo = some e) : w.taken s.id = true := by
  unfold World.taken
  rw [he]
  exact carries_iff.2 (h.echo e he).1.id

theorem echo_of_taken (ht : w.taken s.id = true) : ∃ e, w.echo = some e := by
  unfold World.taken at ht
  cases he : w.echo with
  | none =>
    rw [he] at ht
    cases ht
  | some e => exact ⟨e, rfl⟩

theorem echo_none_of_not_taken (h : Inv s w) (ht : ¬ w.taken s.id = true) : w.echo = none := by
  cases he : w.echo with
  | none => rfl
  | some e => exact absurd (taken_of_echo h he) ht

theorem Waiting.weaken (h : Waiting s reaped r) : Waiting s false r := by
  refine ⟨h.id, h.path, ?_⟩
  rcases h.status with hf | ⟨-, hp⟩
  · exact .inl hf
  · exact .inr ⟨rfl, hp⟩

theorem OwnWaits.weaken (h : OwnWaits s w reaped) : OwnWaits s w false := by
  obtain ⟨o, ho, hw⟩ := h
  exact ⟨o, ho, hw.weaken⟩

/-- A row that is not PENDING has been reaped. -/
theorem Waiting.failed (h : Waiting s reaped r) (hp : r.status ≠ .pending) : Waiting s true r := by
  refine ⟨h.id, h.path, .inl ?_⟩
  rcases h.status with hf | ⟨-, hpend, -⟩
  · exact hf
  · exact absurd hpend hp

theorem Waiting.status_failed (h : Waiting s true r) : r.status = .failed := by
  rcases h.status with hf | ⟨hfalse, -⟩
  · exact hf
  · cases hfalse

theorem Waiting.stored (h : Waiting s reaped r) (hp : r.status = .pending) :
    r.metadata = s.stored := by
  rcases h.status with hf | ⟨-, -, hm⟩
  · rw [hf] at hp
    cases hp
  · exact hm

/-- Nothing to merge: no payload. -/
theorem Payload.of_none (h : s.payload = none) : Payload s w r := by
  intro d hd
  rw [h] at hd
  cases hd

theorem Inv.recover (h : Inv s w) (hw : OwnWaits s w reaped) (ht : w.taken s.id = true)
    (hun : w.phase.unmerged = true) : Inv s { w with phase := World.recover s reaped } := by
  obtain ⟨e, he⟩ := echo_of_taken ht
  unfold World.recover
  split
  next m hm =>
    split
    next hurl =>
      apply h.toPhase (fun hu => by cases hu)
      exact ⟨hw.weaken, e, he, Payload.of_none (payload_of_urlPointer hm hurl)⟩
    next => exact h.toPhase (fun _ => hun) ⟨hw, e, he⟩
  next hm =>
    apply h.toPhase (fun hu => by cases hu)
    refine ⟨hw.weaken, e, he, Payload.of_none ?_⟩
    unfold Accepted.payload
    rw [hm]
    rfl

/-- The waiting row is the own row. -/
theorem OwnWaits.of_own (h : OwnWaits s w reaped) (ho : w.own = some o) : Waiting s reaped o := by
  obtain ⟨o', ho', hw⟩ := h
  rw [ho] at ho'
  obtain rfl := Option.some.inj ho'
  exact hw

theorem OwnWaits.ne_none (h : OwnWaits s w reaped) : w.own ≠ none := by
  obtain ⟨o, ho, -⟩ := h
  rw [ho]
  exact Option.some_ne_none o

theorem Inv.writeSent (h : Inv s w) (hp : w.phase = .first) : Inv s (w.writeSent s) := by
  have hok : OwnWaits s w false := h.phaseAt hp
  have hun : w.phase.unmerged = true := by rw [hp]; rfl
  unfold World.writeSent
  split
  next o ho =>
    have hw := hok.of_own ho
    split
    next hpend =>
      split
      next ht => exact h.recover hok ht hun
      next ht =>
        refine h.settle (h.own_type o ho) ?_
        have hecho := echo_none_of_not_taken h ht
        refine .own (s.sent o) rfl hecho ⟨rfl, rfl⟩ ?_
        intro d hd _ _
        exact .inl (bytes_patch (hw.stored hpend) hd)
    next hpend =>
      have hwaits : OwnWaits s w true := ⟨o, ho, hw.failed hpend⟩
      exact h.toPhase (fun _ => hun) hwaits
  next ho => exact absurd ho hok.ne_none

theorem Inv.writeReaped (h : Inv s w) (hp : w.phase = .second) : Inv s (w.writeReaped s) := by
  have hok : OwnWaits s w true := h.phaseAt hp
  unfold World.writeReaped
  split
  next o ho =>
    split
    next ht => exact h.recover hok ht (by rw [hp]; rfl)
    next ht =>
      refine h.settle (h.own_type o ho) ?_
      have hecho := echo_none_of_not_taken h ht
      refine .own (s.restore (s.sent o)) rfl hecho ⟨rfl, rfl⟩ ?_
      intro d hd _ _
      exact .inl (bytes_restore hd)
  next ho => exact absurd ho hok.ne_none

-- ======== the merge

theorem Inv.mergeRead (h : Inv s w) (hp : w.phase = .merging reaped left) :
    Inv s (w.mergeRead s reaped left) := by
  obtain ⟨hw, e, he⟩ := h.phaseAt hp
  have hun : w.phase.unmerged = true := by rw [hp]; rfl
  unfold World.mergeRead
  split
  next => exact h.toPhase (fun _ => hun) ⟨hw, e, he⟩
  next hnone =>
    -- the echo's row is there and carries the id: it is revoked
    apply h.toPhase (fun hu => by cases hu)
    refine ⟨hw.weaken, e, he, ?_⟩
    intro d _ ht
    have hmem : e ∈ w.rows := by
      unfold World.rows
      rw [he]
      simp
    have hnot := List.find?_eq_none.1 hnone e hmem
    exfalso
    apply hnot
    unfold Row.target
    rw [carries_iff.2 (h.echo e he).1.id]
    simpa using ht

/-- The merged row shows the payload, unless the media was archived. -/
theorem payload_merged (ha : e.marked = true → w.archived = true) :
    Payload s w (World.mergeInto (s.metadata.getD .empty) e) := by
  intro d hd _ harch
  obtain ⟨m, hm, hb⟩ := metadata_of_payload hd
  left
  rw [hm]
  apply bytesOf_merge hb
  rw [marked_getD]
  by_contra hmark
  rw [ha (by simpa using hmark)] at harch
  cases harch

/-- A statement by engine id does not reach a waiting row. -/
theorem OwnWaits.updateWhere {p : Row → Bool} (h : OwnWaits s w reaped)
    (hp : ∀ r, p r = true → r.carries s.id = true) : (w.updateWhere p f).own = w.own := by
  obtain ⟨o, ho, hw⟩ := h
  show w.own.map _ = w.own
  rw [ho]
  have hnot : ¬ p o = true := by
    intro hpo
    have hid := carries_iff.1 (hp o hpo)
    rw [hw.id] at hid
    cases hid
  show some (if p o then f o else o) = some o
  rw [if_neg hnot]

section

variable (h : Inv s w)
include h

/-- The send writes the echo's row and moves on to `p`. -/
theorem Inv.writeEcho {p : Row → Bool} {phase : Phase} (hw : OwnWaits s w false)
    (he : w.echo = some e) (hp : ∀ r, p r = true → r.carries s.id = true)
    (hid : (f e).waMessageId = e.waMessageId) (hst : (f e).status = e.status)
    (hty : (f e).type = e.type) (hpay : Payload s w (if p e then f e else e))
    (hphase : phase = .stamping ∨ phase = .deleting) : Inv s { w.updateWhere p f with phase } := by
  have hown : (w.updateWhere p f).own = w.own := hw.updateWhere hp
  have hecho : (w.updateWhere p f).echo = some (if p e then f e else e) := by
    show w.echo.map _ = _
    rw [he]
    rfl
  obtain ⟨hland, hne⟩ := h.echo e he
  have hwaits : OwnWaits s { w.updateWhere p f with phase } false := by
    obtain ⟨o, ho, hwo⟩ := hw
    exact ⟨o, hown.trans ho, hwo⟩
  refine ⟨?_, ?_, h.replacing, ?_, ?_⟩
  · intro o ho
    exact h.own_type o (hown.symm.trans ho)
  · intro r hr
    obtain rfl := Option.some.inj (hecho.symm.trans hr)
    split
    · refine ⟨⟨hid.trans hland.id, ?_⟩, ?_⟩
      · rw [hst]
        exact hland.status
      · rw [hty]
        exact hne
    · exact ⟨hland, hne⟩
  · intro hu
    rcases hphase with rfl | rfl <;> cases hu
  · rcases hphase with rfl | rfl <;> exact ⟨hwaits, _, hecho, hpay⟩

theorem Inv.mergeSwap {snapshot : Option Metadata}
    (hp : w.phase = .swapping reaped left snapshot) :
    Inv s (w.mergeSwap s reaped left snapshot) := by
  obtain ⟨hw, e, he⟩ := h.phaseAt hp
  have hun : w.phase.unmerged = true := by rw [hp]; rfl
  unfold World.mergeSwap
  split
  next hany =>
    have hcarries (r : Row)
        (hr : World.unchangedSince s snapshot r = true) :
        r.carries s.id = true := carries_of_target (Bool.and_eq_true_iff.1 hr).1
    -- only the echo's row carries the id, so the swap landed on it
    have hswapped : World.unchangedSince s snapshot e = true := by
      obtain ⟨r, hr, hpr⟩ := List.any_eq_true.1 hany
      rcases List.mem_append.1 hr with ho | ho
      · obtain ⟨o, ho', hwo⟩ := hw
        have hsame : r = o := Option.some.inj ((Option.mem_toList.1 ho).symm.trans ho')
        have hid := carries_iff.1 (hcarries r hpr)
        rw [hsame, hwo.id] at hid
        cases hid
      · have hsame : r = e := Option.some.inj ((Option.mem_toList.1 ho).symm.trans he)
        exact hsame ▸ hpr
    refine h.writeEcho hw.weaken he hcarries rfl rfl rfl ?_ (.inl rfl)
    rw [if_pos hswapped]
    exact payload_merged (h.marker hun e he)
  next =>
    cases left with
    | zero =>
      cases reaped with
      | true | false => exact h.toPhase (fun hu => by cases hu) ⟨hw, e, he⟩
    | succ left => exact h.toPhase (fun _ => hun) ⟨hw, e, he⟩

theorem Inv.stamp (hp : w.phase = .stamping) :
    Inv s { w.updateWhere (Row.carries s.id) (World.stampRow s) with
      phase := .deleting } := by
  obtain ⟨hw, e, he, hpay⟩ := h.phaseAt hp
  refine h.writeEcho hw he (fun _ hr => hr) rfl rfl rfl ?_ (.inr rfl)
  split
  · exact hpay.of_bytes rfl id
  · exact hpay

-- ======== the last writes

theorem Inv.keepPending (hp : w.phase = .keepPending) : Inv s (w.keepPending s) := by
  obtain ⟨hwaits, e, he⟩ := h.phaseAt hp
  unfold World.keepPending
  split
  next o ho =>
    have hw := hwaits.of_own ho
    split
    next hpend =>
      refine h.settle (h.own_type o ho) ?_
      refine .both (s.patch o) e rfl he ⟨hw.id, rfl, ?_⟩
      intro d hd
      exact bytes_patch (hw.stored hpend) hd
    next hpend =>
      have hreaped : OwnWaits s w true := ⟨o, ho, hw.failed hpend⟩
      exact h.toPhase (fun hu => by cases hu) ⟨hreaped, e, he⟩
  next ho => exact absurd ho hwaits.ne_none

theorem Inv.keepFailed (hp : w.phase = .keepFailed) : Inv s (w.keepFailed s) := by
  obtain ⟨hwaits, e, he⟩ := h.phaseAt hp
  unfold World.keepFailed
  split
  next o ho =>
    have hw := hwaits.of_own ho
    split
    next =>
      refine h.settle (h.own_type o ho) ?_
      refine .both (s.restore (s.patch o)) e rfl he ⟨hw.id, rfl, ?_⟩
      intro d hd
      exact bytes_restore hd
    next hfailed => exact absurd hw.status_failed hfailed
  next ho => exact absurd ho hwaits.ne_none

theorem Inv.delete (hp : w.phase = .deleting) : Inv s { w with own := none, phase := .ended } := by
  obtain ⟨-, e, he, hpay⟩ := h.phaseAt hp
  refine ⟨?_, h.echo, h.replacing, ?_, .echo e rfl he hpay⟩
  · intro o ho
    cases ho
  · intro hu
    cases hu

/-- Every statement of the send keeps the invariant. -/
theorem Inv.persist : Leads (Inv s) (w.persist s) := by
  unfold World.persist
  split
  case h_9 => trivial
  case h_1 hp => exact h.writeSent hp
  case h_2 hp => exact h.writeReaped hp
  case h_3 hp => exact h.mergeRead hp
  case h_4 hp => exact h.mergeSwap hp
  case h_5 hp => exact h.keepPending hp
  case h_6 hp => exact h.keepFailed hp
  case h_7 hp => exact h.stamp hp
  case h_8 hp => exact h.delete hp

end

end OpenWA.Send

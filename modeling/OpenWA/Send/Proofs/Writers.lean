/-
The writers other than the send keep the invariant.

# One shape

All but the reaper and the echo's insert rewrite rows in place
(`Touched`): the id stays, an accepted status stays accepted, the payload
stays or the marker takes its place, and a row without an id is left
alone until it is SENT. `Inv.touch` draws the invariant from that; each
writer then only has to show what it does to one row.
-/
import OpenWA.Send.Proofs.Invariant

namespace OpenWA.Send

variable {s : Accepted} {w v : World} {r r' : Row}

-- ======== rows in place

/-- What the bookkeeping of a later world may add. -/
structure Later (w v : World) : Prop where
  archived : w.archived = true → v.archived = true
  echoes : ∀ k e, (w.echoes k).echo = some e → (v.echoes k).echo = some e

variable {d id : Text}

theorem Held.later (hl : Later w v) (h : Held s w.echoes r d) : Held s v.echoes r d := by
  rcases h with hd | ⟨hf, k, e, d', he, hed, hrd⟩
  · exact .inl hd
  · exact .inr ⟨hf, k, e, d', hl.echoes k e he, hed, hrd⟩

theorem Payload.later (hl : Later w v) (h : Payload s w r) : Payload s v r := by
  intro d hd ht ha
  apply Held.later hl
  apply h d hd ht
  by_contra hw
  rw [hl.archived (by simpa using hw)] at ha
  cases ha

/-- The payload of a row that shows the same bytes. -/
theorem Payload.of_bytes (hb : r'.bytes = r.bytes)
    (ht : r'.type ≠ revokedType → r.type ≠ revokedType) (h : Payload s w r) : Payload s w r' := by
  intro d hd htype ha
  have hheld := h d hd (ht htype) ha
  unfold Held at hheld ⊢
  rw [hb]
  exact hheld

/-- A row after another writer's statement. -/
structure Touched (s : Accepted) (w v : World) (r r' : Row) : Prop where
  id : r'.waMessageId = r.waMessageId
  status : r.status.accepted = true → r'.status.accepted = true
  type : r'.type = forwardType → r.type = forwardType
  marker : r'.marked = true → r.marked = true ∨ v.archived = true
  payload : Payload s w r → Payload s v r'
  waiting : r.waMessageId = none → r.status.accepted = false → r.mediaPath = none → r' = r
  kept : r.waMessageId = none → r'.status = r.status ∧ r'.bytes = r.bytes

theorem Touched.refl (hl : Later w v) (r : Row) : Touched s w v r r where
  id := rfl
  status := fun h => h
  type := fun h => h
  marker := .inl
  payload := Payload.later hl
  waiting := fun _ _ _ => rfl
  kept := fun _ => ⟨rfl, rfl⟩

/-- A statement by engine id leaves rows without it alone. -/
theorem Touched.of_where {p : Row → Bool} {f : Row → Row}
    (hl : Later w v) (h : p r = true → Touched s w v r (f r)) :
    Touched s w v r (if p r then f r else r) := by
  by_cases hpr : p r = true
  · rw [if_pos hpr]
    exact h hpr
  · rw [if_neg hpr]
    exact Touched.refl hl r

theorem carries_iff : r.carries id = true ↔ r.waMessageId = some id := by
  simp [Row.carries]

theorem carries_of_target (h : r.target id = true) : r.carries id = true := by
  exact (Bool.and_eq_true_iff.1 h).1

/-- For a row with the id the two clauses about rows without one are
void. -/
theorem Touched.of_carries (hc : r.carries s.id = true) (hid : r'.waMessageId = r.waMessageId)
    (hst : r.status.accepted = true → r'.status.accepted = true)
    (hty : r'.type = forwardType → r.type = forwardType)
    (hma : r'.marked = true → r.marked = true ∨ v.archived = true)
    (hpa : Payload s w r → Payload s v r') : Touched s w v r r' := by
  have hsome := carries_iff.1 hc
  refine ⟨hid, hst, hty, hma, hpa, ?_, ?_⟩
  · intro hnone
    rw [hsome] at hnone
    cases hnone
  · intro hnone
    rw [hsome] at hnone
    cases hnone

-- ======== the invariant

variable {reaped : Bool}

theorem Waiting.status_accepted (h : Waiting s reaped r) : r.status.accepted = false := by
  rcases h.status with hf | ⟨-, hp, -⟩
  · rw [hf]
    rfl
  · rw [hp]
    rfl

theorem Waiting.touch (h : Waiting s reaped r) (ht : Touched s w v r r') : Waiting s reaped r' := by
  rw [ht.waiting h.id h.status_accepted h.path]
  exact h

theorem Retained.touch (h : Retained s r) (ht : Touched s w v r r') : Retained s r' := by
  obtain ⟨hstatus, hbytes⟩ := ht.kept h.id
  refine ⟨ht.id.trans h.id, hstatus.trans h.status, ?_⟩
  intro d hd
  rw [hbytes]
  exact h.bytes d hd

theorem Landed.touch (h : Landed s r) (ht : Touched s w v r r') :
    Landed s r' := ⟨ht.id.trans h.id, ht.status h.status⟩

section Touch

variable {f g : Row → Row} (hown : v.own = w.own.map f)
  (hecho : v.echo = w.echo.map g)
  (hf : ∀ r, Touched s w v r (f r)) (hg : ∀ r, Touched s w v r (g r))

include hown hf in
theorem OwnWaits.touch (h : OwnWaits s w reaped) : OwnWaits s v reaped := by
  obtain ⟨o, ho, hw⟩ := h
  refine ⟨f o, ?_, hw.touch (hf o)⟩
  rw [hown, ho]
  rfl

include hecho in
theorem echo_touch {e : Row} (h : w.echo = some e) : v.echo = some (g e) := by
  rw [hecho, h]
  rfl

include hown hecho hf hg in
theorem Settled.touch (h : Settled s w) : Settled s v := by
  cases h with
  | own o ho he hl hp =>
    apply Settled.own (f o) _ _ (hl.touch (hf o)) ((hf o).payload hp)
    · rw [hown, ho]
      rfl
    · rw [hecho, he]
      rfl
  | echo e ho he hp =>
    apply Settled.echo (g e) _ (echo_touch hecho he) ((hg e).payload hp)
    rw [hown, ho]
    rfl
  | both o e ho he hr =>
    apply Settled.both (f o) (g e) _ (echo_touch hecho he) (hr.touch (hf o))
    rw [hown, ho]
    rfl

include hown hecho hf hg in
theorem PhaseOk.touch {p : Phase} (h : PhaseOk s w p) : PhaseOk s v p := by
  have hwaits {reaped : Bool} (h : OwnWaits s w reaped) : OwnWaits s v reaped := h.touch hown hf
  have hthere (h : ∃ e, w.echo = some e) : ∃ e, v.echo = some e := by
    obtain ⟨e, he⟩ := h
    exact ⟨g e, echo_touch hecho he⟩
  have hpaid (h : ∃ e, w.echo = some e ∧ Payload s w e) : ∃ e, v.echo = some e ∧ Payload s v e := by
    obtain ⟨e, he, hp⟩ := h
    exact ⟨g e, echo_touch hecho he, (hg e).payload hp⟩
  cases p with
  | first | second => exact hwaits h
  | merging | swapping | keepPending | keepFailed => exact ⟨hwaits h.1, hthere h.2⟩
  | stamping | deleting => exact ⟨hwaits h.1, hpaid h.2⟩
  | ended => exact Settled.touch hown hecho hf hg h

include hown hecho hf hg in
/-- Writing rows in place keeps the invariant. -/
theorem Inv.touch (h : Inv s w) (hl : Later w v) (hphase : v.phase = w.phase)
    (hreplacing : ∀ k, (v.echoes k).replacing = true → s.type = forwardType) : Inv s v where
  own_type := by
    intro o ho ht
    rw [hown] at ho
    obtain ⟨o', ho', rfl⟩ := Option.map_eq_some_iff.1 ho
    exact h.own_type o' ho' ((hf o').type ht)
  echo := by
    intro e he
    rw [hecho] at he
    obtain ⟨e', he', rfl⟩ := Option.map_eq_some_iff.1 he
    obtain ⟨hland, hne⟩ := h.echo e' he'
    exact ⟨hland.touch (hg e'), fun ht => hne ((hg e').type ht)⟩
  replacing := hreplacing
  marker := by
    intro hun e he hm
    rw [hecho] at he
    obtain ⟨e', he', rfl⟩ := Option.map_eq_some_iff.1 he
    rcases (hg e').marker hm with hm' | ha
    · exact hl.archived (h.marker (hphase ▸ hun) e' he' hm')
    · exact ha
  phase := by
    rw [hphase]
    exact PhaseOk.touch hown hecho hf hg h.phase

end Touch

-- ======== the rows

theorem Row.bytes_eq (hm : r'.metadata = r.metadata) : r'.bytes = r.bytes := by
  unfold Row.bytes
  rw [hm]

theorem Row.marked_eq (hm : r'.metadata = r.metadata) : r'.marked = r.marked := by
  unfold Row.marked
  rw [hm]

/-- Columns other than the metadata: only the type matters. -/
theorem Touched.of_metadata (hl : Later w v) (hc : r.carries s.id = true)
    (hid : r'.waMessageId = r.waMessageId)
    (hst : r.status.accepted = true → r'.status.accepted = true)
    (hty : r'.type = forwardType → r.type = forwardType)
    (hre : r'.type ≠ revokedType → r.type ≠ revokedType)
    (hm : r'.metadata = r.metadata) : Touched s w v r r' := by
  apply Touched.of_carries hc hid hst hty
  · intro h
    rw [Row.marked_eq hm] at h
    exact .inl h
  · intro h
    exact (h.of_bytes (Row.bytes_eq hm) hre).later hl

theorem touched_ack {target : MessageStatus} (hl : Later w v)
    (hne : target ≠ .failed) (hc : r.carries s.id = true)
    (hfrom : (MessageStatus.ackStatusTransitionFrom target).contains
      r.status = true) : Touched s w v r { r with status := target } := by
  refine Touched.of_metadata hl hc rfl ?_ id id rfl
  intro _
  cases target with
  | pending | sent => cases hfrom
  | delivered | read => rfl
  | failed => exact absurd rfl hne

theorem touched_revoked (hc : r.carries s.id = true) : Touched s w v r r.revoked := by
  refine Touched.of_carries hc rfl id ?_ ?_ ?_
  · intro h
    have hne : revokedType ≠ forwardType := by decide
    exact absurd h hne
  · intro h
    cases h
  · intro _ d _ ht
    exact absurd rfl ht

theorem bytes_getD (r : Row) : bytesOf (r.metadata.getD .empty) = r.bytes := by
  unfold Row.bytes
  cases r.metadata <;> rfl

theorem marked_getD (r : Row) : archivedMarker (r.metadata.getD .empty) = r.marked := by
  unfold Row.marked
  cases r.metadata <;> rfl

theorem touched_annotate {change : Metadata} (hl : Later w v)
    (hget : change.get mediaKey = none) (hc : r.carries s.id = true) :
    Touched s w v r (World.annotateRow change r) := by
  have hmedia : mediaOf ((r.metadata.getD .empty).spread change)
      = mediaOf (r.metadata.getD .empty) := by
    apply mediaOf_eq_of_get
    rw [Record.get_spread, hget]
    rfl
  refine Touched.of_carries hc rfl id id ?_ ?_
  · intro h
    left
    rw [← marked_getD r]
    show (mediaOf _).any _ = true
    rw [← hmedia]
    exact h
  · intro h
    have hbytes : (World.annotateRow change r).bytes = r.bytes := by
      rw [← bytes_getD r, ← bytesOf_eq_of_media hmedia]
      rfl
    exact (h.of_bytes hbytes id).later hl

-- ======== the archive

theorem touched_point (key : Text) (hl : Later w v) (r : Row) :
    Touched s w v r (World.pointRow key r) := by
  unfold World.pointRow
  split
  next ha =>
    have hacc : r.status.accepted = true := by
      unfold World.archivable at ha
      simp only [Bool.and_eq_true] at ha
      exact ha.1.1
    refine ⟨rfl, id, id, .inl, ?_, ?_, fun _ => ⟨rfl, rfl⟩⟩
    · intro h
      exact (h.of_bytes rfl id).later hl
    · intro _ hn
      rw [hacc] at hn
      cases hn
  next => exact Touched.refl hl r

theorem touched_archive (key : Text) (hl : Later w v)
    (ha : v.archived = true) (r : Row) : Touched s w v r (World.archiveRow key r) := by
  unfold World.archiveRow
  split
  next hr =>
    have hid : r.waMessageId.isSome = true := by
      unfold World.replaceable at hr
      simp only [Bool.and_eq_true] at hr
      exact hr.1.1.2
    refine ⟨rfl, id, id, fun _ => .inr ha, ?_, ?_, ?_⟩
    · intro _ d _ _ hv
      rw [ha] at hv
      cases hv
    · intro hn
      rw [hn] at hid
      cases hid
    · intro hn
      rw [hn] at hid
      cases hid
  next => exact Touched.refl hl r

/-- Dropping the marker leaves the bytes. -/
theorem bytesOf_dropMarker (m : Metadata) : bytesOf (World.dropMarker m) = bytesOf m := by
  unfold World.dropMarker
  split
  next x hx =>
    unfold bytesOf
    rw [mediaOf_withMedia, hx]
    rfl
  next => rfl

theorem archivedMarker_dropMarker (m : Metadata) : archivedMarker (World.dropMarker m) = false := by
  unfold World.dropMarker archivedMarker
  split
  next x hx =>
    rw [mediaOf_withMedia]
    rfl
  next hx =>
    rw [hx]
    rfl

theorem touched_purge (hl : Later w v) (r : Row) : Touched s w v r (World.purgeRow r) := by
  unfold World.purgeRow
  split
  next hr =>
    have hbytes : ({ r with metadata := r.metadata.map World.dropMarker }
        : Row).bytes = r.bytes := by
      unfold Row.bytes
      cases r.metadata with
      | none => rfl
      | some m => exact bytesOf_dropMarker m
    refine ⟨rfl, id, id, ?_, ?_, ?_, fun _ => ⟨rfl, hbytes⟩⟩
    · intro hm
      cases hmeta : r.metadata with
      | none =>
        rw [hmeta] at hm
        cases hm
      | some m =>
        rw [hmeta] at hm
        have hdrop := archivedMarker_dropMarker m
        change archivedMarker (World.dropMarker m) = true at hm
        rw [hdrop] at hm
        cases hm
    · intro h
      exact (h.of_bytes hbytes id).later hl
    · intro _ _ hp
      rw [hp] at hr
      cases hr.2
  next => exact Touched.refl hl r

theorem touched_clear (hl : Later w v) (r : Row) : Touched s w v r (World.clearRow r) := by
  refine ⟨rfl, id, id, .inl, ?_, ?_, fun _ => ⟨rfl, rfl⟩⟩
  · intro h
    exact (h.of_bytes rfl id).later hl
  · intro _ _ hp
    unfold World.clearRow
    rw [← hp]

-- ======== the echo

/-- The bytes of a merge: the row's, or those the writer brought. -/
theorem bytesOf_merge_or {current : Metadata} (incoming : Metadata)
    (hd : bytesOf current = some d) :
    bytesOf (mergeSentMetadata current incoming) = some d
      ∨ ∃ d', bytesOf incoming = some d'
        ∧ bytesOf (mergeSentMetadata current incoming) = some d' := by
  by_cases hkept : archivedMarker current = true ∨ bytesOf incoming = none
  · left
    rw [← hd]
    apply bytesOf_eq_of_media
    obtain ⟨x, hx⟩ := exists_media_of_bytes hd
    rw [mediaOf_merge, if_pos ⟨by rw [hx]; rfl, hkept⟩]
  · obtain ⟨d', hd'⟩ := Option.ne_none_iff_exists'.1 (not_or.1 hkept).2
    exact .inr ⟨d', hd', bytesOf_merge hd' (by simpa using (not_or.1 hkept).1)⟩

theorem touched_merge {k : Nat} {e : Echo} {m : Metadata}
    (hl : Later w v) (hforward : s.type = forwardType)
    (hk : (v.echoes k).echo = some e) (hm : e.metadata = some m)
    (ha : archivedMarker m = true → v.archived = true)
    (hc : r.carries s.id = true) : Touched s w v r (World.mergeInto m r) := by
  have hbytes (d : Text) (hd : r.bytes = some d) :
      Held s v.echoes (World.mergeInto m r) d ∨ (World.mergeInto m r).bytes = some d := by
    rw [← bytes_getD] at hd
    rcases bytesOf_merge_or m hd with h | ⟨d', hd', h⟩
    · exact .inr h
    · left
      right
      refine ⟨hforward, k, e, d', hk, ?_, h⟩
      unfold Echo.bytes
      rw [hm]
      exact hd'
  refine Touched.of_carries hc rfl id id ?_ ?_
  · intro h
    rcases archivedMarker_merge h with hin | hcur
    · exact .inr (ha hin)
    · left
      rw [← marked_getD]
      exact hcur
  · intro h d hd ht hv
    rcases h.later hl d hd ht hv with hr | ⟨hf, k', e', d', he', hed, hrd⟩
    · rcases hbytes d hr with hh | hh
      · exact hh
      · exact .inl hh
    · rcases hbytes d' hrd with hh | hh
      · rcases hh with hsame | hother
        · exact .inr ⟨hf, k', e', d', he', hed, hsame⟩
        · exact .inr hother
      · exact .inr ⟨hf, k', e', d', he', hed, hh⟩

theorem touched_replace {e : Echo} (hl : Later w v)
    (hc : r.carries s.id = true) (ht : r.type = forwardType) :
    Touched s w v r { r with type := e.type, body := e.body } := by
  refine Touched.of_metadata hl hc rfl id ?_ ?_ rfl
  · intro h
    exact absurd h e.engine_type
  · intro _
    rw [ht]
    decide

end OpenWA.Send

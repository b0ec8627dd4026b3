/-
The invariant of an accepted send among the writers of its message.

# What carries it

Until the send has settled its own row, that row has no engine id and no
file, so of all the others only the reaper can write it, and only from
PENDING to FAILED (`Waiting`). The echo's row is SENT from its insert on
and nobody takes it back (`Landed`). The two facts leave the send's
recovery no room: when it marks its row SENT under the PENDING guard the
stored payload is still there, and when it finds the row FAILED it writes
the payload again from its own copy.

# The payload

`Payload` is what a row must show for the send's inline media: the bytes,
unless the row was revoked or the media archived. The others keep it:
they rewrite other keys of the metadata, or replace the bytes by the
archived marker. Only the merge of an echo into a forward placeholder
brings bytes of its own — those the engine delivered with the echo.
-/
import OpenWA.Send.World

namespace OpenWA.Send

variable {s : Accepted} {w v : World} {r r' : Row}

-- ======== vocabulary

/-- A row that carries the id is SENT or further. -/
structure Landed (s : Accepted) (r : Row) : Prop where
  id : r.waMessageId = some s.id
  status : r.status.accepted = true

/-- The row shows the payload `d`, or, for a forward placeholder, the
bytes that an echo of the message delivered. -/
def Held (s : Accepted) (echoes : Nat → EchoPhase) (r : Row) (d : Text) :
    Prop :=
  r.bytes = some d
    ∨ s.type = forwardType ∧ ∃ k e d', (echoes k).echo = some e
      ∧ e.bytes = some d' ∧ r.bytes = some d'

/-- The row shows the payload, unless it was revoked or the media is
archived. -/
def Payload (s : Accepted) (w : World) (r : Row) : Prop :=
  ∀ d, s.payload = some d → r.type ≠ revokedType → w.archived = false → Held s w.echoes r d

/-- The send's own row before it is settled; `reaped`: it is known to be
FAILED. -/
structure Waiting (s : Accepted) (reaped : Bool) (o : Row) : Prop where
  id : o.waMessageId = none
  path : o.mediaPath = none
  status : o.status = .failed ∨ reaped = false ∧ o.status = .pending ∧ o.metadata = s.stored

/-- The own row kept next to the echo's. -/
structure Retained (s : Accepted) (o : Row) : Prop where
  id : o.waMessageId = none
  status : o.status = .sent
  bytes : ∀ d, s.payload = some d → o.bytes = some d

/-- How the send leaves the rows. -/
inductive Settled (s : Accepted) (w : World) : Prop
  | own (o : Row) : w.own = some o → w.echo = none → Landed s o → Payload s w o → Settled s w
  | echo (e : Row) : w.own = none → w.echo = some e → Payload s w e → Settled s w
  | both (o e : Row) : w.own = some o → w.echo = some e → Retained s o → Settled s w

/-- The own row waits. -/
def OwnWaits (s : Accepted) (w : World) (reaped : Bool) : Prop :=
  ∃ o, w.own = some o ∧ Waiting s reaped o

/-- What the send may rely on at its next statement. -/
def PhaseOk (s : Accepted) (w : World) : Phase → Prop
  | .first => OwnWaits s w false
  | .second => OwnWaits s w true
  | .merging reaped _ | .swapping reaped _ _ =>
    OwnWaits s w reaped ∧ ∃ e, w.echo = some e
  | .keepPending => OwnWaits s w false ∧ ∃ e, w.echo = some e
  | .keepFailed => OwnWaits s w true ∧ ∃ e, w.echo = some e
  | .stamping | .deleting =>
    OwnWaits s w false ∧ ∃ e, w.echo = some e ∧ Payload s w e
  | .ended => Settled s w

/-- The send has not merged its metadata yet. -/
def Phase.unmerged : Phase → Bool
  | .first | .second | .merging _ _ | .swapping _ _ _ => true
  | .keepPending | .keepFailed | .stamping | .deleting | .ended => false

/-- The row holds the archived marker. -/
def Row.marked (r : Row) : Bool := r.metadata.any archivedMarker

/-- What holds between the send and the two rows. -/
structure Inv (s : Accepted) (w : World) : Prop where
  own_type : ∀ o, w.own = some o → o.type = forwardType → s.type = forwardType
  echo : ∀ e, w.echo = some e → Landed s e ∧ e.type ≠ forwardType
  replacing : ∀ k, (w.echoes k).replacing = true → s.type = forwardType
  marker : w.phase.unmerged = true → ∀ e, w.echo = some e → e.marked = true → w.archived = true
  phase : PhaseOk s w w.phase

theorem inv_init (s : Accepted) : Inv s (.init s) where
  own_type := by
    intro o ho ht
    obtain rfl := Option.some.inj ho
    exact ht
  echo := by
    intro e he
    cases he
  replacing := by
    intro k hk
    cases hk
  marker := by
    intro _ e he
    cases he
  phase := ⟨s.inserted, rfl, rfl, rfl, .inr ⟨rfl, rfl, rfl⟩⟩

-- ======== bytes under the writers

variable {m m' current incoming : Metadata} {d : Text}

theorem mediaOf_eq_of_get (h : m.get mediaKey = m'.get mediaKey) : mediaOf m = mediaOf m' := by
  unfold mediaOf
  rw [h]

theorem mediaOf_withMedia (m : Metadata) (x : Media) :
    mediaOf (m.spread (withMedia x)) = some x := by
  unfold mediaOf withMedia
  rw [Record.get_spread, Record.get_single_self]
  rfl

theorem exists_media_of_bytes (h : bytesOf m = some d) : ∃ x, mediaOf m = some x := by
  unfold bytesOf at h
  cases hx : mediaOf m with
  | none =>
    rw [hx] at h
    cases h
  | some x => exact ⟨x, rfl⟩

theorem bytesOf_eq_of_media (h : mediaOf m = mediaOf m') : bytesOf m = bytesOf m' := by
  unfold bytesOf
  rw [h]

/-- The media of a merge: the row's, where it is an archived marker or the
writer has no bytes, and else the writer's. -/
theorem mediaOf_merge (current incoming : Metadata) :
    mediaOf (mergeSentMetadata current incoming)
      = if (mediaOf current).isSome ∧ (archivedMarker current ∨ bytesOf incoming = none)
        then mediaOf current else mediaOf incoming := by
  unfold mergeSentMetadata keptMedia archivedMarker
  cases hx : mediaOf current with
  | none =>
    unfold mediaOf at hx ⊢
    rw [Record.get_spread, Record.get_spread, Record.get_empty]
    cases incoming.get mediaKey <;> simp [hx]
  | some x =>
    cases hd : bytesOf incoming with
    | none => simp [mediaOf_withMedia]
    | some d =>
      obtain ⟨y, hy⟩ := exists_media_of_bytes hd
      by_cases hm : x.archived = true ∧ x.omitted = true
      · simp [hm, mediaOf_withMedia]
      · rw [if_neg (by simpa using hm)]
        dsimp only
        rw [if_neg (by simpa using hm)]
        apply mediaOf_eq_of_get
        rw [Record.get_spread, Record.get_spread, Record.get_empty]
        cases hget : incoming.get mediaKey with
        | none =>
          rw [mediaOf, hget] at hy
          cases hy
        | some v => rfl

/-- A writer with bytes puts them on the row, unless the row's media is
archived. -/
theorem bytesOf_merge (hd : bytesOf incoming = some d)
    (hm : archivedMarker current = false) :
    bytesOf (mergeSentMetadata current incoming) = some d := by
  rw [← hd]
  apply bytesOf_eq_of_media
  rw [mediaOf_merge, if_neg]
  simp [hm, hd]

/-- A merge brings no archived marker of its own. -/
theorem archivedMarker_merge
    (h : archivedMarker (mergeSentMetadata current incoming) = true) :
    archivedMarker incoming = true ∨ archivedMarker current = true := by
  unfold archivedMarker at h
  rw [mediaOf_merge] at h
  split at h
  · exact .inr h
  · exact .inl h

end OpenWA.Send

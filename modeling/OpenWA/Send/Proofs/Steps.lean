/-
Every step of the writers keeps the invariant: the rows written in place
by `Inv.touch`, then the two that are not — the reaper's write and the
echo's insert — and the statements of the send itself.
-/
import OpenWA.Send.Proofs.Writers

namespace OpenWA.Send

open Option

variable {s : Accepted} {w v : World} {k : Nat}

-- ======== rows in place

variable {f : Row → Row} {e : Echo} {copy : Option Metadata} {now : Text}

/-- `UPDATE … WHERE p`, with nothing else changed. -/
theorem Inv.updateWhere {p : Row → Bool} (h : Inv s w)
    (hf : ∀ v, Later w v → ∀ r, p r = true → Touched s w v r (f r)) :
    Inv s (w.updateWhere p f) := by
  have hl : Later w (w.updateWhere p f) := ⟨id, fun _ _ => id⟩
  have hall (r : Row) : Touched s w (w.updateWhere p f) r
      (if p r then f r else r) := Touched.of_where hl (hf _ hl r)
  exact Inv.touch rfl rfl hall hall h hl rfl h.replacing

/-- One row written by primary key. -/
theorem Inv.updateRow (ofOwn archived : Bool) (h : Inv s w)
    (ha : w.archived = true → archived = true)
    (hf : ∀ v, Later w v → v.archived = archived → ∀ r, Touched s w v r (f r)) :
    Inv s { w.updateRow ofOwn f with archived } := by
  cases ofOwn with
  | true =>
    have hl : Later w { w.updateRow true f with archived } := ⟨ha, fun _ _ => id⟩
    apply Inv.touch (f := f) (g := id) rfl _ (hf _ hl rfl) (Touched.refl hl) h hl rfl h.replacing
    exact (map_id_apply).symm
  | false =>
    have hl : Later w { w.updateRow false f with archived } := ⟨ha, fun _ _ => id⟩
    apply Inv.touch (f := id) (g := f) _ rfl (Touched.refl hl) (hf _ hl rfl) h hl rfl h.replacing
    exact (map_id_apply).symm

/-- The same with the bookkeeping unchanged. -/
theorem Inv.updateRow_same (ofOwn : Bool) (h : Inv s w)
    (hf : ∀ v, Later w v → ∀ r, Touched s w v r (f r)) : Inv s (w.updateRow ofOwn f) := by
  have hsame : w.updateRow ofOwn f = { w.updateRow ofOwn f with archived := w.archived } := by
    cases ofOwn <;> rfl
  rw [hsame]
  exact h.updateRow ofOwn w.archived id fun v hl _ => hf v hl

/-- No row changes. -/
theorem Inv.sameRows (h : Inv s w) (hl : Later w v) (hown : v.own = w.own)
    (hecho : v.echo = w.echo) (hphase : v.phase = w.phase)
    (hreplacing : ∀ k, (v.echoes k).replacing = true → s.type = forwardType) : Inv s v := by
  apply Inv.touch (f := id) (g := id) _ _ (Touched.refl hl) (Touched.refl hl) h hl hphase hreplacing
  · rw [hown, map_id_apply]
  · rw [hecho, map_id_apply]

theorem Inv.ack {target : MessageStatus} (h : Inv s w) : Leads (Inv s) (w.ack s target) := by
  unfold World.ack
  split
  next => trivial
  next hne =>
    apply h.updateWhere
    intro v hl r hp
    obtain ⟨hc, hfrom⟩ := Bool.and_eq_true_iff.1 hp
    exact touched_ack hl hne hc hfrom

theorem Inv.annotate {change : Metadata} (h : Inv s w) : Leads (Inv s) (w.annotate s change) := by
  unfold World.annotate
  split
  next hget =>
    apply h.updateWhere
    intro v hl r hp
    exact touched_annotate hl (isNone_iff_eq_none.1 hget) (carries_of_target hp)
  next => trivial

theorem Inv.archiveReplace {ofOwn : Bool} {key : Text} (h : Inv s w) :
    Leads (Inv s) (w.archiveReplace ofOwn key) := by
  unfold World.archiveReplace
  split
  next =>
    apply h.updateRow ofOwn true (fun _ => rfl)
    intro v hl hv r
    exact touched_archive key hl hv r
  next => trivial

-- ======== the echo

/-- The handling of an echo moves on without forgetting it. -/
theorem later_setEcho {p : EchoPhase} (h : (w.echoes k).echo = some e ∨ (w.echoes k).echo = none)
    (hp : p.echo = some e) : Later w (w.setEcho k p) := by
  refine ⟨id, ?_⟩
  intro k' e' he'
  show (Function.update w.echoes k p k').echo = some e'
  by_cases hk : k' = k
  · subst hk
    rw [Function.update_self, hp, ← he']
    rcases h with h | h
    · exact h.symm
    · rw [h] at he'
      cases he'
  · rw [Function.update_of_ne hk]
    exact he'

section

variable (h : Inv s w)
include h

theorem replacing_setEcho {p : EchoPhase}
    (hp : p.replacing = true → s.type = forwardType) :
    ∀ k', (Function.update w.echoes k p k').replacing = true → s.type = forwardType := by
  intro k' hk'
  by_cases hk : k' = k
  · subst hk
    rw [Function.update_self] at hk'
    exact hp hk'
  · rw [Function.update_of_ne hk] at hk'
    exact h.replacing k' hk'

/-- The echo moves on; no row changes. -/
theorem Inv.setEcho {p : EchoPhase} (he : (w.echoes k).echo = some e ∨ (w.echoes k).echo = none)
    (hp : p.echo = some e) (hr : p.replacing = true → s.type = forwardType) :
    Inv s (w.setEcho k p) :=
  h.sameRows (later_setEcho he hp) rfl rfl rfl (replacing_setEcho h hr)

theorem Inv.echoFind : Leads (Inv s) (w.echoFind s k) := by
  unfold World.echoFind
  split
  next e he =>
    have hecho : (w.echoes k).echo = some e := by rw [he]; rfl
    dsimp only
    split
    next hcond =>
      apply h.setEcho (.inl hecho) rfl
      intro _
      obtain ⟨r, hr, hp⟩ := List.any_eq_true.1 hcond.2
      obtain ⟨-, ht⟩ := Bool.and_eq_true_iff.1 hp
      have htype := of_decide_eq_true ht
      rcases List.mem_append.1 hr with ho | ho
      · exact h.own_type r (mem_toList.1 ho) htype
      · exact absurd htype (h.echo r (mem_toList.1 ho)).2
    next =>
      exact h.setEcho (.inl hecho) rfl (fun hr => by cases hr)
  next => trivial

theorem Inv.echoGiveUp : Leads (Inv s) (w.echoGiveUp k) := by
  unfold World.echoGiveUp
  split
  next e he =>
    have hecho : (w.echoes k).echo = some e := by rw [he]; rfl
    exact h.setEcho (.inl hecho) rfl (fun hr => by cases hr)
  next => trivial

theorem Inv.echoMerge : Leads (Inv s) (w.echoMerge s k) := by
  unfold World.echoMerge
  split
  next e he =>
    have hecho : (w.echoes k).echo = some e := by rw [he]; rfl
    have hforward : s.type = forwardType := by
      apply h.replacing k
      rw [he]
      rfl
    split
    next m hmeta =>
      have hset := later_setEcho (w := w) (p := .merged e) (.inl hecho) rfl
      change Inv s _
      generalize hv : ({ (w.updateWhere (Row.target s.id)
        (World.mergeInto m)).setEcho k (.merged e) with
        archived := w.archived || archivedMarker m } : World) = v
      have harch : v.archived = (w.archived || archivedMarker m) := by
        rw [← hv]
      have hechoes : v.echoes = Function.update w.echoes k (.merged e) := by
        rw [← hv]
        rfl
      have hl : Later w v := by
        refine ⟨?_, ?_⟩
        · intro ha
          rw [harch, ha]
          rfl
        · rw [hechoes]
          exact hset.echoes
      have hk : (v.echoes k).echo = some e := by
        rw [hechoes, Function.update_self]
        rfl
      have hall (r : Row) : Touched s w v r (if r.target s.id then World.mergeInto m r else r) := by
        apply Touched.of_where hl
        intro hp
        apply touched_merge hl hforward hk hmeta _ (carries_of_target hp)
        intro ha
        rw [harch, ha, Bool.or_true]
      apply Inv.touch _ _ hall hall h hl
      · rw [← hv]
        rfl
      · rw [hechoes]
        exact replacing_setEcho h fun _ => hforward
      · rw [← hv]
        rfl
      · rw [← hv]
        rfl
    next =>
      exact h.setEcho (.inl hecho) rfl fun _ => hforward
  next => trivial

theorem Inv.echoReplace : Leads (Inv s) (w.echoReplace s k) := by
  unfold World.echoReplace
  split
  next e he =>
    have hecho : (w.echoes k).echo = some e := by rw [he]; rfl
    have hdone : Inv s (w.setEcho k (.done e)) := h.setEcho (.inl hecho) rfl (fun hr => by cases hr)
    apply hdone.updateWhere
    intro v hl r hp
    obtain ⟨hc, ht⟩ := Bool.and_eq_true_iff.1 hp
    exact touched_replace hl hc (of_decide_eq_true ht)
  next => trivial

end

theorem echo_row_id (e : Echo) (id : Text) : (e.row id).waMessageId = some id := by
  unfold Echo.row
  split <;> rfl

theorem echo_row_status (e : Echo) (id : Text) : (e.row id).status = .sent := by
  unfold Echo.row
  split <;> rfl

theorem echo_row_type (e : Echo) (id : Text) : (e.row id).type ≠ forwardType := by
  unfold Echo.row
  split
  next h =>
    show revokedType ≠ forwardType
    decide
  next => exact e.engine_type

/-- Past the first two statements of the send a row carries the id. -/
theorem Inv.carrier (h : Inv s w) :
    (w.phase = .first ∨ w.phase = .second) ∨ w.rows.any (Row.carries s.id) = true := by
  have hecho {e : Row} (he : w.echo = some e) : w.rows.any (Row.carries s.id) = true :=
    List.any_eq_true.2 ⟨e, by simp [World.rows, he], carries_iff.2 (h.echo e he).1.id⟩
  have hphase := h.phase
  cases hp : w.phase with
  | first | second => simp
  | merging | swapping | keepPending | keepFailed =>
    rw [hp] at hphase
    obtain ⟨-, e, he⟩ := hphase
    exact .inr (hecho he)
  | stamping | deleting =>
    rw [hp] at hphase
    obtain ⟨-, e, he, -⟩ := hphase
    exact .inr (hecho he)
  | ended =>
    right
    rw [hp] at hphase
    cases hphase with
    | own o ho _ hl _ =>
      exact List.any_eq_true.2 ⟨o, by simp [World.rows, ho], carries_iff.2 hl.id⟩
    | echo e _ he | both _ e _ he => exact hecho he

theorem Inv.echoInsert (h : Inv s w) : Leads (Inv s) (w.echoInsert s k e) := by
  unfold World.echoInsert
  split
  next hawait =>
    have hnoecho : (w.echoes k).echo = none := by rw [hawait]; rfl
    split
    next =>
      exact h.setEcho (.inr hnoecho) rfl (fun hr => by cases hr)
    next hnone =>
      have hphase := h.carrier.resolve_right hnone
      refine ⟨h.own_type, ?_, replacing_setEcho h (fun hr => by cases hr), ?_, ?_⟩
      · intro r hr
        obtain rfl := some.inj hr
        refine ⟨⟨echo_row_id e s.id, ?_⟩, echo_row_type e s.id⟩
        rw [echo_row_status]
        rfl
      · intro _ r hr hm
        obtain rfl := some.inj hr
        show (w.archived || (e.row s.id).marked) = true
        rw [hm, Bool.or_true]
      · show PhaseOk s _ w.phase
        have hok := h.phase
        rcases hphase with hp | hp <;>
          rw [hp] at hok ⊢ <;>
          exact hok
  next => trivial

-- ======== the reaper

variable {r : Row} {reaped : Bool}

theorem reapRow_of_accepted (h : r.status.accepted = true) : World.reapRow copy now r = r := by
  unfold World.reapRow
  split
  next hp =>
    rw [hp] at h
    cases h
  next => rfl

theorem Waiting.reap (h : Waiting s reaped r) : Waiting s reaped (World.reapRow copy now r) := by
  unfold World.reapRow
  split
  next => exact ⟨h.id, h.path, .inl rfl⟩
  next => exact h

theorem OwnWaits.reap (hv : v.own = w.own.map (World.reapRow copy now)) (h : OwnWaits s w reaped) :
    OwnWaits s v reaped := by
  obtain ⟨o, ho, hw⟩ := h
  refine ⟨World.reapRow copy now o, ?_, hw.reap⟩
  rw [hv, ho]
  rfl

theorem Inv.reapWrite (h : Inv s w) : Leads (Inv s) (w.reapWrite k now) := by
  unfold World.reapWrite
  split
  next copy hcopy =>
    have hmap {o : Row} (ho : w.own = some o) :
        w.own.map (World.reapRow copy now) = some (World.reapRow copy now o) := by
      rw [ho]
      rfl
    refine ⟨?_, h.echo, h.replacing, h.marker, ?_⟩
    · intro o ho ht
      obtain ⟨o', ho', rfl⟩ := map_eq_some_iff.1 ho
      apply h.own_type o' ho'
      have hsame : (World.reapRow copy now o').type = o'.type := by
        unfold World.reapRow
        split <;> rfl
      exact hsame ▸ ht
    · show PhaseOk s _ w.phase
      have hok := h.phase
      cases hp : w.phase with
      | first | second =>
        rw [hp] at hok
        exact OwnWaits.reap rfl hok
      | merging | swapping | keepPending | keepFailed | stamping | deleting =>
        rw [hp] at hok
        exact ⟨OwnWaits.reap rfl hok.1, hok.2⟩
      | ended =>
        -- a settled row is SENT or further: the guard matches nothing
        rw [hp] at hok
        cases hok with
        | own o ho he hl hpay =>
          refine Settled.own o ?_ he hl hpay
          exact (hmap ho).trans (congrArg some (reapRow_of_accepted hl.status))
        | echo e ho he hpay =>
          refine Settled.echo e ?_ he hpay
          rw [ho]
          rfl
        | both o e ho he hret =>
          refine Settled.both o e ?_ he hret
          have hacc : o.status.accepted = true := by
            rw [hret.status]
            rfl
          exact (hmap ho).trans (congrArg some (reapRow_of_accepted hacc))
  next => trivial

theorem Inv.reapFind (h : Inv s w) : Leads (Inv s) (w.reapFind k) := by
  unfold World.reapFind
  split
  next o ho =>
    split
    next => exact h.sameRows ⟨id, fun _ _ => id⟩ rfl rfl rfl h.replacing
    next => trivial
  next => trivial

end OpenWA.Send

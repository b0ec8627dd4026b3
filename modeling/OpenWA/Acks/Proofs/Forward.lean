/-
The row of a message under its acks: parked, queued and direct writes, in
any interleaving, move its status forward only.

Every write is the guarded update, so a step leaves the status or moves it
along an allowed transition (`row_step`); `read` and `failed` have none that
leads on. The two ways of `parkedStatus_spec` are runs of the system: the
one that parks all acks before the row lands (`exists_parked_run`), and the
one that applies each to the row (`exists_direct_run`).
-/
import Mathlib.Logic.Relation
import OpenWA.Acks.Proofs.Parking

namespace OpenWA.Acks

open Option

open Function (update update_self update_of_ne)

/-- The statuses a row may come to, by allowed transitions. -/
def Leads : MessageStatus → MessageStatus → Prop :=
  Relation.ReflTransGen fun s t => s.advancesTo t = true

variable {s t target : MessageStatus} {k : Nat}

theorem eq_of_leads (hs : ∀ u, s.advancesTo u = false) (h : Leads s t) : t = s := by
  induction h with
  | refl => rfl
  | @tail u t hu hstep ih =>
    rw [ih, hs t] at hstep
    cases hstep

theorem read_stays (h : Leads .read t) : t = .read := eq_of_leads (fun u => by cases u <;> rfl) h

theorem failed_stays (h : Leads .failed t) : t = .failed :=
  eq_of_leads (fun u => by cases u <;> rfl) h

-- ======== the steps

variable {w w' : World} {j : Nat}

/-- An ack that matches a row advances it. -/
theorem advanceAck_eq_some (h : w.advanceAck target = some w') :
    ∃ s, w.row = some s ∧ s.advancesTo target = true ∧ w' = { w with row := some target } := by
  unfold World.advanceAck at h
  split at h
  next s hs =>
    split at h
    next hadv => exact ⟨s, hs, hadv, (some.inj h).symm⟩
    next => cases h
  next => cases h

/-- What a step may do to the row. -/
inductive RowMove (w w' : World) : Prop
  | stays (h : w'.row = w.row)
  | lands (hbefore : w.row = none) (hafter : w'.row = some .sent)
  | advances (s t : MessageStatus) (hbefore : w.row = some s) (hafter : w'.row = some t)
      (h : s.advancesTo t = true)

theorem rowMove_exec (hs : w.exec j = some w') : RowMove w w' := by
  have hadvances : ∀ {target : MessageStatus} {v : World},
      w.advanceAck target = some v → RowMove w (v.setOp j .done) := by
    intro target v hv
    obtain ⟨s, hrow, hadv, rfl⟩ := advanceAck_eq_some hv
    exact .advances s target hrow rfl hadv
  unfold World.exec at hs
  split at hs
  case h_4 => cases hs
  all_goals
    split at hs
    next v hv => exact some.inj hs ▸ hadvances hv
    next => exact some.inj hs ▸ .stays rfl

theorem row_park (chat : Option Text) (status : MessageStatus) :
    (w.park chat status).row = w.row := by
  unfold World.park
  split <;> rfl

theorem row_handleMessageAck (status : DeliveryStatus) (chat : Option Text) (foreign : Bool) :
    (w.handleMessageAck j status chat foreign).row = w.row := by
  unfold World.handleMessageAck
  repeat' split
  all_goals first
    | rfl
    | exact row_park _ _

theorem begin_eq_some {v : Option World} (hs : w.begin j v = some w') :
    (w.op j).isUnused = true ∧ v = some w' := by
  unfold World.begin at hs
  split at hs
  next hu => exact ⟨hu, hs⟩
  next => cases hs

variable {entry : Nat} {chat : Option Text}

theorem rowMove_lands (hs : w.lands j entry = some w') : RowMove w w' := by
  unfold World.lands at hs
  split at hs
  next hnew =>
    rw [Bool.and_eq_true, isNone_iff_eq_none] at hnew
    exact some.inj hs ▸ .lands hnew.1 rfl
  next => cases hs

/-- Every step moves the row forward, inserts it or leaves it. -/
theorem row_step {a : Act} (hs : system.step a w = some w') : RowMove w w' := by
  change World.step a w = some w' at hs
  cases a with
  | ack j status chat foreign =>
    obtain ⟨-, heq⟩ := begin_eq_some hs
    exact some.inj heq ▸ .stays (row_handleMessageAck _ _ _)
  | lands j entry => exact rowMove_lands (begin_eq_some hs).2
  | exec j => exact rowMove_exec hs
  | retire | track | untrack | commit | loses | judge | fail | timer | weigh =>
    refine .stays ?_
    simp only [World.step, World.track, World.commit, World.begin, World.loses, World.applyParked,
      World.judge, World.fail, World.timer, World.weigh] at hs
    repeat' split at hs
    all_goals first
      | exact some.inj hs ▸ rfl
      | cases hs

/-- A row that is there stays and only moves forward. -/
theorem leads_of_reach (h : system.Reach w w') (hs : w.row = some s) :
    ∃ t, w'.row = some t ∧ Leads s t := by
  refine h.invariant (P := fun v => ∃ t, v.row = some t ∧ Leads s t)
    ⟨s, hs, Relation.ReflTransGen.refl⟩ ?_
  intro a v v' hv hstep
  obtain ⟨t, ht, hleads⟩ := hv
  cases row_step hstep with
  | stays hrow => exact ⟨t, hrow.trans ht, hleads⟩
  | lands hbefore _ =>
    rw [ht] at hbefore
    cases hbefore
  | advances t' u hbefore hafter hadv =>
    rw [ht] at hbefore
    exact ⟨u, hafter, hleads.tail (some.inj hbefore ▸ hadv)⟩

-- ======== the runs

/-- The message is in flight under entry `e` and operations from `k` on have
not begun. -/
structure InFlight (e k : Nat) (w : World) : Prop where
  live : w.live = true
  entry : w.inFlight = some e
  unused : ∀ i, k ≤ i → w.op i = .unused

/-- Kept acks and more of them. -/
def ParkedAcks.parkMore (parked : ParkedAcks) (acks : Receipts) : ParkedAcks :=
  acks.foldl (fun parked e => parked.park e.1 e.2) parked

theorem upgrading_cons (chat : Option Text) (status : DeliveryStatus)
    (acks : List (Option Text × DeliveryStatus)) :
    upgrading ((chat, status) :: acks) = upgrading [(chat, status)] ++ upgrading acks := by
  unfold upgrading
  rw [← List.filterMap_append]
  rfl

theorem upgrading_singleton (chat : Option Text) (status : DeliveryStatus) :
    upgrading [(chat, status)]
      = ((deliveryStatusToMessageStatus status).map fun target => (chat, target)).toList := by
  cases status <;> rfl

variable {v : World}

/-- An operation that has begun leaves the later ones unused. -/
theorem unused_setOp (o : Op) (h : ∀ i, k ≤ i → w.op i = .unused)
    (hop : ∀ i, i ≠ k → v.op i = w.op i) : ∀ i, k + 1 ≤ i → (v.setOp k o).op i = .unused := by
  intro i hi
  change update v.op k o i = .unused
  rw [update_of_ne (by omega), hop i (by omega)]
  exact h i (by omega)

variable {e : Nat}

/-- An ack of a message in flight is parked. -/
theorem InFlight.ack (h : InFlight e k w) (status : DeliveryStatus) (chat : Option Text) :
    InFlight e (k + 1) (w.handleMessageAck k status chat false) ∧
      (w.handleMessageAck k status chat false).entries e
        = (w.entries e).parkMore (upgrading [(chat, status)]) := by
  have hsets : ∀ (v : World) (o : Op), v.live = w.live → v.inFlight = w.inFlight →
      v.op = w.op → InFlight e (k + 1) (v.setOp k o) := by
    intro v o hlive hentry hop
    exact ⟨hlive.trans h.live, hentry.trans h.entry,
      unused_setOp o h.unused fun i _ => congrFun hop i⟩
  unfold World.handleMessageAck
  rw [h.live, Bool.and_false, upgrading_singleton]
  cases deliveryStatusToMessageStatus status with
  | none =>
    cases chat with
    | none => exact ⟨hsets w .done rfl rfl rfl, rfl⟩
    | some chat => exact ⟨hsets w (.judging none) rfl rfl rfl, rfl⟩
  | some target =>
    have hpark : w.park chat target
        = { w with entries := update w.entries e ((w.entries e).park chat target) } := by
      unfold World.park
      rw [h.entry]
    have hkept : update w.entries e ((w.entries e).park chat target) e
        = (w.entries e).park chat target := update_self _ _ _
    dsimp only
    rw [hpark]
    cases chat with
    | none => exact ⟨hsets _ (.advancing target false) rfl rfl rfl, hkept⟩
    | some chat => exact ⟨hsets _ (.judging (some target)) rfl rfl rfl, hkept⟩

theorem step_ack {status : DeliveryStatus} {foreign : Bool} (h : w.op k = .unused) :
    system.step (.ack k status chat foreign) w
      = some (w.handleMessageAck k status chat foreign) := by
  change w.begin k _ = _
  unfold World.begin
  rw [h]
  rfl

/-- All acks of a message in flight are parked, its row as it was. -/
theorem exists_parks (acks : List (Option Text × DeliveryStatus)) :
    ∀ {w : World} {k : Nat}, InFlight e k w → ∃ w', system.Reach w w' ∧
      InFlight e (k + acks.length) w' ∧ w'.row = w.row ∧
      w'.entries e = (w.entries e).parkMore (upgrading acks) := by
  induction acks with
  | nil => exact fun {w k} h => ⟨w, .refl, h, rfl, rfl⟩
  | cons a acks ih =>
    intro w k h
    obtain ⟨chat, status⟩ := a
    obtain ⟨hnext, hentry⟩ := h.ack status chat
    obtain ⟨w', hreach, hin, hrow, hparked⟩ := ih hnext
    have hstep : system.step (.ack k status chat false) w
        = some (w.handleMessageAck k status chat false) := step_ack (h.unused k (Nat.le_refl k))
    refine ⟨w', (Machine.Reach.step _ .refl hstep).trans hreach, ?_, ?_, ?_⟩
    · rw [List.length_cons, Nat.add_comm acks.length 1, ← Nat.add_assoc]
      exact hin
    · rw [hrow]
      exact row_handleMessageAck _ _ _
    · rw [hparked, hentry, upgrading_cons chat status acks]
      unfold ParkedAcks.parkMore
      rw [List.foldl_append]

/-- One kept ack is weighed. -/
theorem step_weigh {i : Nat} {furthest : Option MessageStatus} {status : MessageStatus}
    (foreign : Text → Bool) (hget : (w.entries e).entries[i]? = some (chat, status))
    (hop : w.op k = .weighing e i furthest) :
    system.step (.weigh k (chat.any foreign)) w
      = some (w.setOp k (.weighing e (i + 1)
          (if chat.any foreign then furthest else some (further furthest status)))) := by
  have hflag : (chat.isSome && chat.any foreign) = chat.any foreign := by
    cases chat with
    | none | some => rfl
  change w.weigh k (chat.any foreign) = _
  unfold World.weigh
  rw [hop]
  dsimp only
  rw [hget]
  dsimp only
  rw [hflag]
  split <;> rfl

/-- The kept acks are weighed one after the other, the row as it was. -/
theorem exists_weighs (foreign : Text → Bool) (l : List (Option Text × MessageStatus)) :
    ∀ {w : World} {i : Nat} {furthest : Option MessageStatus},
      (w.entries e).entries.drop i = l → w.op k = .weighing e i furthest →
      ∃ w' i', system.Reach w w' ∧ w'.row = w.row ∧ w'.entries = w.entries ∧
        (w.entries e).entries.drop i' = [] ∧ w'.op k = .weighing e i' (l.foldl (fun furthest e =>
          if e.1.any foreign then furthest else some (further furthest e.2)) furthest) := by
  induction l with
  | nil => exact fun {w i furthest} hdrop hop => ⟨w, i, .refl, rfl, rfl, hdrop, hop⟩
  | cons x l ih =>
    intro w i furthest hdrop hop
    obtain ⟨chat, status⟩ := x
    have hget : (w.entries e).entries[i]? = some (chat, status) := by
      rw [← List.head?_drop, hdrop]
      rfl
    have hrest : (w.entries e).entries.drop (i + 1) = l := by
      rw [← List.tail_drop, hdrop]
      rfl
    obtain ⟨w', i', hreach, hrow, hentries, hend, hop'⟩ := ih
      (w := w.setOp k (.weighing e (i + 1)
        (if chat.any foreign then furthest else some (further furthest status))))
      hrest (update_self _ _ _)
    exact ⟨w', i', (Machine.Reach.step _ .refl (step_weigh foreign hget hop)).trans hreach,
      hrow, hentries, hend, hop'⟩

/-- The guarded update of an operation gives a row that is there its status. -/
theorem exists_exec (hrow : w.row = some s)
    (hop : w.op k = .applying target ∨ w.op k = .advancing target false
      ∨ w.op k = .advancing target true) :
    ∃ w', system.step (.exec k) w = some w' ∧ w'.row = some (s.advance target) ∧
      w'.live = w.live ∧ ∀ i, i ≠ k → w'.op i = w.op i := by
  have hother : ∀ (v : World) (o : Op), v.op = w.op → ∀ i, i ≠ k → (v.setOp k o).op i = w.op i := by
    intro v o hv i hi
    rw [← hv]
    exact update_of_ne hi _ _
  change ∃ w', w.exec k = some w' ∧ _
  unfold World.exec World.advanceAck MessageStatus.advance
  rw [hrow]
  by_cases hadv : s.advancesTo target = true
  · rw [if_pos hadv]
    rcases hop with hop | hop | hop
    all_goals
      rw [hop]
      dsimp only
      rw [if_pos hadv]
      exact ⟨_, rfl, rfl, rfl, hother _ _ rfl⟩
  · rw [if_neg hadv]
    rcases hop with hop | hop | hop
    all_goals
      rw [hop]
      dsimp only
      rw [if_neg hadv]
      exact ⟨_, rfl, hrow, rfl, hother _ _ rfl⟩

/-- The kept acks of a row that landed are applied: it has the status of the
furthest. -/
theorem exists_applied (foreign : Text → Bool) (hrow : w.row = some .sent) :
    ∃ w', system.Reach (w.applyParked k e) w' ∧ (w'.row = some
      ((furthestParkedAck foreign (w.entries e)).elim .sent MessageStatus.sent.advance)) := by
  unfold World.applyParked
  split
  next hsize =>
    have hnil : (w.entries e).entries = [] := List.eq_nil_of_length_eq_zero hsize
    refine ⟨_, .refl, ?_⟩
    unfold furthestParkedAck
    rw [hnil]
    exact hrow
  next =>
    obtain ⟨w', i, hreach, hrow', hentries, hend, hop⟩ :=
      exists_weighs foreign (w.entries e).entries
        (w := w.setOp k (.weighing e 0 none)) rfl (update_self _ _ _)
    have hlast : (w'.entries e).entries[i]? = none := by
      rw [← List.head?_drop, hentries]
      exact congrArg List.head? hend
    have hrow' : w'.row = some .sent := hrow'.trans hrow
    change w'.op k = .weighing e i (furthestParkedAck foreign (w.entries e)) at hop
    cases hfurthest : furthestParkedAck foreign (w.entries e) with
    | none => exact ⟨w', hreach, hrow'⟩
    | some target =>
      rw [hfurthest] at hop
      have hweigh : system.step (.weigh k false) w' = some (w'.setOp k (.applying target)) := by
        change w'.weigh k false = _
        unfold World.weigh
        rw [hop]
        dsimp only
        rw [hlast]
      obtain ⟨v, hexec, hv, -⟩ := exists_exec (w := w'.setOp k (.applying target)) (k := k)
        hrow' (.inl (update_self _ _ _))
      exact ⟨v, .step _ (.step _ hreach hweigh) hexec, hv⟩

/-- The acks of a message in flight, parked and applied once its row has
landed. -/
theorem exists_parked_run (foreign : Text → Bool)
    (acks : List (Option Text × DeliveryStatus)) :
    ∃ w, system.Reach (World.init none) w ∧
      w.row = some (parkedStatus foreign (upgrading acks)) := by
  have htracked : InFlight 0 0 (World.init none).track := ⟨rfl, rfl, fun _ _ => rfl⟩
  obtain ⟨w₁, hreach, hin, hrow, hparked⟩ := exists_parks acks htracked
  let k := acks.length
  have hunused : (w₁.op k).isUnused = true := by
    rw [hin.unused k (by omega)]
    rfl
  have hnew : (w₁.row.isNone && w₁.live) = true := by
    rw [hrow, hin.live]
    rfl
  let w₂ : World := { w₁ with row := some .sent }.setOp k (.landed 0)
  have hlands : system.step (.lands k 0) w₁ = some w₂ := by
    change w₁.begin k (w₁.lands k 0) = some w₂
    unfold World.begin World.lands
    rw [if_pos hunused, if_pos hnew]
  have hcommit : system.step (.commit k) w₂ = some (w₂.applyParked k 0) := by
    change w₂.commit k = _
    unfold World.commit
    rw [show w₂.op k = .landed 0 from update_self _ _ _]
    dsimp only
    rw [if_pos (show w₂.live = true from hin.live)]
  have htrack : system.step .track (World.init none) = some (World.init none).track := rfl
  have hreach₂ : system.Reach (World.init none) (w₂.applyParked k 0) :=
    .step _ (.step _ ((Machine.Reach.step _ .refl htrack).trans hreach) hlands) hcommit
  obtain ⟨w₃, hreach₃, hrow₃⟩ := exists_applied (w := w₂) (e := 0) (k := k) foreign rfl
  refine ⟨w₃, hreach₂.trans hreach₃, hrow₃.trans ?_⟩
  have hentries : w₂.entries 0 = parkAll (upgrading acks) := hparked
  unfold parkedStatus
  rw [hentries]
  cases furthestParkedAck foreign (parkAll (upgrading acks)) with
  | none | some => rfl

/-- The row is there with status `s` and operations from `k` on have not
begun. -/
structure Stored (s : MessageStatus) (k : Nat) (w : World) : Prop where
  live : w.live = true
  row : w.row = some s
  unused : ∀ i, k ≤ i → w.op i = .unused

theorem Stored.setOp (h : Stored s k w) (o : Op) (hlive : v.live = w.live)
    (hrow : v.row = w.row) (hop : ∀ i, i ≠ k → v.op i = w.op i) : Stored s (k + 1) (v.setOp k o) :=
  ⟨hlive.trans h.live, hrow.trans h.row, unused_setOp o h.unused hop⟩

theorem live_park (chat : Option Text) (status : MessageStatus) :
    (w.park chat status).live = w.live ∧ (w.park chat status).op = w.op := by
  unfold World.park
  split <;> exact ⟨rfl, rfl⟩

/-- An ack whose update is due gives the row its status. -/
theorem Stored.exec (h : Stored s (k + 1) w)
    (hop : w.op k = .advancing target false ∨ w.op k = .advancing target true) :
    ∃ w', system.Reach w w' ∧ Stored (s.advance target) (k + 1) w' := by
  obtain ⟨w', hstep, hrow, hlive, hothers⟩ := exists_exec h.row (.inr hop)
  refine ⟨w', .step _ .refl hstep, hlive.trans h.live, hrow, ?_⟩
  intro i hi
  rw [hothers i (by omega)]
  exact h.unused i hi

/-- One ack of a stored message is applied to its row. -/
theorem Stored.ack (h : Stored s k w) (chat : Option Text) (status : DeliveryStatus) :
    ∃ w', system.Reach w w' ∧
      Stored ((upgrading [(chat, status)]).foldl (fun row e => row.advance e.2) s) (k + 1) w' := by
  have hstep : system.step (.ack k status chat false) w
      = some (w.handleMessageAck k status chat false) := step_ack (h.unused k (Nat.le_refl k))
  unfold World.handleMessageAck at hstep
  rw [h.live, Bool.and_false] at hstep
  rw [upgrading_singleton]
  cases hstatus : deliveryStatusToMessageStatus status with
  | none =>
    rw [hstatus] at hstep
    cases chat with
    | none | some => exact ⟨_, .step _ .refl hstep, h.setOp _ rfl rfl fun _ _ => rfl⟩
  | some target =>
    rw [hstatus] at hstep
    obtain ⟨hlive, hop⟩ := live_park (w := w) chat target
    have hbegun : ∀ o : Op, Stored s (k + 1) ((w.park chat target).setOp k o) := by
      intro o
      exact h.setOp o hlive (row_park chat target) fun i _ => congrFun hop i
    cases chat with
    | none =>
      obtain ⟨w', hreach, hw'⟩ := (hbegun (.advancing target false)).exec (.inl (update_self _ _ _))
      exact ⟨w', (Machine.Reach.step _ .refl hstep).trans hreach, hw'⟩
    | some chat =>
      -- queued, judged by the row, then applied
      let v := (w.park (some chat) target).setOp k (.judging (some target))
      have hv : Stored s (k + 1) v := hbegun _
      have hjudge : system.step (.judge k .stored) v
          = some (v.setOp k (.advancing target true)) := by
        change v.judge k .stored = _
        unfold World.judge
        rw [show v.op k = .judging (some target) from update_self _ _ _, hv.live]
        rfl
      have hdue : Stored s (k + 1) (v.setOp k (.advancing target true)) := by
        refine ⟨hv.live, hv.row, ?_⟩
        intro i hi
        change update v.op k _ i = .unused
        rw [update_of_ne (by omega)]
        exact hv.unused i hi
      obtain ⟨w', hreach, hw'⟩ := hdue.exec (.inr (update_self _ _ _))
      exact ⟨w', (Machine.Reach.step _ (.step _ .refl hstep) hjudge).trans hreach, hw'⟩

section

variable (acks : List (Option Text × DeliveryStatus))

/-- Every ack is applied to the row in turn. -/
theorem exists_direct :
    ∀ {w : World} {k : Nat} {s : MessageStatus}, Stored s k w →
      ∃ w', system.Reach w w' ∧
        w'.row = some ((upgrading acks).foldl (fun row e => row.advance e.2) s) := by
  induction acks with
  | nil => exact fun {w k s} h => ⟨w, .refl, h.row⟩
  | cons a acks ih =>
    intro w k s h
    obtain ⟨chat, status⟩ := a
    obtain ⟨v, hfirst, hv⟩ := h.ack chat status
    obtain ⟨w', hrest, hrow⟩ := ih hv
    refine ⟨w', hfirst.trans hrest, ?_⟩
    rw [upgrading_cons, List.foldl_append]
    exact hrow

/-- The acks of a stored message, each applied as it comes. -/
theorem exists_direct_run :
    ∃ w, system.Reach (World.init (some .sent)) w ∧ w.row = some (directStatus (upgrading acks)) :=
  exists_direct acks (w := World.init (some .sent)) (k := 0) ⟨rfl, rfl, fun _ _ => rfl⟩

-- ======== both together

theorem upgrades_upgrading : ∀ e ∈ upgrading acks, e.2.upgrades = true := by
  intro e he
  obtain ⟨a, -, ha⟩ := List.mem_filterMap.mp he
  obtain ⟨target, htarget, rfl⟩ := map_eq_some_iff.mp ha
  exact upgrades_of_some htarget

end

theorem chat_of_upgrading {acks : List (Option Text × DeliveryStatus)}
    {e : Option Text × MessageStatus}
    (he : e ∈ upgrading acks) : ∃ a ∈ acks, a.1 = e.1 := by
  obtain ⟨a, hmem, ha⟩ := List.mem_filterMap.mp he
  obtain ⟨target, -, rfl⟩ := map_eq_some_iff.mp ha
  exact ⟨a, hmem, rfl⟩

/-- **Parked and direct acks.** Parking the acks of a message and applying
the furthest gives the row the status that applying each gives it, unless
the acks are overshadowed; then it stays at `delivered` where the direct
ones reach `read`. Both are runs of the system. In every run the status only
moves forward, and `read` and `failed` stay. -/
theorem acks_parked_or_direct {foreign : Text → Bool} {acks : List (Option Text × DeliveryStatus)}
    (hforeign : ∀ a ∈ acks, a.1.any foreign = false) :
    (¬ Overshadowed (upgrading acks) →
      parkedStatus foreign (upgrading acks) = directStatus (upgrading acks)) ∧
    (Overshadowed (upgrading acks) →
      parkedStatus foreign (upgrading acks) = .delivered ∧
      directStatus (upgrading acks) = .read) ∧
    (∃ w, system.Reach (World.init none) w ∧ w.row = some (parkedStatus foreign (upgrading acks))) ∧
    (∃ w, system.Reach (World.init (some .sent)) w ∧ w.row = some (directStatus (upgrading acks))) ∧
    ∀ (row : Option MessageStatus) (w w' : World) (s : MessageStatus),
      system.Reach (World.init row) w → system.Reach w w' → w.row = some s →
      ∃ t, w'.row = some t ∧ Leads s t ∧ (s = .read → t = .read) ∧ (s = .failed → t = .failed) := by
  have hchats : ∀ e ∈ upgrading acks, e.1.any foreign = false := by
    intro e he
    obtain ⟨a, ha, hchat⟩ := chat_of_upgrading he
    exact hchat ▸ hforeign a ha
  obtain ⟨hsame, hless⟩ := parkedStatus_spec (upgrades_upgrading acks) hchats
  refine ⟨hsame, hless, exists_parked_run foreign acks, exists_direct_run acks, ?_⟩
  intro row w w' s _ hreach hs
  obtain ⟨t, ht, hleads⟩ := leads_of_reach hreach hs
  refine ⟨t, ht, hleads, ?_, ?_⟩
  · intro hread
    exact read_stays (hread ▸ hleads)
  · intro hfailed
    exact failed_stays (hfailed ▸ hleads)

/-- Two chats, the first with `delivered` and `read`. -/
theorem acks_parked_or_direct_two :
    parkedStatus (fun _ => false)
      (upgrading [(some ['a'], .delivered), (none, .failed), (some ['a'], .read)]) = .read ∧
    ¬ Overshadowed (upgrading [(some ['a'], .delivered), (none, .failed), (some ['a'], .read)]) ∧
    parkedStatus (fun _ => false)
      (upgrading [(some ['a'], .delivered), (none, .failed), (some ['a'], .read)]) = directStatus
        (upgrading [(some ['a'], .delivered), (none, .failed), (some ['a'], .read)]) := by
  have hnot : ¬ Overshadowed
      (upgrading [(some ['a'], .delivered), (none, .failed), (some ['a'], .read)]) := by
    intro h
    have hhead := h.failed (some ['a']) (by decide)
    revert hhead
    decide
  refine ⟨by decide, hnot, ?_⟩
  have hforeign : ∀ a ∈ [(some ['a'], DeliveryStatus.delivered), (none, .failed),
      (some ['a'], .read)], a.1.any (fun _ : Text => false) = false := by simp
  exact (acks_parked_or_direct hforeign).1 hnot

/-- One chat reports `delivered`, another `failed` and then `read`: parked,
the row stays at `delivered`. -/
theorem read_after_failed_is_lost :
    parkedStatus (fun _ => false)
      (upgrading [(some ['a'], .delivered), (some ['b'], .failed), (some ['b'], .read)])
      = .delivered ∧ directStatus
      (upgrading [(some ['a'], .delivered), (some ['b'], .failed), (some ['b'], .read)])
      = .read := by
  decide

end OpenWA.Acks

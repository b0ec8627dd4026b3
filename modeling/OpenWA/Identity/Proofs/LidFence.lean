/-
The fence lookups while a report is under way: as long as the mirror keeps
the reported phone, no lookup answers the number the report replaces.

# The argument

The lid of a report under way is unstored (`Open.unstored`), so a row that
does not hold the mirrored phone is not answered (`agrees_rowPhone`), and
what the mirror itself answers is that phone. Each step lets a lookup move
on with agreeing answers only (`Quiet.turn`), as long as the mirror holds the
reported phone; a step that evicts the lid, and the end of a reload, are
where the code forgets it (`evicted_lid_answers_replaced_phone`).
-/
import Mathlib.Data.List.TakeWhile
import OpenWA.Identity.Proofs.LidSteps

namespace OpenWA.Lid

open Function (update update_self update_of_ne)

variable {s : Store} {lid phone : Nat} {w w' : World} {i j : Nat}

variable {session : Option Nat} {r : Nat} {a : Act} {fresh : Nat → Prop}

-- ======== the window

/-- There is room in the mirror for the lid's entry, those used after it
and `x`. -/
def Store.spares (s : Store) (lid x : Nat) : Bool :=
  s.maxCachedLids = 0 ||
    ((s.lidToPhone.entries.dropWhile (·.1 ≠ lid)).filter (·.1 ≠ x)).length < s.maxCachedLids

/-- The step is taken while report `r` has not settled. It reports no other
phone for the lid, and what it writes to the mirror is neither the drop of
the lid's entry, nor a use of another lid that evicts it, nor a reload. -/
def keeps (r lid phone : Nat) (a : Act) (w : World) : Bool :=
  (w.phase r).write.isSome
    && (match a with
      | .remember _ x (some reported) _ => x ≠ lid || reported = phone
      | _ => true)
    && match w.call a with
      | .none => true
      | .index x _ _ _ => x = lid || w.store.spares lid x
      | .drop x => x ≠ lid
      | .reload _ => false

/-- A use of another lid that spares the lid's entry leaves it. -/
theorem cached_index_of_spares {x : Nat} {entry p : Option Nat} {isReported : Bool}
    (hx : lid ≠ x) (hc : s.cached lid = some entry) (hspares : s.spares lid x = true) :
    (s.index x p session isReported).cached lid = some entry := by
  obtain ⟨reporters, seen, nextSeen, hindex⟩ := index_eq s x p session isReported
  let older := (s.lidToPhone.entries.takeWhile (·.1 ≠ lid)).filter (·.1 ≠ x)
  let newer := (s.lidToPhone.entries.dropWhile (·.1 ≠ lid)).filter (·.1 ≠ x)
  have hplace : (s.place x p).entries = older ++ (newer ++ [(x, p)]) := by
    rw [← List.append_assoc, ← List.filter_append, List.takeWhile_append_dropWhile]
    exact Record.entries_set_of_get_none p (Record.get_delete_self _ _)
  have hmem : (lid, entry) ∈ newer ++ [(x, p)] := by
    have hplaced := Record.mem_of_get ((get_place_of_ne s p hx).trans hc)
    rw [hplace] at hplaced
    refine (List.mem_append.mp hplaced).resolve_left fun holder => ?_
    simpa using List.mem_takeWhile_imp (List.mem_filter.mp holder).1
  refine Record.get_of_mem ?_
  rw [hindex]
  unfold Store.evictIfOverCap
  rcases Bool.or_eq_true_iff.mp hspares with hcap | hroom
  · rw [if_pos (of_decide_eq_true hcap)]
    exact hplace ▸ List.mem_append_right _ hmem
  · have hroom : newer.length < s.maxCachedLids := of_decide_eq_true hroom
    rw [if_neg (by dsimp only; omega), entries_evict, Record.size]
    dsimp only
    rw [hplace, List.drop_append_of_le_length]
    · exact List.mem_append_right _ hmem
    · simp only [List.length_append, List.length_singleton]
      omega

/-- What a step of the window makes the lid's entry is the reported phone. -/
theorem phone_of_call {x : Nat} {p session : Option Nat} {isReported : Bool}
    (hc : w.store.cached x = some (some phone)) (hk : keeps r x phone a w = true)
    (hcall : w.call a = .index x p session isReported) : p = some phone := by
  unfold World.call at hcall
  split at hcall
  next j y reported session' =>
    split at hcall
    next hindex =>
      cases hcall
      obtain ⟨q, rfl⟩ := Option.isSome_iff_exists.mp (Bool.and_eq_true_iff.mp hindex).2
      simp_all [keeps]
    next => cases hcall
  next j spare =>
    dsimp only at hcall
    split at hcall
    next => split at hcall <;> cases hcall
    next =>
      split at hcall
      next hmiss =>
        cases hcall
        simp [hc] at hmiss
      next => cases hcall
    next => cases hcall
    next => cases hcall
  next => cases hcall

/-- A step of the window leaves the lid's phone in the mirror. -/
theorem cached_calls_of_keeps (hc : w.store.cached lid = some (some phone))
    (hk : keeps r lid phone a w = true) :
    (w.store.calls (w.call a)).cached lid = some (some phone) := by
  have hcall := (Bool.and_eq_true_iff.mp hk).2
  cases hcase : w.call a with
  | none => exact hc
  | drop x =>
    rw [hcase] at hcall
    exact (Record.get_delete_of_ne _ (of_decide_eq_true hcall).symm).trans hc
  | reload rows =>
    rw [hcase] at hcall
    cases hcall
  | index x p session isReported =>
    by_cases hx : lid = x
    · -- only a report of the phone is an entry of the lid
      subst hx
      rw [phone_of_call hc hk hcase]
      exact cached_index _ _ _ _ _
    · rw [hcase] at hcall
      refine cached_index_of_spares hx hc ((Bool.or_eq_true_iff.mp hcall).resolve_left ?_)
      simpa using Ne.symm hx

/-- While report `r` of a phone is under way and the mirror keeps it, the
operations of `fresh` agree with it. -/
structure Window (fresh : Nat → Prop) (r lid phone : Nat) (w : World) : Prop where
  opens : Open w
  writes : ∃ ref, (w.phase r).write = some (lid, ref)
  cached : w.store.cached lid = some (some phone)
  agrees : ∀ i, fresh i → (w.phase i).agrees lid phone

/-- Within the window the store fences the phone. -/
theorem Window.fences (h : Window fresh r lid phone w) : w.store.Fences lid phone := by
  obtain ⟨ref, hw⟩ := h.writes
  exact ⟨h.opens.unstored hw, h.cached⟩

/-- A step of the window keeps what holds in it, unless the report settles. -/
theorem Window.step (h : Window fresh r lid phone w) (hk : keeps r lid phone a w = true)
    (hs : system.step a w = some w') (hopen : (w'.phase r).write.isSome = true) :
    Window fresh r lid phone w' := by
  obtain ⟨v, hquiet, hmoves⟩ := does_step.to hs
  refine ⟨(hquiet.opens h.opens).move hmoves, ?_, ?_, fun i hi => ?_⟩
  · obtain ⟨ref, hw⟩ := h.writes
    have hunsettled : w'.phase r ≠ .done .nothing := by
      intro hdone
      rw [hdone] at hopen
      cases hopen
    rcases phase_of_moves hmoves r with hsame | ⟨hnone, hdone, -⟩
    · rw [hsame] at hunsettled ⊢
      exact ⟨ref, ((hquiet.turn r).write _ hw).resolve_right hunsettled⟩
    · rcases (hquiet.turn r).write _ hw with hwrite | hended
      · cases hnone.symm.trans hwrite
      · exact absurd hended hdone
  · rw [cached_of_moves hmoves, hquiet.mirror]
    exact cached_calls_of_keeps h.cached hk
  · rcases phase_of_moves hmoves i with hsame | ⟨-, -, hagrees⟩
    · rw [hsame]
      exact (hquiet.turn i).agrees lid phone h.fences (h.agrees i hi)
    · exact hagrees lid phone

/-- A report opens the window. -/
theorem window_remember (h : Open w)
    (hs : system.step (.remember r lid (some phone) session) w = some w')
    (hfresh : ∀ i, fresh i → w'.phase i = .unused) : Window fresh r lid phone w' where
  opens := (h.step _).to hs
  writes := by
    obtain ⟨-, ⟨⟩⟩ := Option.ite_none_right_eq_some.mp hs
    obtain ⟨report, hphase, hlid⟩ : ∃ report,
        (w.remember r lid (some phone) session).phase r = .storing report ∧
          report.lid = lid := ⟨_, update_self _ _ _, rfl⟩
    rw [hphase]
    exact ⟨report.writing, by rw [← hlid]; rfl⟩
  cached := by
    obtain ⟨-, ⟨⟩⟩ := Option.ite_none_right_eq_some.mp hs
    exact cached_remember w lid phone session
  agrees := by
    intro i hi
    rw [hfresh i hi]
    exact trivial

theorem open_of_reach {cap : Nat} {table : Record Nat Row}
    (h : system.Reach (World.init cap table) w) : Open w :=
  h.leads (open_init cap table) fun a _ ho => ho.step a

/-- **No lookup contradicts the report under way.** From the report of a
phone on, and until its write settles, every fence lookup that starts and
is answered gives the lid that phone or none, in every run that reports no
other phone for the lid, whose uses of other lids leave room for its entry,
and in which no reload ends and no negative of the lid is applied. -/
theorem fence_agrees_with_report {cap : Nat} {table : Record Nat Row}
    {w₀ w₁ w₂ : World} {r lid phone : Nat} {session : Option Nat}
    (hreach : system.Reach (World.init cap table) w₀)
    (hreport : system.step (.remember r lid (some phone) session) w₀ = some w₁)
    (hwindow : (system.guarded (keeps r lid phone)).Reach w₁ w₂)
    (hopen : (w₂.phase r).write.isSome = true)
    {j : Nat} {answer : Answer} (hj : w₁.phase j = .unused)
    (hdone : w₂.phase j = .done answer) : answer.agrees lid phone := by
  have hw₁ : Window (fun i => w₁.phase i = .unused) r lid phone w₁ :=
    window_remember (open_of_reach hreach) hreport fun _ hi => hi
  -- a step is taken with the report under way, so the states before it were
  have hw₂ : (w₂.phase r).write.isSome = true →
      Window (fun i => w₁.phase i = .unused) r lid phone w₂ := by
    refine hwindow.invariant (P := fun w => (w.phase r).write.isSome = true →
      Window (fun i => w₁.phase i = .unused) r lid phone w) (fun _ => hw₁) ?_
    intro a t t' ht hs hopen
    obtain ⟨hk, hs⟩ := Option.ite_none_right_eq_some.mp hs
    have hbefore := (Bool.and_eq_true_iff.mp (Bool.and_eq_true_iff.mp hk).1).1
    exact (ht hbefore).step hk hs hopen
  have hagrees := (hw₂ hopen).agrees j hj
  rw [hdone] at hagrees
  exact hagrees

/-- Row `1 ↦ 5` in the table and `7` reported for lid 1, a report of lid 2
for which there is room and a second report of `7` on their way: the lookup
that reads the old row before the upsert runs answers no phone. -/
theorem fence_agrees_with_report_pending :
    ∃ w₂ : World, w₂.phase 3 = .done (.phone 1 none) ∧ (Answer.phone 1 none).agrees 1 7 := by
  let w₀ := World.init 2 (Record.single 1
    { phone := some 5, sessionId := none, isReported := true, updatedAt := 0 })
  let w₁ := w₀.remember 0 1 (some 7) none
  let acts : List Act :=
    [.remember 1 2 (some 6) none, .remember 2 1 (some 7) (some 4), .findPhoneForLid 3 1,
      .exec 3, .reply 3 4]
  let test (w : World) : Bool := (w.phase 0).write.isSome &&
    match w.phase 3 with
    | .done (.phone 1 none) => true
    | _ => false
  obtain ⟨w₂, hwindow, htest⟩ :=
    (system.guarded (keeps 0 1 7)).exists_reach_of_run w₁ acts test (by decide +kernel)
  obtain ⟨hopen, hphase⟩ := Bool.and_eq_true_iff.mp htest
  have hanswer : w₂.phase 3 = .done (.phone 1 none) := by
    split at hphase
    next h => exact h
    next => cases hphase
  have hreach : system.Reach (World.init 2 (Record.single 1
    { phone := some 5, sessionId := none, isReported := true, updatedAt := 0 })) w₀ := .refl
  have hreport : system.step (.remember 0 1 (some 7) none) w₀ = some w₁ := rfl
  exact ⟨w₂, hanswer, fence_agrees_with_report hreach hreport hwindow hopen rfl hanswer⟩

/-- With room for one lid and row `1 ↦ 5` in the table, `7` is reported for
lid 1 and a report of lid 2 evicts the entry: a lookup of lid 1 that starts
after the report answers the number it replaces, while the write of `7` has
not even run. -/
theorem evicted_lid_answers_replaced_phone :
    ∃ w₀ w₁ w₂, system.Reach (World.init 1 (Record.single 1
        { phone := some 5, sessionId := none, isReported := true, updatedAt := 0 })) w₀ ∧
      system.step (.remember 0 1 (some 7) none) w₀ = some w₁ ∧ w₁.phase 2 = .unused ∧
      system.Reach w₁ w₂ ∧ (∃ r, w₂.phase 0 = .storing r ∧ r.lid = 1 ∧ r.phone = some 7) ∧
      w₂.phase 2 = .done (.phone 1 (some 5)) := by
  let w₀ := World.init 1 (Record.single 1
    { phone := some 5, sessionId := none, isReported := true, updatedAt := 0 })
  obtain ⟨w₂, hrun, hreport, hanswer⟩ : ∃ w₂, system.run (w₀.remember 0 1 (some 7) none)
        [.remember 1 2 (some 6) none, .findPhoneForLid 2 1, .exec 2, .reply 2 3] = some w₂ ∧
      (∃ r, w₂.phase 0 = .storing r ∧ r.lid = 1 ∧ r.phone = some 7) ∧
      w₂.phase 2 = .done (.phone 1 (some 5)) := ⟨_, rfl, ⟨_, rfl, rfl, rfl⟩, rfl⟩
  exact ⟨w₀, _, w₂, .refl, rfl, rfl, Machine.reach_of_run hrun, hreport, hanswer⟩

end OpenWA.Lid

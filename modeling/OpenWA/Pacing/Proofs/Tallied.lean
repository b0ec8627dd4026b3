/-
The bookkeeping of a day's counts: which rows the count of a held admission
can contain, kept by every step of the governor and its callers.

# The invariant

The count an admission `y` read is a count of rows from before `y` was taken,
so none of these rows belongs to `y` or to an admission after it: the count
and the rows committed since from `y` on are rows of the day, each once
(`Tallied.counts`). The count an admission carried over at midnight is given
is the first one judged with it that day, when the day had no admission yet;
whether the carried send's own row is in it is left to chance.
-/
import OpenWA.Pacing.Proofs.DailyCap

namespace OpenWA.Pacing

-- ======== vocabulary

/-- The admissions from `y` on whose row is committed. -/
def World.committedFrom (w : World) (y : Nat) : Finset Nat :=
  (Finset.range w.svc.next).filter fun a => y ≤ a ∧ (w.hist.committedAt a).isSome

/-- The admissions from `y` on that have no row yet and were not handed
back. -/
def World.outstanding (w : World) (y : Nat) : Finset Nat :=
  (Finset.range w.svc.next).filter fun a =>
    y ≤ a ∧ w.hist.handedBack a = false ∧ w.hist.committedAt a = none

/-- What a daily check would judge now: the larger of the count it read and
the counts of the held admissions. -/
def World.judged (w : World) (d n : Nat) : Nat :=
  judgedSentToday n (heldAdmissions w.now d w.svc).1.heap (heldAdmissions w.now d w.svc).2

/-- The held admissions taken before `first`. -/
def World.carried (w : World) (d first : Nat) : List Nat :=
  (heldAdmissions w.now d w.svc).2.filter fun a => a < first

/-- The day a call counts for, and the count it has read. -/
def Phase.reading : Phase → Option (Nat × Option Nat)
  | .opening => none
  | .counting d => some (d, none)
  | .counted d n => some (d, some n)
  | .probing d n => some (d, some n)
  | .probed d n _ => some (d, some n)
  | .ended _ => none

/-- A call counts for today or an earlier day; today's count is of rows that
are there. -/
def CallTallied (day : Nat) (w : World) (q : Nat) : Prop :=
  ∀ d n, (w.calls q).phase.reading = some (d, n) →
    d ≤ day ∧ (d = day → ∀ c ∈ n, c ≤ countSince w.rows day)

/-- The bookkeeping of a day whose admissions start at `first`, when
`early` was held at its start. -/
structure Tallied (day first : Nat) (early : List Nat) (w : World) : Prop where
  first_le : first ≤ w.svc.next
  sorted : w.svc.held.Pairwise (· < ·)
  held : ∀ a ∈ w.svc.held, a < w.svc.next ∧ w.hist.handedBack a = false ∧ (a < first → a ∈ early)
  unborn : ∀ a, w.svc.next ≤ a → w.hist.handedBack a = false ∧ w.hist.committedAt a = none
  taken : ∀ a, (w.hist.admittedBy a).isSome → a < w.svc.next
  hold_day : ∀ h ∈ w.svc.hold, h.dayStartMs ≤ day
  stale : Stale day w.svc → w.svc.next = first
  calls : ∀ q < w.nextCall, CallTallied day w q
  counts : ¬ Stale day w.svc → ∀ x ∈ w.svc.held,
    ((w.svc.heap x).sentToday = none ∧ w.svc.next = first)
      ∨ ∃ c, (w.svc.heap x).sentToday = some c
        ∧ c + (w.committedFrom (max x first)).card ≤ countSince w.rows day

variable {y n d : Nat} {svc : Service} {a : Nat} {w : World}

theorem mem_committedFrom :
    a ∈ w.committedFrom y ↔ a < w.svc.next ∧ y ≤ a ∧ (w.hist.committedAt a).isSome := by
  simp [World.committedFrom]

theorem mem_outstanding :
    a ∈ w.outstanding y ↔ a < w.svc.next ∧ y ≤ a ∧ w.hist.handedBack a = false
      ∧ w.hist.committedAt a = none := by
  simp [World.outstanding]

theorem committedFrom_eq_empty (h : w.svc.next ≤ y) : w.committedFrom y = ∅ := by
  refine Finset.eq_empty_of_forall_notMem ?_
  intro a ha
  obtain ⟨hlt, hle, -⟩ := mem_committedFrom.mp ha
  omega

variable {day first : Nat} {early : List Nat} {w w₁ : World}

-- ======== the quiet steps

/-- The service after a step that takes no admission and hands none back. -/
def SvcFilled (day : Nat) (w : World) (svc : Service) : Prop :=
  Filled w.now day (· ≤ countSince w.rows day) w.svc svc ∨ SameHold w.svc svc

section

variable (h : Tallied day first early w)
include h

/-- The counts after such a step, and the hold. -/
theorem Tallied.of_filled (hsvc : SvcFilled day w w₁.svc)
    (hrows : countSince w₁.rows day = countSince w.rows day)
    (hhist : w₁.hist = { w.hist with
      readAt := w₁.hist.readAt
      judgedAt := w₁.hist.judgedAt })
    (hcalls : ∀ q < w₁.nextCall, CallTallied day w₁ q) : Tallied day first early w₁ := by
  have hnext : w₁.svc.next = w.svc.next := by
    rcases hsvc with hfilled | ⟨hnext, -, -⟩
    · exact hfilled.refreshed.next
    · exact hnext
  have hfrom : ∀ y, w₁.committedFrom y = w.committedFrom y := by
    intro y
    unfold World.committedFrom
    rw [hnext, hhist]
  have hsub : w₁.svc.held.Sublist w.svc.held := by
    rcases hsvc with hfilled | ⟨-, hhold, -⟩
    · exact hfilled.refreshed.sublist
    · unfold Service.held
      rw [hhold]
  refine
    { first_le := hnext ▸ h.first_le
      sorted := h.sorted.sublist hsub
      held := fun a ha => by rw [hnext, hhist]; exact h.held a (hsub.subset ha)
      unborn := by rw [hnext, hhist]; exact h.unborn
      taken := by rw [hnext, hhist]; exact h.taken
      hold_day := ?hold_day
      stale := ?stale
      calls := hcalls
      counts := ?counts }
  all_goals rcases hsvc with hfilled | ⟨-, hhold, hcount⟩
  case hold_day.inl => exact fun hold hmem => (hfilled.refreshed.day hold hmem).le
  case hold_day.inr => exact hhold ▸ h.hold_day
  case stale.inl => exact fun hstale => absurd hstale hfilled.refreshed.not_stale
  case stale.inr =>
    unfold Stale
    rw [hhold, hnext]
    exact h.stale
  case counts.inl =>
    intro _ x hx
    rw [hnext, hfrom, hrows]
    -- either the day has no admission yet, or the count was there
    have hcases : (w.svc.next = first ∧ (¬ Stale day w.svc → (w.svc.heap x).sentToday = none))
        ∨ ∃ c, (w₁.svc.heap x).sentToday = some c
          ∧ c + (w.committedFrom (max x first)).card ≤ countSince w.rows day := by
      by_cases hstale : Stale day w.svc
      · exact .inl ⟨h.stale hstale, fun hfresh => absurd hstale hfresh⟩
      · rcases h.counts hstale x (hsub.subset hx) with ⟨hnone, hempty⟩ | ⟨c, hc, hle⟩
        · exact .inl ⟨hempty, fun _ => hnone⟩
        · exact .inr ⟨c, hfilled.refreshed.sentToday x c (fun hst => absurd hst hstale) hc, hle⟩
    rcases hcases with ⟨hempty, hnone⟩ | hsome
    · cases hc : (w₁.svc.heap x).sentToday with
      | none => exact .inl ⟨rfl, hempty⟩
      | some c =>
        refine .inr ⟨c, rfl, ?_⟩
        rw [committedFrom_eq_empty (hempty.trans_le (le_max_right x first)), Finset.card_empty,
          Nat.add_zero]
        rcases hfilled.kept x hx c hc with hle | ⟨hfresh, hsome⟩
        · exact hle
        · cases (hnone hfresh).symm.trans hsome
    · exact .inr hsome
  case counts.inr =>
    unfold Stale
    rw [hhold, hnext, hrows]
    intro hfresh x hx
    rw [hcount, hfrom]
    exact h.counts hfresh x (hsub.subset hx)

-- ======== rows and hand-backs

theorem Tallied.commit (hle : day ≤ w.now) {k : Nat}
    (ha : (w.hist.admittedBy a).isSome) : Tallied day first early
      { w with
        rows := w.rows ++ [⟨w.chatOf a, true, w.now⟩]
        hist := { w.hist with committedAt := put w.hist.committedAt a (some k) } } := by
  have hlt := h.taken a ha
  have hcount : countSince (w.rows ++ [⟨w.chatOf a, true, w.now⟩]) day
      = countSince w.rows day + 1 := by
    unfold countSince
    rw [List.countP_append]
    simp [hle]
  have hcard : ∀ {y c}, c + (w.committedFrom y).card ≤ countSince w.rows day →
      c + (World.committedFrom { w with
        hist := { w.hist with committedAt := put w.hist.committedAt a (some k) } } y).card
          ≤ countSince (w.rows ++ [⟨w.chatOf a, true, w.now⟩]) day := by
    intro y c hcle
    rw [hcount]
    refine (Nat.add_le_add_left ((Finset.card_le_card ?_).trans
      (Finset.card_insert_le a (w.committedFrom y))) c).trans (Nat.succ_le_succ hcle)
    intro x hx
    obtain ⟨hxlt, hyx, hsome⟩ := mem_committedFrom.mp hx
    by_cases hxa : x = a
    · exact Finset.mem_insert.mpr (.inl hxa)
    · refine Finset.mem_insert.mpr (.inr (mem_committedFrom.mpr ⟨hxlt, hyx, ?_⟩))
      simpa [put, hxa] using hsome
  refine { h with unborn := ?unborn, calls := ?calls, counts := ?counts }
  case unborn =>
    intro x hx
    have hxa : x ≠ a := by
      rintro rfl
      exact absurd hlt (Nat.not_lt.mpr hx)
    refine ⟨(h.unborn x hx).1, ?_⟩
    simpa [put, hxa] using (h.unborn x hx).2
  case calls =>
    intro q hq d n hreading
    obtain ⟨hd, hn⟩ := h.calls q hq d n hreading
    refine ⟨hd, fun heq c hc => ?_⟩
    rw [hcount]
    exact (hn heq c hc).trans (Nat.le_succ _)
  case counts =>
    intro hfresh x hx
    refine (h.counts hfresh x hx).imp_right ?_
    rintro ⟨c, hc, hcle⟩
    exact ⟨c, hc, hcard hcle⟩

theorem Tallied.handBack (ha : a < w.svc.next) :
    Tallied day first early
      { w with
        svc := Pacing.settle w.now a false w.svc
        settled := put w.settled a true
        hist := { w.hist with handedBack := put w.hist.handedBack a true } } := by
  obtain ⟨hnext, hcount, hheld, hhold⟩ := settle_handBack_spec w.now a w.svc
  have hsub : (Pacing.settle w.now a false w.svc).held.Sublist w.svc.held :=
    hheld ▸ List.erase_sublist
  have hnodup : w.svc.held.Nodup := h.sorted.imp fun hlt => Nat.ne_of_lt hlt
  refine
    { first_le := hnext ▸ h.first_le
      sorted := h.sorted.sublist hsub
      held := ?held
      unborn := ?unborn
      taken := hnext ▸ h.taken
      hold_day := ?hold_day
      stale := fun hst => hnext ▸ h.stale (stale_of_settle w.now a hst)
      calls := h.calls
      counts := ?counts }
  case held =>
    intro x hx
    change x ∈ (Pacing.settle w.now a false w.svc).held at hx
    rw [hheld, hnodup.mem_erase_iff] at hx
    dsimp only
    rw [hnext]
    simpa [put, hx.1] using h.held x hx.2
  case unborn =>
    intro x hx
    change (Pacing.settle w.now a false w.svc).next ≤ x at hx
    have hxa : x ≠ a := by omega
    refine ⟨?_, (h.unborn x (hnext ▸ hx)).2⟩
    simpa [put, hxa] using (h.unborn x (hnext ▸ hx)).1
  case hold_day =>
    intro hold hmem
    obtain ⟨before, hbefore, hday⟩ := hhold hold hmem
    rw [hday]
    exact h.hold_day before hbefore
  case counts =>
    intro hfresh x hx
    unfold World.committedFrom
    dsimp only
    rw [hcount, hnext]
    refine h.counts ?_ x (hsub.subset hx)
    -- a hold that is left is of the day the old one was of
    rintro ⟨before, hbefore, hne⟩
    cases hold : (Pacing.settle w.now a false w.svc).hold with
    | none =>
      rw [held_none _ hold] at hx
      cases hx
    | some after =>
      obtain ⟨before', hbefore', hday⟩ := hhold after hold
      cases hbefore.symm.trans hbefore'
      exact hfresh ⟨after, hold, hday ▸ hne⟩

-- ======== admissions

/-- An admission is taken with a count of rows that are there. -/
theorem Tallied.push {s₁ : Service} {adm : Admission} {q : Nat}
    (hfilled : Filled w.now day (· ≤ countSince w.rows day) w.svc s₁)
    (hall : ∀ i ∈ s₁.held, (s₁.heap i).sentToday ≠ none) (hadm : adm.sentToday = some n)
    (hn : n ≤ countSince w.rows day) : Tallied day first early (admittedWorld w q s₁ day adm) := by
  -- the refreshed hold is tallied, then one admission is put behind it
  have h₁ : Tallied day first early { w with svc := s₁ } :=
    h.of_filled (.inl hfilled) rfl rfl h.calls
  have hfirst : first ≤ s₁.next := h₁.first_le
  have hbelow : ∀ a ∈ s₁.held, a < s₁.next := fun a ha => (h₁.held a ha).1
  have hheap : ∀ i, i < s₁.next → (admittedWorld w q s₁ day adm).svc.heap i = s₁.heap i :=
    fun i hi => setAt_ne _ _ (by omega)
  obtain ⟨hpush, hfresh⟩ := pushAdmission_held hfilled.refreshed.day adm
  have hheld : (admittedWorld w q s₁ day adm).svc.held = s₁.held ++ [s₁.next] := hpush
  have hmem : ∀ {a}, a ∈ (admittedWorld w q s₁ day adm).svc.held → a ∈ s₁.held ∨ a = s₁.next := by
    intro a ha
    rwa [hheld, List.mem_append, List.mem_singleton] at ha
  have hfrom : ∀ y, (admittedWorld w q s₁ day adm).committedFrom y
      = ({ w with svc := s₁ } : World).committedFrom y := by
    intro y
    ext x
    rw [mem_committedFrom, mem_committedFrom]
    refine ⟨?_, fun ⟨hlt, hle, hsome⟩ => ⟨Nat.lt_succ_of_lt hlt, hle, hsome⟩⟩
    rintro ⟨-, hle, hsome⟩
    refine ⟨?_, hle, hsome⟩
    by_contra hge
    exact absurd ((h₁.unborn x (Nat.not_lt.mp hge)).2) (Option.isSome_iff_ne_none.mp hsome)
  refine
    { first_le := Nat.le_succ_of_le hfirst
      sorted := ?sorted
      held := ?held
      unborn := fun a ha => h₁.unborn a (Nat.le_of_succ_le ha)
      taken := ?taken
      hold_day := ?hold_day
      stale := fun hst => absurd hst hfresh
      calls := ?calls
      counts := ?counts }
  case sorted =>
    rw [hheld]
    refine List.pairwise_append.mpr ⟨h₁.sorted, List.pairwise_singleton _ _, ?_⟩
    intro a ha b hb
    rw [List.mem_singleton.mp hb]
    exact hbelow a ha
  case held =>
    intro a ha
    rcases hmem ha with ha | rfl
    · exact (h₁.held a ha).imp_left Nat.lt_succ_of_lt
    · exact ⟨Nat.lt_succ_self _, (h₁.unborn _ le_rfl).1, fun hlt => by omega⟩
  case taken =>
    intro a ha
    show a < s₁.next + 1
    by_cases hnew : a = s₁.next
    · omega
    · refine Nat.lt_succ_of_lt (h₁.taken a ?_)
      simpa [admittedWorld, World.endCall, World.setPhase, put, hnew] using ha
  case hold_day =>
    intro hold hmem
    by_contra hgt
    exact hfresh ⟨hold, hmem, by omega⟩
  case calls =>
    intro p hp d n hreading
    by_cases hpq : p = q
    · simp [admittedWorld, World.endCall, World.setPhase, put, hpq, Phase.reading] at hreading
    · refine h.calls p hp d n ?_
      rwa [(admittedWorld_calls adm ⟨day, 0, 0, 0⟩ w s₁ hpq).1] at hreading
  case counts =>
    intro _ x hx
    rw [hfrom]
    rcases hmem hx with hx | rfl
    · rw [hheap x (hbelow x hx)]
      refine (h₁.counts hfilled.refreshed.not_stale x hx).imp_left ?_
      exact fun hnone => absurd hnone.1 (hall x hx)
    · refine .inr ⟨n, (congrArg Admission.sentToday (setAt_same _ _ adm)).trans hadm, ?_⟩
      rw [committedFrom_eq_empty (le_max_left _ first), Finset.card_empty, Nat.add_zero]
      exact hn

end

-- ======== the calls

/-- What a phase must satisfy to be that of a tallied call. -/
def PhaseOk (day : Nat) (w : World) (p : Phase) : Prop :=
  ∀ d n, p.reading = some (d, n) → d ≤ day ∧ (d = day → ∀ c ∈ n, c ≤ countSince w.rows day)

theorem SvcFilled.self : SvcFilled day w w.svc := .inr (SameHold.refl _)

theorem phaseOk_ended (v : Verdict) : PhaseOk day w (.ended v) := by
  intro d n h
  cases h

theorem phaseOk_opening : PhaseOk day w .opening := by
  intro d n h
  cases h

section

variable (h : Tallied day first early w)
include h

variable {q : Nat}

/-- A step of one call that takes no admission. -/
theorem Tallied.move {nc : Nat} {c : Call} {ra ja : Nat → Option Nat} (hsvc : SvcFilled day w svc)
    (hothers : ∀ p < nc, p ≠ q → p < w.nextCall) (hok : PhaseOk day w c.phase) :
    Tallied day first early (movedWorld w svc q nc c ra ja) := by
  refine h.of_filled hsvc rfl rfl ?_
  intro p hp
  by_cases hpq : p = q
  · intro d n hreading
    refine hok d n ?_
    simpa [movedWorld, put, hpq] using hreading
  · intro d n hreading
    refine h.calls p (hothers p hp hpq) d n ?_
    simpa [movedWorld, put, hpq] using hreading

theorem Tallied.setPhase {p : Phase}
    (hsvc : SvcFilled day w svc) (hok : PhaseOk day w p) :
    Tallied day first early ({ w with svc := svc }.setPhase q p) :=
  h.move hsvc (fun _ hp _ => hp) hok

theorem Tallied.endCall (v : Verdict)
    (hsvc : SvcFilled day w svc) : Tallied day first early ({ w with svc := svc }.endCall q v) :=
  h.move hsvc (fun _ hp _ => hp) (phaseOk_ended v)

theorem Tallied.restart (ses : Session) (q : Nat) : Tallied day first early (w.restart ses q) := by
  have hbreaker : SvcFilled day w (assertBreakerClosed w.now ses.cfg w.svc).1 :=
    .inr (sameHold_breaker w.now ses.cfg w.svc)
  unfold World.restart
  split
  next svc r hres =>
    rw [hres] at hbreaker
    exact h.endCall (.refused r) hbreaker
  next svc hres =>
    rw [hres] at hbreaker
    exact h.setPhase hbreaker phaseOk_opening

variable {ses : Session} {q : Nat}

theorem Tallied.start (chatId : Option String) (opts : Opts) :
    Tallied day first early
      { w with
        calls := put w.calls w.nextCall ⟨chatId, opts, .opening⟩
        nextCall := w.nextCall + 1 } := by
  have hmoved : Tallied day first early (movedWorld w w.svc w.nextCall (w.nextCall + 1)
      ⟨chatId, opts, .opening⟩ w.hist.readAt w.hist.judgedAt) :=
    h.move SvcFilled.self (fun p hp hne => by omega) phaseOk_opening
  exact hmoved

theorem Tallied.count (hphase : (w.calls q).phase = .counting d)
    (hq : q < w.nextCall) : PhaseOk day w (.counted d (countSince w.rows d)) := by
  intro d' n hreading
  cases hreading
  refine ⟨(h.calls q hq d none (by rw [hphase]; rfl)).1, ?_⟩
  intro heq c hc
  cases hc
  rw [heq]

/-- The count of a call that is judged today. -/
theorem Tallied.read_le (hq : q < w.nextCall)
    (hphase : (w.calls q).phase.reading = some (day, some n)) : n ≤ countSince w.rows day :=
  (h.calls q hq day (some n) hphase).2 rfl n rfl

theorem Tallied.judge (hday : startOfUtcDay w.now = day)
    (hphase : (w.calls q).phase = .counted d n) (hq : q < w.nextCall) :
    Tallied day first early (w.judge ses q d n) := by
  unfold World.judge
  split
  next => exact h.restart ses q
  next hsame =>
    obtain rfl : day = d := hday.symm.trans (not_not.mp hsame)
    have hn := h.read_le hq (n := n) (by rw [hphase]; rfl)
    have hfilled : SvcFilled day w (assertUnderDailyCap w.now day (ses.age day)
        (ses.allowance day) n w.svc).1 :=
      .inl (assertUnderDailyCap_spec w.now day (ses.age day)
        (ses.allowance day) n w.svc hn).1.toFilled
    split
    next svc r hres =>
      rw [hres] at hfilled
      exact h.endCall (.refused r) hfilled
    next svc hres =>
      rw [hres] at hfilled
      refine h.setPhase hfilled ?_
      intro d' n' hreading
      cases hreading
      exact ⟨Nat.le_refl _, fun _ c hc => Option.some.inj hc ▸ hn⟩

theorem Tallied.grant (hday : startOfUtcDay w.now = day)
    {cold : Option ColdRead} (hphase : (w.calls q).phase = .probed d n cold) (hq : q < w.nextCall) :
    Tallied day first early (w.grant ses q d n cold) := by
  unfold World.grant
  split
  next => exact h.restart ses q
  next hsame =>
    obtain rfl : day = d := hday.symm.trans (not_not.mp hsame)
    have hn := h.read_le hq (n := n) (by rw [hphase]; rfl)
    simp only
    rcases judgeAndAdmit_spec (· ≤ countSince w.rows day) w.now day (ses.age day)
      (ses.allowance day) n cold (w.calls q).chatId (w.calls q).opts w.svc hn with
      ⟨hnot, hfilled⟩ | ⟨s₁, adm, hfilled, -, hroom, hadm, heq⟩
    · split
      next svc a hres => exact absurd (congrArg Prod.snd hres) (hnot a)
      next svc v _ hres =>
        rw [hres] at hfilled
        exact h.endCall v (.inl hfilled.toFilled)
    · rw [heq]
      exact h.push hfilled.toFilled hroom.counted hadm hn

-- ======== the steps

theorem Tallied.close : Tallied day first early w.close :=
  { h with }

variable {a : Act}

/-- Every act keeps the tally of the day. -/
theorem Tallied.act (hday : startOfUtcDay w.now = day)
    (hs : w.act ses a = some w₁) : Tallied day first early w₁ := by
  have hle : day ≤ w.now := by
    rw [← hday]
    exact Nat.div_mul_le_self _ _
  cases moves_of_act hs with
  | start => exact (h.start _ _).restart ses w.nextCall
  | startOff => exact (h.start _ _).endCall .unheld SvcFilled.self
  | lookupGone => exact h.endCall .unheld SvcFilled.self
  | lookup =>
    refine h.setPhase SvcFilled.self ?_
    intro d n hreading
    cases hreading
    exact ⟨hday.le, fun _ c hc => by cases hc⟩
  | count hphase hq =>
    exact h.move SvcFilled.self (fun _ hp _ => hp) (h.count hphase hq)
  | judge hphase hq => exact h.judge hday hphase hq
  | probe hphase hq =>
    refine h.setPhase SvcFilled.self ?_
    intro d n hreading
    refine h.calls _ hq d n ?_
    rw [hphase]
    exact hreading
  | grant hphase hq => exact h.grant hday hphase hq
  | commit hby => exact h.commit hle hby
  | handBack ha => exact h.handBack ha
  | @reserve coldChats coldCount _ _ hsvc =>
    rw [hday] at hsvc
    refine h.of_filled (.inl ?_) rfl rfl h.calls
    exact hsvc ▸ reserveReachouts_filled w.now day (ses.age day) (ses.coldAllowance day)
      coldChats coldCount w.svc
  | kept hk =>
    refine h.of_filled (.inr hk.svc) (hk.rows day) (by rw [hk.hist]) ?_
    unfold CallTallied
    rw [hk.nextCall, hk.calls, hk.rows day]
    exact h.calls

/-- At midnight the count starts over: what is held is carried over, and no
count of the day before is one of today. -/
theorem Tallied.midnight {ms : Nat}
    (hs : (pacing ses).step (.tick ms) w = some w₁) (hlt : day < startOfUtcDay w₁.now) :
    Tallied (startOfUtcDay w₁.now) w.svc.next w.svc.held w₁ := by
  cases hs
  have hstale : w.svc.held ≠ [] → Stale (startOfUtcDay (w.now + ms)) w.svc := by
    intro hne
    cases hold : w.svc.hold with
    | none => exact absurd (held_none w.svc hold) hne
    | some held =>
      have hle := h.hold_day held hold
      refine ⟨held, hold, ?_⟩
      intro heq
      exact absurd (heq ▸ hle) (Nat.not_le.mpr hlt)
  refine ⟨le_rfl, h.sorted, fun a ha => ⟨(h.held a ha).1, (h.held a ha).2.1, fun _ => ha⟩,
    h.unborn, h.taken, ?_, fun _ => rfl, ?_, ?_⟩
  · intro held hmem
    exact (h.hold_day held hmem).trans hlt.le
  · intro q hq d n hreading
    have hd := (h.calls q hq d n hreading).1
    refine ⟨hd.trans hlt.le, fun heq => ?_⟩
    exact absurd (heq ▸ hd) (Nat.not_le.mpr hlt)
  · intro hfresh x hx
    exact absurd (hstale (List.ne_nil_of_mem hx)) hfresh

theorem Tallied.step (hday : startOfUtcDay w.now = day) (hs : (pacing ses).step a w = some w₁) :
    Tallied day first early w₁ := by
  obtain ⟨w', hact, rfl⟩ := Option.map_eq_some_iff.mp hs
  exact (h.act hday hact).close

end

end OpenWA.Pacing

/-
The daily cap never refuses below the allowance, as far as a day's own sends
go: what it judges is at most the rows of the day, the day's admissions that
have no row yet, and the admissions carried over from an earlier day.

# The argument

Every state of a run is tallied for its day, with a new tally at each
midnight. What is held from an index of the hold on is carried over, or has
a row, or has none; the first kind and the last are terms of their own, and
the rows of the second kind are not in the count read at that index.
-/
import OpenWA.Pacing.Proofs.Tallied

namespace OpenWA.Pacing

variable {ses : Session} {day first q : Nat} {early : List Nat} {w w₁ : World}

-- ======== the runs

/-- An empty hold is tallied. -/
theorem Fresh.tallied (h : Fresh w) (hempty : w.svc.hold = none) :
    Tallied (startOfUtcDay w.now) w.svc.next w.svc.held w := by
  have hheld := held_none w.svc hempty
  refine ⟨le_rfl, by simp [hheld], by simp [hheld], fun a _ => ⟨h.handedBack a, h.committedAt a⟩,
    ?_, by simp [hempty], fun _ => rfl, ?_, by simp [hheld]⟩
  · intro a ha
    rw [h.admittedBy a] at ha
    cases ha
  · intro q hq
    rw [h.calls] at hq
    omega

variable {b w₀ : World} {x allowance : Nat}

/-- Every state of a run from an empty hold is tallied, for its day. -/
theorem exists_tallied (hb : Fresh b) (hempty : b.svc.hold = none) (hr : (pacing ses).Reach b w) :
    ∃ first early, Tallied (startOfUtcDay w.now) first early w := by
  have hstep : ∀ (a : Act) (t t' : World),
      (∃ first early, Tallied (startOfUtcDay t.now) first early t) →
      (pacing ses).step a t = some t' →
      ∃ first early, Tallied (startOfUtcDay t'.now) first early t' := by
    rintro a t t' ⟨first, early, h⟩ hs
    by_cases hsame : startOfUtcDay t.now = startOfUtcDay t'.now
    · have hnext := h.step rfl hs
      rw [hsame] at hnext
      exact ⟨first, early, hnext⟩
    · rcases now_step hs with heq | ⟨ms, rfl, -⟩
      · exact absurd (by rw [heq]) hsame
      · have hle := startOfUtcDay_mono (now_le_step hs)
        exact ⟨t.svc.next, t.svc.held, h.midnight hs (by omega)⟩
  exact hr.invariant ⟨b.svc.next, b.svc.held, hb.tallied hempty⟩ hstep

/-- `w₀` is the first state of its day in a run from `b`: the start of the
run, or the state just after the clock passed midnight. -/
def DayStart (ses : Session) (b w₀ : World) : Prop :=
  w₀ = b ∨ ∃ w₁ ms, (pacing ses).Reach b w₁ ∧ (pacing ses).step (.tick ms) w₁ = some w₀
    ∧ startOfUtcDay w₁.now ≠ startOfUtcDay w₀.now

/-- A day begins with what is held carried over. -/
theorem DayStart.tallied (hb : Fresh b) (hempty : b.svc.hold = none) (h : DayStart ses b w₀) :
    Tallied (startOfUtcDay w₀.now) w₀.svc.next w₀.svc.held w₀ := by
  rcases h with rfl | ⟨w₁, ms, hr, hs, hne⟩
  · exact hb.tallied hempty
  · obtain ⟨first, early, h⟩ := exists_tallied hb hempty hr
    have hle := startOfUtcDay_mono (now_le_step hs)
    have hsvc : w₀.svc = w₁.svc := by
      cases hs
      rfl
    rw [hsvc]
    exact h.midnight hs (by omega)

/-- The bookkeeping holds all day. -/
theorem Tallied.reach (h : Tallied (startOfUtcDay w₀.now) first early w₀)
    (hr : (pacing ses).Reach w₀ w) (hday : startOfUtcDay w.now = startOfUtcDay w₀.now) :
    Tallied (startOfUtcDay w₀.now) first early w := by
  refine reach_on_day h ?_ hr hday
  intro a t t' hday' ht hs
  exact ht.step hday' hs

-- ======== the bound

/-- A part of the hold is made of admissions carried over, of today's with
a row, and of today's without. -/
theorem Tallied.length_le (h : Tallied day first early w) {l : List Nat}
    (hsub : l.Sublist w.svc.held) (hfrom : ∀ a ∈ l, x ≤ a) :
    l.length ≤ (w.svc.held.filter fun a => a < first).length
      + ((w.committedFrom (max x first)).card + (w.outstanding first).card) := by
  have hnodup : l.Nodup := (h.sorted.sublist hsub).imp fun hlt => Nat.ne_of_lt hlt
  have hcarried : (l.filter fun a => a < first).length
      ≤ (w.svc.held.filter fun a => a < first).length := (hsub.filter _).length_le
  have htoday : (l.filter fun a => ¬ a < first).length
      ≤ (w.committedFrom (max x first)).card + (w.outstanding first).card := by
    rw [← List.toFinset_card_of_nodup (hnodup.filter _)]
    refine (Finset.card_le_card ?_).trans (Finset.card_union_le _ _)
    intro a ha
    simp only [List.mem_toFinset, List.mem_filter, decide_eq_true_eq, Nat.not_lt] at ha
    obtain ⟨hmem, hle⟩ := ha
    have hheld := hsub.subset hmem
    have hx := hfrom a hmem
    obtain ⟨hlt, halive, -⟩ := h.held a hheld
    rw [Finset.mem_union, mem_committedFrom, mem_outstanding]
    cases hc : w.hist.committedAt a with
    | none => exact .inr ⟨hlt, hle, halive, rfl⟩
    | some k => exact .inl ⟨hlt, max_le hx hle, rfl⟩
  have hsplit : (l.filter fun a => a < first).length
      + (l.filter fun a => ¬ a < first).length = l.length := by
    have := List.length_eq_length_filter_add (l := l) fun a => decide (a < first)
    simpa only [decide_not] using this.symm
  omega

variable {n now d : Nat} {age : Int} {s : Service} {r : Refusal}

/-- The count at any index of a hold, with the admissions from there on that
have a row, is of rows that are there. -/
theorem Tallied.count_le (h : Tallied day first early w) (hfresh : ¬ Stale day w.svc)
    (hx : x ∈ w.svc.held) (hn : n ≤ countSince w.rows day) :
    (w.svc.heap x).sentToday.getD n + (w.committedFrom (max x first)).card
      ≤ countSince w.rows day := by
  rcases h.counts hfresh x hx with ⟨hnone, hempty⟩ | ⟨c, hc, hle⟩
  · rw [hnone, committedFrom_eq_empty (hempty.trans_le (le_max_right x first)), Finset.card_empty]
    exact hn
  · rw [hc]
    exact hle

/-- What a check judges is at most the rows of the day, the day's admissions
without one, and what was carried over. -/
theorem Tallied.judged_le (h : Tallied day first early w) (hn : n ≤ countSince w.rows day) :
    w.judged day n ≤ countSince w.rows day + (w.outstanding first).card
      + (w.carried day first).length := by
  obtain ⟨href, hheld⟩ := heldAdmissions_spec w.now day w.svc
  -- the hold as the check finds it, after the lapsed part is dropped
  have h' : Tallied day first early { w with svc := (heldAdmissions w.now day w.svc).1 } :=
    h.of_filled (.inl (heldAdmissions_filled w.now day w.svc).1.toFilled) rfl rfl h.calls
  have hout : ({ w with svc := (heldAdmissions w.now day w.svc).1 } : World).outstanding first
      = w.outstanding first := by
    unfold World.outstanding
    rw [href.next]
  refine judgedSentToday_le_iff.mpr ⟨by omega, ?_⟩
  intro l₁ x l₂ hsplit
  rw [hheld] at hsplit
  have hsorted := h'.sorted
  simp only [hsplit] at hsorted
  have hfrom : ∀ a ∈ x :: l₂, x ≤ a := by
    intro a ha
    rcases List.mem_cons.mp ha with rfl | ha
    · exact le_rfl
    · have htail := (List.pairwise_append.mp hsorted).2.1
      exact (List.rel_of_pairwise_cons htail ha).le
  have hsub : (x :: l₂).Sublist (heldAdmissions w.now day w.svc).1.held :=
    hsplit ▸ List.sublist_append_right l₁ (x :: l₂)
  have hmem : x ∈ (heldAdmissions w.now day w.svc).1.held := hsub.subset List.mem_cons_self
  have hlength := h'.length_le hsub hfrom
  have hcount := h'.count_le href.not_stale hmem hn
  rw [hout] at hlength
  unfold World.carried
  rw [hheld]
  simp only [List.length_cons] at hlength
  simp only at hcount
  omega

-- ======== the refusals

theorem assertUnderDailyCap_refused (h : (assertUnderDailyCap now d age allowance n s).2 = some r) :
    allowance ≤ judgedSentToday n (heldAdmissions now d s).1.heap (heldAdmissions now d s).2 := by
  unfold assertUnderDailyCap at h
  simp only at h
  split at h
  · cases h
  · exact Nat.not_lt.mp ‹_›

theorem assertUnderColdCap_rule {cold : ColdRead}
    (h : (assertUnderColdCap now d age cold s).2 = some r) : r.rule = .coldDailyCap := by
  unfold assertUnderColdCap at h
  simp only at h
  split at h
  · cases h
  · cases h
    rfl

variable {cold : Option ColdRead}

theorem judgeCold_rule {key : String}
    (h : (judgeCold now d age key cold s).2 = some r) : r.rule = .coldDailyCap := by
  cases cold with
  | none => cases h
  | some c =>
    simp only [judgeCold] at h
    split at h
    · cases h
    · exact assertUnderColdCap_rule h

/-- A refusal by the daily cap saw the allowance reached. -/
theorem judgeAndAdmit_refused {chatId : Option String} {opts : Opts}
    (h : (judgeAndAdmit now d age allowance n cold chatId opts s).2 = .refused r)
    (hrule : r.rule = .dailyCap) :
    allowance ≤ judgedSentToday n (heldAdmissions now d s).1.heap (heldAdmissions now d s).2 := by
  unfold judgeAndAdmit at h
  split at h
  next s₁ r₁ hres => exact assertUnderDailyCap_refused (congrArg Prod.snd hres)
  next s₁ hres =>
    split at h
    · cases h
    · simp only at h
      split at h
      next s₂ r₂ hcold =>
        cases h
        rw [judgeCold_rule (congrArg Prod.snd hcold)] at hrule
        cases hrule
      next => split at h <;> cases h

theorem restart_refused (h : ((w.restart ses q).calls q).phase = .ended (.refused r)) :
    r.rule = .breakerOpen := by
  unfold World.restart at h
  split at h
  next svc r₁ hres =>
    have hr₁ : r₁ = r := by simpa [World.endCall, World.setPhase, put] using h
    rw [← hr₁]
    unfold assertBreakerClosed at hres
    split at hres
    · cases hres
    · simp only at hres
      split at hres <;> cases hres
      rfl
  next => simp [World.setPhase, put] at h

/-- The check of call `q` has read a count for today, and what it judges has
reached the allowance. -/
def Reached (ses : Session) (day : Nat) (w : World) (q : Nat) : Prop :=
  q < w.nextCall ∧ ∃ n, (w.calls q).phase.reading = some (day, some n)
    ∧ ses.allowance day ≤ w.judged day n

theorem restart_not_dailyCap (hrule : r.rule = .dailyCap) :
    ((w.restart ses q).calls q).phase ≠ .ended (.refused r) := by
  intro h
  rw [restart_refused h] at hrule
  cases hrule

section

variable (hday : startOfUtcDay w.now = day)
include hday

theorem judge_refused (hwas : (w.calls q).phase = .counted d n)
    (hq : q < w.nextCall) (hphase : ((w.judge ses q d n).calls q).phase = .ended (.refused r))
    (hrule : r.rule = .dailyCap) : Reached ses day w q := by
  by_cases hd : day = d
  · subst hd
    rw [World.judge, if_neg (not_not.mpr hday)] at hphase
    refine ⟨hq, n, by rw [hwas]; rfl, ?_⟩
    split at hphase
    next svc r₁ hres => exact assertUnderDailyCap_refused (congrArg Prod.snd hres)
    next => simp [World.setPhase, put] at hphase
  · rw [World.judge, if_pos (hday ▸ hd)] at hphase
    exact absurd hphase (restart_not_dailyCap hrule)

theorem grant_refused (hwas : (w.calls q).phase = .probed d n cold) (hq : q < w.nextCall)
    (hphase : ((w.grant ses q d n cold).calls q).phase = .ended (.refused r))
    (hrule : r.rule = .dailyCap) : Reached ses day w q := by
  by_cases hd : day = d
  · subst hd
    rw [World.grant, if_neg (not_not.mpr hday)] at hphase
    refine ⟨hq, n, by rw [hwas]; rfl, ?_⟩
    simp only at hphase
    split at hphase
    next => simp [World.endCall, World.setPhase, put] at hphase
    next svc v _ hres =>
      have hv : v = .refused r := by
        simpa [World.endCall, World.setPhase, put] using hphase
      rw [hv] at hres
      exact judgeAndAdmit_refused (congrArg Prod.snd hres) hrule
  · rw [World.grant, if_pos (hday ▸ hd)] at hphase
    exact absurd hphase (restart_not_dailyCap hrule)

/-- A refusal by the daily cap, at either judgement. -/
theorem reached_of_refused
    (hs : (pacing ses).step (.judge q) w = some w₁ ∨ (pacing ses).step (.grant q) w = some w₁)
    (hphase : (w₁.calls q).phase = .ended (.refused r)) (hrule : r.rule = .dailyCap) :
    Reached ses day w q := by
  rcases hs with hs | hs
  all_goals
    obtain ⟨w', hact, rfl⟩ := Option.map_eq_some_iff.mp hs
    rw [close_calls] at hphase
    simp only [World.act] at hact
    split at hact
  case h_1 d n hwas =>
    obtain ⟨hq, ⟨⟩⟩ := Option.ite_none_right_eq_some.mp hact
    exact judge_refused hday hwas hq hphase hrule
  case h_1 d n cold hwas =>
    obtain ⟨hq, ⟨⟩⟩ := Option.ite_none_right_eq_some.mp hact
    exact grant_refused hday hwas hq hphase hrule
  all_goals cases hact

end

-- ======== the result

/-- On any day of a run that started with an empty hold, what a check judges
is at most the rows of the day, the day's admissions that were not handed
back and have no row yet, and the admissions still held from an earlier day;
a refusal by the daily cap means that this total has reached the allowance.
The last term is empty when nothing was held as the day began, and is
otherwise a part of what was. -/
theorem daily_cap_refuses_at_allowance (ses : Session) {b w₀ w : World} (hb : Fresh b)
    (hempty : b.svc.hold = none) (h₀ : DayStart ses b w₀) (hr : (pacing ses).Reach w₀ w)
    (hday : startOfUtcDay w.now = startOfUtcDay w₀.now) :
    (∀ q < w.nextCall, ∀ n,
      (w.calls q).phase.reading = some (startOfUtcDay w₀.now, some n) →
      w.judged (startOfUtcDay w₀.now) n
        ≤ countSince w.rows (startOfUtcDay w₀.now) + (w.outstanding w₀.svc.next).card
          + (w.carried (startOfUtcDay w₀.now) w₀.svc.next).length)
    ∧ (∀ q w' r, ((pacing ses).step (.judge q) w = some w'
          ∨ (pacing ses).step (.grant q) w = some w') →
        (w'.calls q).phase = .ended (.refused r) → r.rule = .dailyCap →
        ses.allowance (startOfUtcDay w₀.now)
          ≤ countSince w.rows (startOfUtcDay w₀.now) + (w.outstanding w₀.svc.next).card
            + (w.carried (startOfUtcDay w₀.now) w₀.svc.next).length)
    ∧ (w.carried (startOfUtcDay w₀.now) w₀.svc.next ⊆ w₀.svc.held) := by
  have h := (h₀.tallied hb hempty).reach hr hday
  refine ⟨?_, ?_, ?_⟩
  · intro q hq n hreading
    exact h.judged_le (h.read_le hq hreading)
  · intro q w' r hs hphase hrule
    obtain ⟨hq, n, hreading, hle⟩ := reached_of_refused hday hs hphase hrule
    exact hle.trans (h.judged_le (h.read_le hq hreading))
  · intro a ha
    obtain ⟨hmem, hlt⟩ := List.mem_filter.mp ha
    obtain ⟨href, hheld⟩ := heldAdmissions_spec w.now (startOfUtcDay w₀.now) w.svc
    rw [hheld] at hmem
    exact (h.held a (href.sublist.subset hmem)).2.2 (by simpa using hlt)

/-- Whether a call was refused by this rule. -/
def World.refusedBy (w : World) (q : Nat) (rule : RefusalReason) : Bool :=
  match (w.calls q).phase with
  | .ended (.refused r) => r.rule = rule
  | _ => false

theorem World.refusedBy_iff {rule : RefusalReason} :
    w.refusedBy q rule = true ↔ ∃ r, (w.calls q).phase = .ended (.refused r) ∧ r.rule = rule := by
  unfold World.refusedBy
  split
  next r hphase => simp [hphase]
  next hnot =>
    constructor
    · intro h
      cases h
    · rintro ⟨r, hphase, -⟩
      exact absurd hphase (hnot r)

/-- Send `q`, admitted while its attachment is still being prepared. -/
def preparing (q : Nat) : List Act :=
  [.start (some "1@c.us") ⟨true, false, true⟩, .lookup q, .count q, .judge q, .probe q none,
   .grant q]

/-- A second send, up to its first judgement. -/
def second : List Act := [.start (some "2@c.us") ⟨true, true, false⟩, .lookup 1, .count 1]

/-- A second send is refused while the first has no row yet. -/
theorem daily_cap_refuses_prepared : ∃ w w' r, (pacing oneADay).Reach idle w
    ∧ (pacing oneADay).step (.judge 1) w = some w'
    ∧ (w'.calls 1).phase = .ended (.refused r) ∧ r.rule = .dailyCap
    ∧ oneADay.allowance 0 ≤ countSince w.rows 0 + (w.outstanding 0).card
      + (w.carried 0 0).length := by
  obtain ⟨w, hr, hw⟩ := Machine.exists_reach_of_run (M := pacing oneADay) idle
    (preparing 0 ++ second) (fun w : World => decide (startOfUtcDay w.now = 0)
      && ((pacing oneADay).step (.judge 1) w).any fun w' : World => w'.refusedBy 1 .dailyCap)
    (by decide +kernel)
  obtain ⟨hday, hw⟩ := Bool.and_eq_true_iff.mp hw
  obtain ⟨w', hs, hrefused⟩ := (Option.any_eq_true _ _).mp hw
  obtain ⟨r, hphase, hrule⟩ := World.refusedBy_iff.mp hrefused
  have hle := (daily_cap_refuses_at_allowance oneADay fresh_idle rfl (.inl rfl) hr
    (of_decide_eq_true hday)).2.1 1 w' r (.inl hs) hphase hrule
  exact ⟨w, w', r, hr, hs, hphase, hrule, hle⟩

/-- The send still being prepared at midnight is held on the new day, where
it has no row and is no admission of the day: the day's first send is
refused under an allowance of one. -/
theorem carried_over_refuses : ∃ w₀ w w' r, DayStart oneADay idle w₀
    ∧ (pacing oneADay).Reach w₀ w ∧ startOfUtcDay w.now = startOfUtcDay w₀.now
    ∧ (pacing oneADay).step (.judge 1) w = some w'
    ∧ (w'.calls 1).phase = .ended (.refused r) ∧ r.rule = .dailyCap
    ∧ countSince w.rows (startOfUtcDay w₀.now) + (w.outstanding w₀.svc.next).card
      < oneADay.allowance (startOfUtcDay w₀.now) := by
  obtain ⟨w₁, hr₁, h₁⟩ := Machine.exists_reach_of_run (M := pacing oneADay) idle (preparing 0)
    (fun w₁ : World => ((pacing oneADay).step (.tick dayMs) w₁).any fun w₀ : World =>
      decide (startOfUtcDay w₁.now ≠ startOfUtcDay w₀.now)
      && ((pacing oneADay).run w₀ second).any fun w : World =>
        decide (startOfUtcDay w.now = startOfUtcDay w₀.now)
        && decide (countSince w.rows (startOfUtcDay w₀.now) + (w.outstanding w₀.svc.next).card
          < oneADay.allowance (startOfUtcDay w₀.now))
        && ((pacing oneADay).step (.judge 1) w).any fun w' : World => w'.refusedBy 1 .dailyCap)
    (by decide +kernel)
  obtain ⟨w₀, htick, h₀⟩ := (Option.any_eq_true _ _).mp h₁
  obtain ⟨hne, h₀⟩ := Bool.and_eq_true_iff.mp h₀
  obtain ⟨w, hr, hw⟩ := (Option.any_eq_true _ _).mp h₀
  obtain ⟨hw, hstep⟩ := Bool.and_eq_true_iff.mp hw
  obtain ⟨hday, hroom⟩ := Bool.and_eq_true_iff.mp hw
  obtain ⟨w', hs, hrefused⟩ := (Option.any_eq_true _ _).mp hstep
  obtain ⟨r, hphase, hrule⟩ := World.refusedBy_iff.mp hrefused
  exact ⟨w₀, w, w', r, .inr ⟨w₁, dayMs, hr₁, htick, of_decide_eq_true hne⟩,
    Machine.reach_of_run hr, of_decide_eq_true hday, hs, hphase, hrule, of_decide_eq_true hroom⟩

/-- On every day of a run the hold lists admissions in the order they were
taken, each once and none that was handed back. -/
theorem hold_in_order (ses : Session) (hb : Fresh b) (hempty : b.svc.hold = none)
    (hr : (pacing ses).Reach b w) : w.svc.held.Pairwise (· < ·)
      ∧ ∀ a ∈ w.svc.held, a < w.svc.next ∧ w.hist.handedBack a = false := by
  obtain ⟨first, early, h⟩ := exists_tallied hb hempty hr
  exact ⟨h.sorted, fun a ha => ⟨(h.held a ha).1, (h.held a ha).2.1⟩⟩

/-- A session that may send three messages a day. -/
def threeADay : Session := ⟨⟨true, [3], [], 5, 900000⟩, some 0⟩

/-- Three sends are admitted, the second one is handed back, and midnight
passes before a fourth is admitted. -/
theorem hold_in_order_prepared : ∃ w, (pacing threeADay).Reach idle w ∧ dayMs ≤ w.now
    ∧ w.hist.handedBack 1 = true ∧ w.svc.held = [0, 2, 3] ∧ w.svc.held.Pairwise (· < ·)
    ∧ ∀ a ∈ w.svc.held, w.hist.handedBack a = false := by
  obtain ⟨w, hr, hw⟩ := Machine.exists_reach_of_run (M := pacing threeADay) idle
    (preparing 0 ++ preparing 1 ++ preparing 2 ++ [.settle 1 false, .tick dayMs] ++ preparing 3)
    (fun w : World => decide (dayMs ≤ w.now ∧ w.hist.handedBack 1 = true
      ∧ w.svc.held = [0, 2, 3])) (by decide +kernel)
  obtain ⟨hday, hback, hheld⟩ := of_decide_eq_true hw
  obtain ⟨hsorted, hheld'⟩ := hold_in_order threeADay fresh_idle rfl hr
  exact ⟨w, hr, hday, hback, hheld, hsorted, fun a ha => (hheld' a ha).2⟩

end OpenWA.Pacing

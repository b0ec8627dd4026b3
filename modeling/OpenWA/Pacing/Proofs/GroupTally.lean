/-
The group tally of a session is exact: what is read for the current day is
what that day's reservations not yet refunded have charged.

# The stored entry

There is one entry, of the last day a batch was reserved on. It is replaced
by the first reservation of a later day, so until then it is an old day's,
and a refund may reach it or come too late for it. No reservation is of a
later day than the entry, and the entry's count is what the outstanding
reservations of its own day charged (`Accounted`): a refund of that day finds
at least its own charge there, and one of another day finds nothing to do.
-/
import OpenWA.Pacing.Proofs.DailyCap

namespace OpenWA.Pacing

-- ======== reservations

/-- What a reservation charges to a day. -/
def GroupReachoutReservation.chargedTo (r : GroupReachoutReservation) (day : Nat) : Nat :=
  if r.dayStartMs = day then r.coldCount else 0

/-- What the reservations charge to a day. -/
def chargedTo (day : Nat) : List GroupReachoutReservation → Nat
  | [] => 0
  | r :: rest => r.chargedTo day + chargedTo day rest

variable {r : GroupReachoutReservation} {rs : List GroupReachoutReservation} {day : Nat} (day) in
/-- A refunded reservation takes its own charge away. -/
theorem chargedTo_erase (h : r ∈ rs) :
    chargedTo day rs = r.chargedTo day + chargedTo day (rs.erase r) := by
  induction rs with
  | nil => cases h
  | cons q rs ih =>
    by_cases hq : q = r
    · rw [hq, List.erase_cons_head]
      rfl
    · have hmem : r ∈ rs := (List.mem_cons.mp h).resolve_left (Ne.symm hq)
      rw [List.erase_cons_tail (by simpa using hq)]
      simp only [chargedTo, ih hmem]
      omega

/-- No reservation is of this day. -/
theorem chargedTo_eq_zero (h : ∀ r ∈ rs, r.dayStartMs ≠ day) : chargedTo day rs = 0 := by
  induction rs with
  | nil => rfl
  | cons q rs ih =>
    have hq : q.chargedTo day = 0 := if_neg (h q List.mem_cons_self)
    simp only [chargedTo, hq, ih fun r hr => h r (List.mem_cons_of_mem q hr)]

-- ======== who keeps the tally

variable {s : Service}

/-- The tally is left alone by the caps and the admission. -/
theorem groupReachoutTally_judgeAndAdmit (now d : Nat) (age : Int) (allowance sentToday : Nat)
    (cold : Option ColdRead) (chatId : Option String) (opts : Opts) (s : Service) :
    (judgeAndAdmit now d age allowance sentToday cold chatId opts s).1.groupReachoutTally
      = s.groupReachoutTally := by
  rcases judgeAndAdmit_spec (fun _ => True) now d age allowance sentToday cold chatId opts s
    trivial with ⟨-, hjudged⟩ | ⟨s₁, adm, hjudged, -, -, -, heq⟩
  · exact hjudged.tally
  · rw [heq]
    exact hjudged.tally

theorem groupReachoutTally_settle (now a : Nat) (mayHaveSent : Bool) :
    (settle now a mayHaveSent s).groupReachoutTally = s.groupReachoutTally := by
  unfold settle
  repeat' split
  all_goals rfl

theorem groupReachoutTally_assertBreakerClosed (now : Nat) (cfg : SendPacingConfig)
    (s : Service) :
    (assertBreakerClosed now cfg s).1.groupReachoutTally = s.groupReachoutTally := by
  unfold assertBreakerClosed
  dsimp only
  repeat' split
  all_goals rfl

-- ======== the steps

variable {ses : Session} {w v w' : World}

/-- What a step may do to the tally and the reservations. -/
inductive TallyMove (w w' : World) : Prop
  | quiet (htally : w'.svc.groupReachoutTally = w.svc.groupReachoutTally)
      (hres : w'.reservations = w.reservations) (hnow : w.now ≤ w'.now)
  | reserves (n : Nat)
      (htally : w'.svc.groupReachoutTally
        = (addGroupReachouts (startOfUtcDay w.now) n w.svc).groupReachoutTally)
      (hres : w'.reservations = ⟨n, startOfUtcDay w.now⟩ :: w.reservations)
      (hnow : w'.now = w.now)
  | refunds (r : GroupReachoutReservation) (hr : r ∈ w.reservations)
      (htally : w'.svc.groupReachoutTally = (refundGroupReachouts r w.svc).groupReachoutTally)
      (hres : w'.reservations = w.reservations.erase r) (hnow : w'.now = w.now)

/-- A step that keeps the clock, the tally and the reservations. -/
theorem TallyMove.of_eq (htally : w'.svc.groupReachoutTally = w.svc.groupReachoutTally)
    (hres : w'.reservations = w.reservations) (hnow : w'.now = w.now) : TallyMove w w' :=
  .quiet htally hres (Nat.le_of_eq hnow.symm)

theorem tallyMove_restart (q : Nat) (h : v.svc.groupReachoutTally = w.svc.groupReachoutTally)
    (hres : v.reservations = w.reservations) (hnow : v.now = w.now) :
    TallyMove w (v.restart ses q) := by
  have hbreaker := groupReachoutTally_assertBreakerClosed v.now ses.cfg v.svc
  unfold World.restart
  split
  all_goals
    next hsvc =>
      rw [hsvc] at hbreaker
      exact .of_eq (hbreaker.trans h) hres hnow

theorem tallyMove_judge (q d n : Nat) : TallyMove w (w.judge ses q d n) := by
  have hjudged : Judged w.now d (fun _ => True) w.svc _ :=
    (assertUnderDailyCap_spec w.now d (ses.age d) (ses.allowance d) n w.svc trivial).1
  have hcap := hjudged.tally
  unfold World.judge
  split
  · exact tallyMove_restart q rfl rfl rfl
  · split
    all_goals
      next hsvc =>
        rw [hsvc] at hcap
        exact .of_eq hcap rfl rfl

theorem tallyMove_grant (q d n : Nat) (cold : Option ColdRead) :
    TallyMove w (w.grant ses q d n cold) := by
  have hadmit := groupReachoutTally_judgeAndAdmit w.now d (ses.age d) (ses.allowance d) n cold
    (w.calls q).chatId (w.calls q).opts w.svc
  unfold World.grant
  split
  · exact tallyMove_restart q rfl rfl rfl
  · dsimp only
    split
    all_goals
      next hsvc =>
        rw [hsvc] at hadmit
        exact .of_eq hadmit rfl rfl

/-- A batch is reserved on the tally as it was, or refused and the tally
kept. -/
theorem reserveReachouts_tally (now d : Nat) (age : Int) (allowance coldChats coldCount : Nat)
    (s : Service) :
    ((reserveReachouts now d age allowance coldChats coldCount s).2 = .inl ⟨coldCount, d⟩ ∧
      (reserveReachouts now d age allowance coldChats coldCount s).1.groupReachoutTally
        = (addGroupReachouts d coldCount s).groupReachoutTally) ∨
    ((∃ r, (reserveReachouts now d age allowance coldChats coldCount s).2 = .inr r) ∧
      (reserveReachouts now d age allowance coldChats coldCount s).1.groupReachoutTally
        = s.groupReachoutTally) := by
  have hadd : ∀ s', s'.groupReachoutTally = s.groupReachoutTally →
      (addGroupReachouts d coldCount s').groupReachoutTally
        = (addGroupReachouts d coldCount s).groupReachoutTally := by
    intro s' h
    unfold addGroupReachouts
    rw [h]
    repeat' split
    all_goals rfl
  have hchat : Judged now d (fun _ => True) s _ := chatReachoutsToday_filled now d coldChats s
  unfold reserveReachouts
  dsimp only
  split
  · exact .inl ⟨rfl, hadd _ hchat.tally⟩
  · refine .inr ⟨⟨_, rfl⟩, ?_⟩
    split
    · exact (hchat.trans (heldAdmissions_filled now d _).1).tally
    · exact hchat.tally

variable {a : Act}

theorem tallyMove_act : Leads (TallyMove w) (w.act ses a) := by
  cases a
  case tick ms =>
    exact .quiet rfl rfl (Nat.le_add_right _ _)
  case reserve coldChats coldCount =>
    have htally := reserveReachouts_tally w.now (startOfUtcDay w.now)
      (ses.age (startOfUtcDay w.now)) (ses.coldAllowance (startOfUtcDay w.now))
      coldChats coldCount w.svc
    simp only [World.act]
    split
    next svc r hres =>
      rw [hres] at htally
      rcases htally with ⟨hr, hcharged⟩ | ⟨⟨r', hr⟩, -⟩
      · exact .reserves coldCount hcharged (by rw [Sum.inl.inj hr]) rfl
      · cases hr
    next svc r hres =>
      rw [hres] at htally
      rcases htally with ⟨hr, -⟩ | ⟨-, hkept⟩
      · cases hr
      · exact .of_eq hkept rfl rfl
  case refund r =>
    simp only [World.act]
    split
    next hr =>
      exact .refunds r hr rfl rfl rfl
    next => trivial
  all_goals
    simp only [World.act, recordSendFailure, recordSendSuccess]
    repeat' split
  all_goals first
    | exact .of_eq rfl rfl rfl
    | exact tallyMove_restart _ rfl rfl rfl
    | exact tallyMove_judge _ _ _
    | exact tallyMove_grant _ _ _ _
    | exact .of_eq (groupReachoutTally_settle _ _ _) rfl rfl
    | trivial

/-- Every step reserves, refunds or leaves the tally. -/
theorem tallyMove_step (hs : (pacing ses).step a w = some w') : TallyMove w w' := by
  obtain ⟨v, hv, rfl⟩ := Option.map_eq_some_iff.mp hs
  cases tallyMove_act.to hv with
  | quiet htally hres hnow => exact .quiet htally hres hnow
  | reserves n htally hres hnow => exact .reserves n htally hres hnow
  | refunds r hr htally hres hnow => exact .refunds r hr htally hres hnow

-- ======== the invariant

/-- The stored entry accounts for the reservations: none without an entry,
none of a later day, and its count is what its own day's charged. -/
structure Accounted (tally : Option GroupTally) (rs : List GroupReachoutReservation)
    (today : Nat) : Prop where
  absent : tally = none → rs = []
  entry : ∀ t, tally = some t → t.dayStartMs ≤ today ∧
    (∀ r ∈ rs, r.dayStartMs ≤ t.dayStartMs) ∧ t.count = chargedTo t.dayStartMs rs

variable {tally : Option GroupTally} {today : Nat} {t : GroupTally}

theorem Accounted.of_entry (hday : t.dayStartMs ≤ today)
    (hrs : ∀ r ∈ rs, r.dayStartMs ≤ t.dayStartMs)
    (hcount : t.count = chargedTo t.dayStartMs rs) : Accounted (some t) rs today := by
  constructor
  · intro h
    cases h
  · intro t' ht'
    rw [← Option.some.inj ht']
    exact ⟨hday, hrs, hcount⟩

/-- Time passes. -/
theorem Accounted.later {today' : Nat} (h : Accounted tally rs today) (hday : today ≤ today') :
    Accounted tally rs today' := by
  refine ⟨h.absent, ?_⟩
  intro t ht
  obtain ⟨hle, hrest⟩ := h.entry t ht
  exact ⟨hle.trans hday, hrest⟩

/-- A batch is reserved today: charged to today's entry, or on a new one. -/
theorem Accounted.reserve (h : Accounted s.groupReachoutTally rs today) (n : Nat) :
    Accounted (addGroupReachouts today n s).groupReachoutTally (⟨n, today⟩ :: rs) today := by
  -- a new entry accounts for today's reservations, of which there were none
  have hnew : (∀ r ∈ rs, r.dayStartMs < today) →
      Accounted (some ⟨today, n⟩) (⟨n, today⟩ :: rs) today := by
    intro hrs
    refine .of_entry (Nat.le_refl today) ?_ ?_
    · intro r hr
      rcases List.mem_cons.mp hr with heq | hmem
      · rw [heq]
      · exact Nat.le_of_lt (hrs r hmem)
    · have hzero : chargedTo today rs = 0 := chargedTo_eq_zero fun r hr => Nat.ne_of_lt (hrs r hr)
      simp [chargedTo, GroupReachoutReservation.chargedTo, hzero]
  unfold addGroupReachouts
  cases htally : s.groupReachoutTally with
  | none =>
    rw [h.absent htally]
    rw [h.absent htally] at hnew
    exact hnew fun r hr => by cases hr
  | some t =>
    obtain ⟨hday, hrs, hcount⟩ := h.entry t htally
    dsimp only
    split
    next heq =>
      refine .of_entry hday ?_ ?_
      · intro r hr
        rcases List.mem_cons.mp hr with hr | hmem
        · rw [hr]
          exact Nat.le_of_eq heq.symm
        · exact hrs r hmem
      · simp [chargedTo, GroupReachoutReservation.chargedTo, heq, hcount, Nat.add_comm]
    next hne =>
      refine hnew ?_
      intro r hr
      have hle := hrs r hr
      omega

/-- The entry of a reservation's day holds at least its charge. -/
theorem Accounted.le_count (h : Accounted tally rs today)
    (ht : tally = some t) (hr : r ∈ rs) (hday : t.dayStartMs = r.dayStartMs) :
    r.coldCount ≤ t.count := by
  obtain ⟨-, -, hcount⟩ := h.entry t ht
  have hown : r.chargedTo t.dayStartMs = r.coldCount := if_pos hday.symm
  have herase := chargedTo_erase t.dayStartMs hr
  omega

/-- A reservation is refunded: its own day's entry is credited. -/
theorem Accounted.refund (h : Accounted s.groupReachoutTally rs today) (hr : r ∈ rs) :
    Accounted (refundGroupReachouts r s).groupReachoutTally (rs.erase r) today := by
  cases htally : s.groupReachoutTally with
  | none =>
    rw [h.absent htally] at hr
    cases hr
  | some t =>
    obtain ⟨hday, hrs, hcount⟩ := h.entry t htally
    have herase := chargedTo_erase t.dayStartMs hr
    have hrest : ∀ q ∈ rs.erase r, q.dayStartMs ≤ t.dayStartMs :=
      fun q hq => hrs q (List.mem_of_mem_erase hq)
    -- the entry is kept if the reservation charges nothing to its day
    have hkept : r.chargedTo t.dayStartMs = 0 → Accounted (some t) (rs.erase r) today := by
      intro hzero
      exact .of_entry hday hrest (by omega)
    unfold refundGroupReachouts
    rw [htally]
    dsimp only
    split
    next hzero =>
      rw [htally]
      refine hkept ?_
      unfold GroupReachoutReservation.chargedTo
      split
      · exact hzero
      · rfl
    next =>
      split
      next heq =>
        have hown : r.chargedTo t.dayStartMs = r.coldCount := if_pos heq.symm
        refine .of_entry hday hrest ?_
        show t.count - r.coldCount = chargedTo t.dayStartMs (rs.erase r)
        omega
      next hne =>
        rw [htally]
        exact hkept (if_neg (Ne.symm hne))

/-- What is read for today is what today's reservations charged. -/
theorem Accounted.today_eq (h : Accounted s.groupReachoutTally rs today) :
    groupReachoutsToday today s = chargedTo today rs := by
  unfold groupReachoutsToday
  cases htally : s.groupReachoutTally with
  | none =>
    rw [h.absent htally]
    rfl
  | some t =>
    obtain ⟨hday, hrs, hcount⟩ := h.entry t htally
    dsimp only
    split
    next heq => rw [hcount, heq]
    next hne =>
      symm
      apply chargedTo_eq_zero
      intro r hr
      have hle := hrs r hr
      omega

/-- The tally counts the charges of the day, in every run. -/
theorem accounted_of_reach {w₀ : World} (htally : w₀.svc.groupReachoutTally = none)
    (hres : w₀.reservations = []) (hreach : (pacing ses).Reach w₀ w) :
    Accounted w.svc.groupReachoutTally w.reservations (startOfUtcDay w.now) := by
  refine hreach.invariant
    (P := fun v => Accounted v.svc.groupReachoutTally v.reservations (startOfUtcDay v.now)) ?_ ?_
  · refine ⟨fun _ => hres, ?_⟩
    intro t ht
    rw [htally] at ht
    cases ht
  · intro a v v' hv hs
    cases tallyMove_step hs with
    | quiet ht hr hnow =>
      rw [ht, hr]
      exact hv.later (startOfUtcDay_mono hnow)
    | reserves n ht hr hnow =>
      rw [ht, hr, hnow]
      exact hv.reserve n
    | refunds r hmem ht hr hnow =>
      rw [ht, hr, hnow]
      exact hv.refund hmem

/-- A refund changes no other day's tally. -/
theorem groupReachoutsToday_refund_of_ne (h : day ≠ r.dayStartMs) :
    groupReachoutsToday day (refundGroupReachouts r s) = groupReachoutsToday day s := by
  unfold refundGroupReachouts
  split
  · rfl
  · cases htally : s.groupReachoutTally with
    | none => rfl
    | some t =>
      dsimp only
      split
      next heq =>
        unfold groupReachoutsToday
        rw [htally]
        dsimp only
        rw [if_neg (by omega), if_neg (by omega)]
      next => rfl

/-- **The group tally is exact.** In every run of the governor, what is read
for the current day is what that day's reservations not yet refunded
charged; refunding any of them changes no other day's tally, and finds its
whole charge in the entry of its day. -/
theorem group_reachouts_exact {w₀ : World} (htally : w₀.svc.groupReachoutTally = none)
    (hres : w₀.reservations = []) (hreach : (pacing ses).Reach w₀ w) :
    groupReachoutsToday (startOfUtcDay w.now) w.svc
      = chargedTo (startOfUtcDay w.now) w.reservations ∧
    ∀ r ∈ w.reservations,
      (∀ d, d ≠ r.dayStartMs →
        groupReachoutsToday d (refundGroupReachouts r w.svc) = groupReachoutsToday d w.svc) ∧
      ∀ t, w.svc.groupReachoutTally = some t → t.dayStartMs = r.dayStartMs →
        r.coldCount ≤ t.count := by
  have hw := accounted_of_reach htally hres hreach
  refine ⟨hw.today_eq, ?_⟩
  intro r hr
  refine ⟨fun d hd => groupReachoutsToday_refund_of_ne hd, ?_⟩
  intro t ht hday
  exact hw.le_count ht hr hday

/-- A session that may reach five new contacts a day. -/
def fiveNewADay : Session where
  cfg := { enabled := true, warmupSchedule := [], coldSchedule := [5],
           breakerThreshold := 5, breakerCooldownMs := 0 }
  createdAt := some 0

/-- Two batches on one day and one on the next; then one of each day is
refunded. -/
def reservedAndRefunded : List Act :=
  [.reserve 0 2, .reserve 0 1, .tick dayMs, .reserve 0 3, .refund ⟨2, 0⟩, .reserve 0 1,
    .refund ⟨3, dayMs⟩]

/-- The next day's tally is that of its one outstanding batch. -/
theorem group_reachouts_exact_two_days :
    ∃ w, (pacing fiveNewADay).Reach idle w ∧
      w.reservations = [⟨1, dayMs⟩, ⟨1, 0⟩] ∧
      groupReachoutsToday (startOfUtcDay w.now) w.svc = 1 ∧
      groupReachoutsToday (startOfUtcDay w.now) w.svc
        = chargedTo (startOfUtcDay w.now) w.reservations := by
  obtain ⟨w, hreach, hw⟩ := Machine.exists_reach_of_run (M := pacing fiveNewADay) idle
    reservedAndRefunded (fun w : World => decide (w.reservations = [⟨1, dayMs⟩, ⟨1, 0⟩] ∧
      groupReachoutsToday (startOfUtcDay w.now) w.svc = 1)) (by decide)
  have hend := of_decide_eq_true hw
  exact ⟨w, hreach, hend.1, hend.2, (group_reachouts_exact rfl rfl hreach).1⟩

end OpenWA.Pacing

/-
Every step of the governor's machine keeps the day's invariant: what a
step can do, the call steps one phase at a time, then all of them.
-/
import OpenWA.Pacing.Proofs.DayInv

namespace OpenWA.Pacing

-- ======== what a step can do

theorem SameHold.refl (s : Service) : SameHold s s := ⟨rfl, rfl, fun _ => rfl⟩

theorem sameHold_breaker (now : Nat) (cfg : SendPacingConfig) (s : Service) :
    SameHold s (assertBreakerClosed now cfg s).1 := by
  unfold assertBreakerClosed
  dsimp only
  repeat' split
  all_goals exact SameHold.refl s

theorem sameHold_refund (r : GroupReachoutReservation) (s : Service) :
    SameHold s (refundGroupReachouts r s) := by
  unfold refundGroupReachouts
  repeat' split
  all_goals exact SameHold.refl s

/-- A step that only moves the clock, the breaker, the terms and what was
received. -/
structure Kept (w w₁ : World) : Prop where
  svc : SameHold w.svc w₁.svc
  rows : ∀ d, countSince w₁.rows d = countSince w.rows d
  calls : w₁.calls = w.calls
  nextCall : w₁.nextCall = w.nextCall
  hist : w₁.hist = w.hist

variable {w₁ : World} {d n : Nat}

/-- What each step of the governor does. -/
inductive Moves (ses : Session) (w : World) : Act → World → Prop
  | start {chatId : Option String} {opts : Opts} : Moves ses w (.start chatId opts)
      ({ w with
        calls := put w.calls w.nextCall ⟨chatId, opts, .opening⟩
        nextCall := w.nextCall + 1 }.restart ses w.nextCall)
  | startOff {chatId : Option String} {opts : Opts} : Moves ses w (.start chatId opts)
      ({ w with
        calls := put w.calls w.nextCall ⟨chatId, opts, .opening⟩
        nextCall := w.nextCall + 1 }.endCall w.nextCall .unheld)
  | lookupGone {q : Nat} (hphase : (w.calls q).phase = .opening)
      (hq : q < w.nextCall) : Moves ses w (.lookup q) (w.endCall q .unheld)
  | lookup {q : Nat} (hphase : (w.calls q).phase = .opening)
      (hq : q < w.nextCall) :
      Moves ses w (.lookup q) (w.setPhase q (.counting (startOfUtcDay w.now)))
  | count {q d : Nat} (hphase : (w.calls q).phase = .counting d)
      (hq : q < w.nextCall) : Moves ses w (.count q)
        { w.setPhase q (.counted d (countSince w.rows d)) with
          hist := { w.hist with
            readAt := put w.hist.readAt q (some w.hist.stepNo) } }
  | judge {q d n : Nat} (hphase : (w.calls q).phase = .counted d n)
      (hq : q < w.nextCall) : Moves ses w (.judge q) (w.judge ses q d n)
  | probe {q d n : Nat} {answer : Option ColdRead}
      (hphase : (w.calls q).phase = .probing d n) (hq : q < w.nextCall) :
      Moves ses w (.probe q answer) (w.setPhase q (.probed d n answer))
  | grant {q d n : Nat} {cold : Option ColdRead}
      (hphase : (w.calls q).phase = .probed d n cold) (hq : q < w.nextCall) :
      Moves ses w (.grant q) (w.grant ses q d n cold)
  | commit {a : Nat} (hby : (w.hist.admittedBy a).isSome)
      (hnew : w.hist.committedAt a = none)
      (hback : w.hist.handedBack a = false) : Moves ses w (.commit a)
        { w with
          rows := w.rows ++ [⟨w.chatOf a, true, w.now⟩]
          hist := { w.hist with
            committedAt := put w.hist.committedAt a (some w.hist.stepNo) } }
  | handBack {a : Nat} (ha : a < w.svc.next)
      (hnew : w.hist.committedAt a = none) : Moves ses w (.settle a false)
        { w with
          svc := Pacing.settle w.now a false w.svc
          settled := put w.settled a true
          hist := { w.hist with
            handedBack := put w.hist.handedBack a true } }
  | reserve {coldChats coldCount : Nat} {svc : Service}
      {reservations : List GroupReachoutReservation}
      (hsvc : (reserveReachouts w.now (startOfUtcDay w.now)
        (ses.age (startOfUtcDay w.now)) (ses.coldAllowance (startOfUtcDay w.now))
        coldChats coldCount w.svc).1 = svc) :
      Moves ses w (.reserve coldChats coldCount)
        { w with svc := svc, reservations := reservations }
  | kept {a : Act} {w₁ : World} (h : Kept w w₁) : Moves ses w a w₁

/-- Every act is one of the moves. -/
theorem moves_of_act {ses : Session} {w : World} {a : Act} (hs : w.act ses a = some w₁) :
    Moves ses w a w₁ := by
  cases a with
  | tick ms =>
    cases hs
    exact .kept ⟨.refl _, fun _ => rfl, rfl, rfl, rfl⟩
  | start chatId opts =>
    simp only [World.act] at hs
    split at hs <;> cases hs
    · exact .start
    · exact .startOff
  | lookup q | count q | judge q | probe q answer | grant q =>
    simp only [World.act] at hs
    split at hs
    next hphase =>
      obtain ⟨hq, hs⟩ := Option.ite_none_right_eq_some.mp hs
      try split at hs
      all_goals cases hs
      all_goals constructor <;> assumption
    next => cases hs
  | commit a =>
    obtain ⟨⟨hby, hnew, hback⟩, ⟨⟩⟩ := Option.ite_none_right_eq_some.mp hs
    exact .commit hby hnew hback
  | settle a mayHaveSent =>
    obtain ⟨ha, hs⟩ := Option.ite_none_right_eq_some.mp hs
    split at hs
    · cases hs
      exact .kept ⟨.refl _, fun _ => rfl, rfl, rfl, rfl⟩
    · cases mayHaveSent with
      | true =>
        cases hs
        refine .kept ⟨⟨rfl, rfl, ?_⟩, fun _ => rfl, rfl, rfl, rfl⟩
        exact setAt_field Admission.sentToday w.svc.heap a rfl
      | false =>
        obtain ⟨hnew, ⟨⟩⟩ := Option.ite_none_right_eq_some.mp hs
        exact .handBack ha hnew
  | receive chatId =>
    cases hs
    refine .kept ⟨.refl _, fun d => ?_, rfl, rfl, rfl⟩
    simp [countSince]
  | reserve coldChats coldCount =>
    simp only [World.act] at hs
    split at hs
    all_goals
      next hres =>
        cases hs
        exact .reserve (congrArg Prod.fst hres)
  | refund r =>
    obtain ⟨-, ⟨⟩⟩ := Option.ite_none_right_eq_some.mp hs
    exact .kept ⟨sameHold_refund r _, fun _ => rfl, rfl, rfl, rfl⟩
  | sendFailure | sendSuccess =>
    cases hs
    refine .kept ⟨?_, fun _ => rfl, rfl, rfl, rfl⟩
    first
      | unfold recordSendFailure
      | unfold recordSendSuccess
    split <;> exact .refl _

-- ======== the steps of a call

/-- The world after a step of call `q` that admits nothing. -/
def movedWorld (w : World) (svc : Service) (q nc : Nat) (c : Call)
    (ra ja : Nat → Option Nat) : World :=
  { w with
    svc := svc
    calls := put w.calls q c
    nextCall := nc
    hist := { w.hist with readAt := ra, judgedAt := ja } }

theorem put_put {β : Type} (f : Nat → β) (i : Nat) (a b : β) : put (put f i a) i b = put f i b := by
  funext j
  unfold put
  split <;> rfl

variable {P : Day} {w w' : World} {base q : Nat} {baseOf : Nat → Nat} {ses : Session}
  {svc : Service} {a : Act}

/-- The service itself is quiet. -/
theorem SvcQuiet.self : SvcQuiet P w w.svc := .inr (.refl _)

section

variable (h : DayInv P w base baseOf)
include h

/-- A step of one call that is not over keeps the invariant when what
the call has read afterwards is right. -/
theorem DayInv.move {nc : Nat} {c : Call} {ra ja : Nat → Option Nat}
    (hsvc : SvcQuiet P w svc) (hnc : w.nextCall ≤ nc) (hothers : ∀ p < nc, p ≠ q → p < w.nextCall)
    (hra : ∀ p, p ≠ q → ra p = w.hist.readAt p) (hja : ∀ p, p ≠ q → ja p = w.hist.judgedAt p)
    (hlive : ∀ v, q < w.nextCall → (w.calls q).phase ≠ .ended v)
    (hok : CallOk P (movedWorld w svc q nc c ra ja).close q) :
    Daily P (movedWorld w svc q nc c ra ja).close := by
  have hput : ∀ p, p ≠ q → put w.calls q c p = w.calls p := by
    intro p hp
    simp [put, hp]
  have hq : Quiet P w (movedWorld w svc q nc c ra ja) := by
    refine ⟨hsvc, rfl, rfl, hnc, ?_⟩
    intro p hp v hv
    have hne : p ≠ q := by
      rintro rfl
      exact hlive v hp hv
    exact ⟨(congrArg Call.phase (hput p hne)).trans hv, hra p hne, hja p hne⟩
  obtain ⟨base', h'⟩ := h.quiet hq fun p hp => by
    by_cases hpq : p = q
    · exact hpq ▸ hok
    · exact (h.calls p (hothers p hp hpq)).later (hq.later h)
        (congrArg Call.phase (hput p hpq)) (hra p hpq)
  exact ⟨base', baseOf, h'⟩

/-- The same for a step that changes no call at all. -/
theorem DayInv.still (hq : Quiet P w w₁) (hcalls : w₁.calls = w.calls)
    (hnc : w₁.nextCall = w.nextCall) (hread : w₁.hist.readAt = w.hist.readAt) :
    Daily P w₁.close := by
  obtain ⟨base', h'⟩ := h.quiet hq fun p hp =>
    (h.calls p (hnc ▸ hp)).later (hq.later h) (by rw [close_calls, hcalls])
      (by rw [close_readAt, hread])
  exact ⟨base', baseOf, h'⟩

/-- Starting a call reads nothing yet. -/
theorem DayInv.start (hsvc : SameHold w.svc svc) (c : Call) (ja : Nat → Option Nat)
    (hja : ∀ p, p ≠ w.nextCall → ja p = w.hist.judgedAt p)
    (hok : ∀ w' : World, w'.calls w.nextCall = c → CallOk P w' w.nextCall) :
    Daily P (movedWorld w svc w.nextCall (w.nextCall + 1) c w.hist.readAt ja).close := by
  refine h.move (.inr hsvc) (Nat.le_succ _) ?_ (fun _ _ => rfl) hja
    (fun v hlt => absurd hlt (lt_irrefl _)) (hok _ ?_)
  · intro p hp hne
    omega
  · simp [movedWorld, put]

theorem DayInv.start_ended (hsvc : SameHold w.svc svc) (chatId : Option String) (opts : Opts)
    (v : Verdict) :
    Daily P ({ w with
      svc := svc
      calls := put w.calls w.nextCall ⟨chatId, opts, .opening⟩
      nextCall := w.nextCall + 1 }.endCall w.nextCall v).close := by
  have hstart := h.start hsvc ⟨chatId, opts, .ended v⟩
    (put w.hist.judgedAt w.nextCall (some w.hist.stepNo))
    (by intro p hp; simp [put, hp]) (by intro w' hc; simp [CallOk, hc])
  simpa [movedWorld, World.endCall, World.setPhase, put_put, put] using hstart

theorem DayInv.start_restart (chatId : Option String) (opts : Opts) :
    Daily P ({ w with
      calls := put w.calls w.nextCall ⟨chatId, opts, .opening⟩
      nextCall := w.nextCall + 1 }.restart ses w.nextCall).close := by
  have hb := sameHold_breaker w.now ses.cfg w.svc
  unfold World.restart
  split
  next svc r hres =>
    rw [hres] at hb
    exact h.start_ended hb chatId opts (.refused r)
  next svc hres =>
    rw [hres] at hb
    have hstart := h.start hb ⟨chatId, opts, .opening⟩ w.hist.judgedAt
      (fun _ _ => rfl) (by intro w' hc; simp [CallOk, hc])
    simpa [movedWorld, World.setPhase, put_put, put] using hstart

/-- Moving a live call to a phase it may be in. -/
theorem DayInv.setPhase (hsvc : SvcQuiet P w svc) {p : Phase}
    (hlive : ∀ v, (w.calls q).phase ≠ .ended v)
    (hok : CallOk P ({ w with svc := svc }.setPhase q p).close q) :
    Daily P ({ w with svc := svc }.setPhase q p).close :=
  h.move hsvc le_rfl (fun _ hp _ => hp) (fun _ _ => rfl) (fun _ _ => rfl) (fun v _ => hlive v) hok

/-- Ending a live call without an admission. -/
theorem DayInv.endCall (hsvc : SvcQuiet P w svc) (v : Verdict)
    (hlive : ∀ v, (w.calls q).phase ≠ .ended v) :
    Daily P ({ w with svc := svc }.endCall q v).close := by
  refine h.move hsvc le_rfl (fun _ hp _ => hp) (fun _ _ => rfl) ?_ (fun v _ => hlive v) ?_
  · intro p hp
    simp [put, hp]
  · simp [CallOk, movedWorld, put]

theorem DayInv.lookup (hday : startOfUtcDay w.now = P.day)
    (hphase : (w.calls q).phase = .opening) :
    Daily P (w.setPhase q (.counting (startOfUtcDay w.now))).close := by
  refine h.setPhase SvcQuiet.self (by simp [hphase]) ?_
  simpa [CallOk, World.setPhase, put] using hday

/-- The count a call reads is the rows at the start and every row
committed so far. -/
theorem DayInv.count_read (hphase : (w.calls q).phase = .counting d) (hq : q < w.nextCall) :
    Daily P (World.close
      { w.setPhase q (.counted d (countSince w.rows d)) with
        hist := { w.hist with
          readAt := put w.hist.readAt q (some w.hist.stepNo) } }) := by
  have hd : d = P.day := by
    have := h.calls q hq
    simpa [CallOk, hphase] using this
  have hall : w.committedBy w.hist.stepNo = w.committed := by
    ext x
    rw [World.mem_committedBy, World.mem_committed]
    constructor
    · rintro ⟨hx, k, hk, -⟩
      exact ⟨hx, k, hk⟩
    · rintro ⟨hx, k, hk⟩
      exact ⟨hx, k, hk, (h.committed x k hk).2.2.2.le⟩
  have hcount : countSince w.rows d = P.start + (w.committedBy w.hist.stepNo).card := by
    rw [hd, hall, h.rows]
  have hread : CallOk P (movedWorld w w.svc q w.nextCall
      { w.calls q with phase := .counted d (countSince w.rows d) }
      (put w.hist.readAt q (some w.hist.stepNo)) w.hist.judgedAt).close q := by
    simp only [CallOk, movedWorld, close_calls, put, if_true,
      close_readAt, close_stepNo, close_committedBy]
    exact ⟨hd, w.hist.stepNo, rfl, Nat.lt_succ_self _, hcount⟩
  refine h.move (q := q) SvcQuiet.self le_rfl (fun _ hp _ => hp) ?_ (fun _ _ => rfl) ?_ hread
  · intro p hp
    simp [put, hp]
  · intro v _
    simp [hphase]

theorem DayInv.judge (hday : startOfUtcDay w.now = P.day)
    (hphase : (w.calls q).phase = .counted d n) (hq : q < w.nextCall) :
    Daily P (w.judge ses q d n).close := by
  have hlive : ∀ v, (w.calls q).phase ≠ .ended v := by
    simp [hphase]
  have hcall := h.calls q hq
  simp only [CallOk, hphase] at hcall
  obtain ⟨hd, r, hread, hrlt, hn⟩ := hcall
  have hfilled : Judged w.now d (fun _ => True) w.svc _ :=
    (assertUnderDailyCap_spec w.now d (ses.age d) (ses.allowance d) n w.svc trivial).1
  have href := hfilled.refreshed
  unfold World.judge
  rw [if_neg (by rw [hday, hd]; exact fun hne => hne rfl)]
  cases hres : assertUnderDailyCap w.now d (ses.age d) (ses.allowance d) n w.svc with
  | mk svc r' =>
    rw [hres] at href
    have hsvc : SvcQuiet P w svc := .inl (hd ▸ href)
    cases r' with
    | some refusal => exact h.endCall hsvc (.refused refusal) hlive
    | none =>
      refine h.setPhase hsvc hlive ?_
      have hnext : svc.next = w.svc.next := href.next
      have hby : w.committedBy r
          = ({ w with svc := svc }.setPhase q (.probing d n)).close.committedBy r := by
        simp only [World.committedBy, close_svc, close_committedAt, World.setPhase, hnext]
      rw [hby] at hn
      simp only [CallOk, World.setPhase, close_calls, put, if_true, close_readAt, close_stepNo]
      exact ⟨hd, r, hread, Nat.lt_succ_of_lt hrlt, hn⟩

theorem DayInv.probe {answer : Option ColdRead} (hphase : (w.calls q).phase = .probing d n)
    (hq : q < w.nextCall) : Daily P (w.setPhase q (.probed d n answer)).close := by
  refine h.setPhase SvcQuiet.self (by simp [hphase]) ?_
  have hcall := h.calls q hq
  simp only [CallOk, hphase] at hcall
  obtain ⟨hd, r, hread, hrlt, hn⟩ := hcall
  simp only [CallOk, World.setPhase, close_calls, put, if_true, close_readAt, close_stepNo]
  exact ⟨hd, r, hread, Nat.lt_succ_of_lt hrlt, hn⟩

section

variable (hday : startOfUtcDay w.now = P.day) (hA : ses.allowance P.day = P.allowance)
include hday hA

theorem DayInv.judgeAndAdmit {cold : Option ColdRead}
    (hphase : (w.calls q).phase = .probed d n cold)
    (hq : q < w.nextCall) : Daily P (w.grant ses q d n cold).close := by
  have hlive : ∀ v, (w.calls q).phase ≠ .ended v := by
    simp [hphase]
  have hd : d = P.day := by
    have hcall := h.calls q hq
    simp only [CallOk, hphase] at hcall
    exact hcall.1
  subst hd
  unfold World.grant
  rw [if_neg (by rw [hday]; exact fun hne => hne rfl)]
  simp only
  rcases judgeAndAdmit_spec (fun _ => True) w.now P.day (ses.age P.day)
      (ses.allowance P.day) n cold (w.calls q).chatId (w.calls q).opts
      w.svc trivial with ⟨hnot, hfilled⟩ | ⟨s₁, adm, hfilled, hlt, hroom, hcount, heq⟩
  · cases hres : Pacing.judgeAndAdmit w.now P.day (ses.age P.day)
        (ses.allowance P.day) n cold (w.calls q).chatId (w.calls q).opts w.svc with
    | mk svc v =>
      rw [hres] at hfilled hnot
      cases v with
      | admitted a => exact absurd rfl (hnot a)
      | refused | unheld => exact h.endCall (.inl hfilled.refreshed) _ hlive
  · rw [heq]
    rw [hA] at hlt hroom
    exact h.grant adm hfilled.refreshed hphase hq hlt hroom hcount

-- ======== every step

/-- Every step of the day keeps the day's invariant. -/
theorem DayInv.step (hs : (pacing ses).step a w = some w') : Daily P w' := by
  obtain ⟨w₁, hact, rfl⟩ := Option.map_eq_some_iff.mp hs
  have hle : P.day ≤ w.now := by
    rw [← hday]
    exact Nat.div_mul_le_self _ _
  cases moves_of_act hact with
  | start => exact h.start_restart _ _
  | startOff => exact h.start_ended (.refl _) _ _ .unheld
  | lookupGone hphase hq =>
    exact h.endCall SvcQuiet.self .unheld (by simp [hphase])
  | lookup hphase hq => exact h.lookup hday hphase
  | count hphase hq => exact h.count_read hphase hq
  | judge hphase hq => exact h.judge hday hphase hq
  | probe hphase hq => exact h.probe hphase hq
  | grant hphase hq => exact h.judgeAndAdmit hday hA hphase hq
  | commit hby hnew hback =>
    exact ⟨base, baseOf, h.commit hle hby hnew hback rfl⟩
  | handBack ha hnew => exact ⟨base, baseOf, h.handBack ha hnew rfl⟩
  | @reserve coldChats coldCount _ _ hsvc =>
    have hfilled : Filled w.now (startOfUtcDay w.now) (fun _ => True) w.svc _ :=
      reserveReachouts_filled w.now (startOfUtcDay w.now) (ses.age (startOfUtcDay w.now))
        (ses.coldAllowance (startOfUtcDay w.now)) coldChats coldCount w.svc
    have href := hfilled.refreshed
    rw [hsvc, hday] at href
    exact h.still ⟨.inl href, rfl, rfl, le_rfl, fun _ _ _ hv => ⟨hv, rfl, rfl⟩⟩ rfl rfl rfl
  | kept hk =>
    have hhist := hk.hist
    refine h.still ⟨.inr hk.svc, hk.rows _, by rw [hhist], hk.nextCall.ge, ?_⟩ hk.calls
      hk.nextCall (by rw [hhist])
    rw [hhist, hk.calls]
    exact fun _ _ _ hv => ⟨hv, rfl, rfl⟩

end

end

end OpenWA.Pacing

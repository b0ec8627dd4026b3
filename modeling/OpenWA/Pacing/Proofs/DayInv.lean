/-
The invariant of one UTC day of the governor, and the four kinds of step
that bear on it: quiet steps, commits, hand-backs and admissions.

# What is fixed when an admission is taken

Number the day's admissions in the order they were taken. Three facts
about each admission `a` are fixed when it is taken and only get weaker
to state afterwards (`AdmittedAs`):

- *its base*: the hold it was judged against lists every admission from
  `baseOf a` on that was not handed back, because the hold lapses as a
  whole; admissions that share a hold share a base;
- *its room*: with `c y` the count `y` had read, `c y` plus the
  admissions of `[y, a]` not handed back is within the allowance, for
  every `y` of that hold and for `a` itself;
- *its blind spot*: whatever was admitted before the base and not handed
  back had ended its term by the time `a` was judged.

The invariant (`DayInv`) keeps these for every admission of the day,
next to the shape of the hold and the bookkeeping of the counts read.
Admissions carried over from an earlier day may be listed in the hold
ahead of today's; they make the judged counts larger and are otherwise
inert.
-/
import OpenWA.Pacing.World
import OpenWA.Pacing.Proofs.Hold
import Mathlib.Data.Finset.Card
import Mathlib.Data.List.Range

namespace OpenWA.Pacing

open List

-- ======== vocabulary

/-- What is fixed over one day: its start, the first admission the day
may make, the rows at the start and the allowance. -/
structure Day where
  day : Nat
  first : Nat
  start : Nat
  allowance : Nat

/-- The admissions of `[base, next)` that were not handed back, in
order. -/
def todays (handedBack : Nat → Bool) (base next : Nat) : List Nat :=
  (range' base (next - base)).filter fun a => !handedBack a

/-- The admissions whose row is committed. -/
def World.committed (w : World) : Finset Nat :=
  (Finset.range w.svc.next).filter fun a => (w.hist.committedAt a).isSome

/-- The admissions whose row was committed by step `r`. -/
def World.committedBy (w : World) (r : Nat) : Finset Nat :=
  (Finset.range w.svc.next).filter fun a =>
    (w.hist.committedAt a).any fun k => decide (k ≤ r)

variable {a r y c : Nat} {w : World}

theorem World.mem_committed :
    a ∈ w.committed ↔ a < w.svc.next ∧ ∃ k, w.hist.committedAt a = some k := by
  simp [World.committed, Option.isSome_iff_exists]

theorem World.mem_committedBy :
    a ∈ w.committedBy r ↔ a < w.svc.next ∧ ∃ k, w.hist.committedAt a = some k ∧ k ≤ r := by
  simp [World.committedBy, Option.any_eq_true]

/-- What a call in a given phase has read: a count of the day, taken at
some step `r`, that saw exactly the rows committed by then. -/
def CallOk (P : Day) (w : World) (q : Nat) : Prop :=
  match (w.calls q).phase with
  | .opening => True
  | .counting d => d = P.day
  | .counted d n | .probing d n | .probed d n _ =>
    d = P.day ∧ ∃ r, w.hist.readAt q = some r ∧ r < w.hist.stepNo
      ∧ n = P.start + (w.committedBy r).card
  | .ended _ => True

/-- The facts fixed when admission `a` was taken: by call `q`, which read
its count at step `r` and was judged at step `j`. -/
structure AdmittedAs (P : Day) (w : World) (base : Nat)
    (baseOf : Nat → Nat) (a q r j : Nat) : Prop where
  by_call : q < w.nextCall
  finished : ∃ v, (w.calls q).phase = .ended v
  read : w.hist.readAt q = some r
  read_lt : r < w.hist.stepNo
  judged : w.hist.judgedAt q = some j
  count : (w.svc.heap a).sentToday = some (P.start + (w.committedBy r).card)
  first_le : P.first ≤ baseOf a
  base_le : baseOf a ≤ a
  le_base : baseOf a ≤ base
  current : base ≤ a → baseOf a = base
  shared : ∀ y, baseOf a ≤ y → y ≤ a → baseOf y = baseOf a
  room : ∀ y, baseOf a ≤ y → y ≤ a → w.hist.handedBack y = false →
    ∀ c, (w.svc.heap y).sentToday = some c →
      c + (todays w.hist.handedBack y a).length + 1 ≤ P.allowance
  blind : ∀ x, P.first ≤ x → x < baseOf a → w.hist.handedBack x = false →
    ∃ e, w.hist.endedAt x = some e ∧ e < j

/-- The terms that are over, and the base of the hold past those that
lapsed with it. -/
structure Ends (P : Day) (w : World) (base : Nat) : Prop where
  first_le : P.first ≤ base
  ended : ∀ a, P.first ≤ a → a < w.svc.next →
    (w.svc.heap a).untilMs ≤ (w.now : ℕ∞) → (w.hist.endedAt a).isSome
  lapsed : ∀ a, P.first ≤ a → a < base → w.hist.handedBack a = false → (w.hist.endedAt a).isSome
  endedAt_lt : ∀ a e, w.hist.endedAt a = some e → e < w.hist.stepNo

/-- The day's invariant. -/
structure DayInv (P : Day) (w : World) (base : Nat)
    (baseOf : Nat → Nat) : Prop extends Ends P w base where
  base_le : base ≤ w.svc.next
  held : ∃ old, (∀ a ∈ old, a < P.first)
    ∧ w.svc.held = old ++ todays w.hist.handedBack base w.svc.next
  stale : Stale P.day w.svc → ∀ a ∈ w.svc.held, a < P.first
  rows : countSince w.rows P.day = P.start + w.committed.card
  committed : ∀ a k, w.hist.committedAt a = some k →
    P.first ≤ a ∧ a < w.svc.next ∧ w.hist.handedBack a = false ∧ k < w.hist.stepNo
  unborn : ∀ a, w.svc.next ≤ a → w.hist.handedBack a = false
  taken : ∀ a, (w.hist.admittedBy a).isSome → P.first ≤ a ∧ a < w.svc.next
  calls : ∀ q < w.nextCall, CallOk P w q
  admitted : ∀ a, P.first ≤ a → a < w.svc.next →
    ∃ q r j, AdmittedAs P w base baseOf a q r j ∧ w.hist.admittedBy a = some q

/-- The invariant, whatever the first admission of the hold. -/
def Daily (P : Day) (w : World) : Prop := ∃ base baseOf, DayInv P w base baseOf

variable {P : Day} {w w₁ w' : World} {base : Nat} {baseOf : Nat → Nat}

/-- The commits alone decide what is committed, and by when. -/
theorem committed_congr (hcom : w'.hist.committedAt = w.hist.committedAt)
    (hle : w.svc.next ≤ w'.svc.next)
    (hlt : ∀ a k, w.hist.committedAt a = some k → a < w.svc.next) :
    w'.committed = w.committed ∧ ∀ r, w'.committedBy r = w.committedBy r := by
  refine ⟨?_, fun r => ?_⟩
  · ext x
    rw [World.mem_committed, World.mem_committed, hcom]
    refine and_congr_left fun ⟨k, hk⟩ => ?_
    exact iff_of_true ((hlt x k hk).trans_le hle) (hlt x k hk)
  · ext x
    rw [World.mem_committedBy, World.mem_committedBy, hcom]
    refine and_congr_left fun ⟨k, hk, _⟩ => ?_
    exact iff_of_true ((hlt x k hk).trans_le hle) (hlt x k hk)

-- ======== lists of admissions

variable {hb : Nat → Bool}

theorem mem_todays {base next : Nat} :
    a ∈ todays hb base next ↔ base ≤ a ∧ a < next ∧ hb a = false := by
  simp only [todays, mem_filter, mem_range'_1, Bool.not_eq_true', and_assoc]
  refine and_congr_right fun hle => and_congr_left fun _ => ?_
  omega

theorem todays_self (hb : Nat → Bool) (n : Nat) : todays hb n n = [] := by
  simp [todays]

/-- A day's list splits at any admission of it. -/
theorem todays_split (hb : Nat → Bool) {base next : Nat} (h₁ : base ≤ y)
    (h₂ : y ≤ next) : todays hb base next = todays hb base y ++ todays hb y next := by
  unfold todays
  rw [← filter_append]
  congr 1
  have hlen : next - base = (y - base) + (next - y) := by omega
  rw [hlen, ← range'_append_1]
  congr 2
  omega

theorem todays_cons {next : Nat} (h : y < next)
    (hy : hb y = false) : todays hb y next = y :: todays hb (y + 1) next := by
  unfold todays
  have hlen : next - y = (next - (y + 1)) + 1 := by omega
  rw [hlen, range'_succ, filter_cons]
  simp [hy]

theorem todays_snoc {base next : Nat}
    (h : base ≤ next) (hn : hb next = false) :
    todays hb base (next + 1) = todays hb base next ++ [next] := by
  rw [todays_split hb h (Nat.le_succ next), todays_cons (Nat.lt_succ_self next) hn, todays_self]

/-- Handing `a` back takes it off the list. -/
theorem todays_handBack (hb : Nat → Bool) (base next a : Nat) :
    todays (put hb a true) base next = (todays hb base next).erase a := by
  have hrange : (range' base (next - base)).Nodup := nodup_range'
  have hnodup : (todays hb base next).Nodup := hrange.filter _
  rw [hnodup.erase_eq_filter]
  unfold todays
  rw [filter_filter]
  refine filter_congr fun x _ => ?_
  by_cases hx : x = a <;> simp [put, hx]

/-- More hand-backs, fewer admissions. -/
theorem todays_length_mono {hb' : Nat → Bool} (base next : Nat)
    (h : ∀ a, hb' a = false → hb a = false) :
    (todays hb' base next).length ≤ (todays hb base next).length := by
  refine List.Sublist.length_le (monotone_filter_right _ fun a ha => ?_)
  have : hb' a = false := by simpa using ha
  simp [h a this]

-- ======== closing a step

section

variable (w : World)

@[simp] theorem close_now : w.close.now = w.now := rfl
@[simp] theorem close_svc : w.close.svc = w.svc := rfl
@[simp] theorem close_rows : w.close.rows = w.rows := rfl
@[simp] theorem close_calls : w.close.calls = w.calls := rfl
@[simp] theorem close_stepNo : w.close.hist.stepNo = w.hist.stepNo + 1 := rfl
@[simp] theorem close_readAt : w.close.hist.readAt = w.hist.readAt := rfl
@[simp] theorem close_judgedAt : w.close.hist.judgedAt = w.hist.judgedAt := rfl
@[simp] theorem close_admittedBy : w.close.hist.admittedBy = w.hist.admittedBy := rfl
@[simp] theorem close_handedBack : w.close.hist.handedBack = w.hist.handedBack := rfl
@[simp] theorem close_committedAt : w.close.hist.committedAt = w.hist.committedAt := rfl
@[simp] theorem close_committed : w.close.committed = w.committed := rfl
@[simp] theorem close_committedBy (r : Nat) : w.close.committedBy r = w.committedBy r := rfl

end

/-- An end recorded once stays. -/
theorem close_endedAt_of_some {e : Nat} (h : w.hist.endedAt a = some e) :
    w.close.hist.endedAt a = some e := by
  simp [World.close, h]

/-- After a step every term the clock has reached is recorded. -/
theorem close_endedAt (ha : a < w.svc.next)
    (hu : (w.svc.heap a).untilMs ≤ (w.now : ℕ∞)) : (w.close.hist.endedAt a).isSome := by
  cases hend : w.hist.endedAt a with
  | some e => rw [close_endedAt_of_some hend]; rfl
  | none => simp [World.close, hend, ha, hu]

-- ======== what a step keeps

/-- What no step of the day undoes: `w` before it, `w'` after it and
closed. -/
structure Later (P : Day) (w w' : World) : Prop where
  next : w.svc.next ≤ w'.svc.next
  nextCall : w.nextCall ≤ w'.nextCall
  stepNo : w.hist.stepNo < w'.hist.stepNo
  finished : ∀ q < w.nextCall, ∀ v, (w.calls q).phase = .ended v →
    (w'.calls q).phase = .ended v
      ∧ w'.hist.readAt q = w.hist.readAt q
      ∧ w'.hist.judgedAt q = w.hist.judgedAt q
  count : ∀ a, P.first ≤ a → a < w.svc.next → ∀ c,
    (w.svc.heap a).sentToday = some c → (w'.svc.heap a).sentToday = some c
  handedBack : ∀ a, w'.hist.handedBack a = false → w.hist.handedBack a = false
  endedAt : ∀ a e, w.hist.endedAt a = some e → w'.hist.endedAt a = some e
  committedBy : ∀ r < w.hist.stepNo, w'.committedBy r = w.committedBy r

/-- The facts of an admission survive every step, under a base that only
moves past it. -/
theorem AdmittedAs.later {base' q j : Nat}
    (h : AdmittedAs P w base baseOf a q r j) (hl : Later P w w') (ha : a < w.svc.next)
    (hcount : ∀ y, P.first ≤ y → y < w.svc.next → ∃ c, (w.svc.heap y).sentToday = some c)
    (hb : base ≤ base') (hcur : base' = base ∨ a < base') :
    AdmittedAs P w' base' baseOf a q r j := by
  obtain ⟨v, hv⟩ := h.finished
  obtain ⟨hv', hread, hjudged⟩ := hl.finished q h.by_call v hv
  refine
    { by_call := lt_of_lt_of_le h.by_call hl.nextCall
      finished := ⟨v, hv'⟩
      read := hread.trans h.read
      read_lt := h.read_lt.trans hl.stepNo
      judged := hjudged.trans h.judged
      count := by
        rw [hl.committedBy r h.read_lt]
        exact hl.count a (h.first_le.trans h.base_le) ha _ h.count
      first_le := h.first_le
      base_le := h.base_le
      le_base := h.le_base.trans hb
      current := ?_
      shared := h.shared
      room := ?_
      blind := ?_ }
  · intro hle
    rcases hcur with rfl | hlt
    · exact h.current hle
    · omega
  · intro y hy hya hby c' hc'
    have hy₁ : P.first ≤ y := h.first_le.trans hy
    have hy₂ : y < w.svc.next := hya.trans_lt ha
    obtain ⟨c₀, hc₀⟩ := hcount y hy₁ hy₂
    have hceq : c₀ = c' := Option.some.inj ((hl.count y hy₁ hy₂ c₀ hc₀).symm.trans hc')
    have hroom := h.room y hy hya (hl.handedBack y hby) c₀ hc₀
    have hlen := todays_length_mono y a hl.handedBack
    omega
  · intro x hx hxa hbx
    obtain ⟨e, he, hej⟩ := h.blind x hx hxa (hl.handedBack x hbx)
    exact ⟨e, hl.endedAt x e he, hej⟩

/-- Every admission of the day has read a count. -/
theorem DayInv.count (h : DayInv P w base baseOf) :
    ∀ y, P.first ≤ y → y < w.svc.next → ∃ c, (w.svc.heap y).sentToday = some c := by
  intro y hy hlt
  obtain ⟨q, r, j, hadm, -⟩ := h.admitted y hy hlt
  exact ⟨_, hadm.count⟩

/-- Recorded ends stay below the step count. -/
theorem close_endedAt_lt
    (h : ∀ a e, w.hist.endedAt a = some e → e < w.hist.stepNo) :
    ∀ a e, w.close.hist.endedAt a = some e → e < w.close.hist.stepNo := by
  intro a e he
  simp only [World.close] at he ⊢
  split at he
  · cases he
    omega
  · exact Nat.lt_succ_of_lt (h a e he)

/-- A call that a step does not touch has still read what it had
read. -/
theorem CallOk.later {q : Nat} (h : CallOk P w q) (hl : Later P w w')
    (hphase : (w'.calls q).phase = (w.calls q).phase)
    (hread : w'.hist.readAt q = w.hist.readAt q) : CallOk P w' q := by
  have hcount : ∀ d n : Nat, (d = P.day ∧ ∃ r, w.hist.readAt q = some r
        ∧ r < w.hist.stepNo ∧ n = P.start + (w.committedBy r).card) →
      d = P.day ∧ ∃ r, w'.hist.readAt q = some r ∧ r < w'.hist.stepNo
        ∧ n = P.start + (w'.committedBy r).card := by
    rintro d n ⟨hd, r, hr, hlt, hn⟩
    exact ⟨hd, r, hread.trans hr, hlt.trans hl.stepNo, by rw [hl.committedBy r hlt]; exact hn⟩
  unfold CallOk at h ⊢
  rw [hphase]
  split at h
  all_goals first
    | exact h
    | exact hcount _ _ h

/-- Where the base of the hold goes: it stays, or moves past every
admission once the terms of the hold are over. -/
def Rebased (w : World) (base base' : Nat) : Prop :=
  base' = base ∨ (base' = w.svc.next ∧ ∀ a, base ≤ a →
    a < w.svc.next → w.hist.handedBack a = false →
    (w.svc.heap a).untilMs ≤ (w.now : ℕ∞))

section Rebased

variable {base' : Nat}

theorem DayInv.le_of_rebased (h : DayInv P w base baseOf)
    (hb : Rebased w base base') : base ≤ base' ∧ base' ≤ w.svc.next := by
  rcases hb with rfl | ⟨rfl, -⟩
  · exact ⟨le_rfl, h.base_le⟩
  · exact ⟨h.base_le, le_rfl⟩

/-- Whatever was admitted before the new base, and not handed back, has
ended its term. -/
theorem DayInv.gone (h : DayInv P w base baseOf)
    (hb : Rebased w base base') :
    ∀ x, P.first ≤ x → x < base' → w.hist.handedBack x = false →
      ∃ e, w.hist.endedAt x = some e ∧ e < w.hist.stepNo := by
  intro x hfx hx hbx
  suffices hsome : (w.hist.endedAt x).isSome by
    obtain ⟨e, he⟩ := Option.isSome_iff_exists.mp hsome
    exact ⟨e, he, h.endedAt_lt x e he⟩
  by_cases hxb : x < base
  · exact h.lapsed x hfx hxb hbx
  · rcases hb with rfl | ⟨rfl, hout⟩
    · exact absurd hx hxb
    · exact h.ended x hfx hx (hout x (by omega) hx hbx)

/-- The ends, after any step of the day. -/
theorem DayInv.ends (h : DayInv P w base baseOf)
    (hl : Later P w w₁.close) (hb : Rebased w base base') (hends : w₁.hist.endedAt = w.hist.endedAt)
    (hno : w₁.hist.stepNo = w.hist.stepNo) : Ends P w₁.close base' where
  first_le := h.first_le.trans (h.le_of_rebased hb).1
  ended := fun a _ ha hu => close_endedAt ha hu
  lapsed := by
    intro a hfa ha hba
    obtain ⟨e, he, -⟩ := h.gone hb a hfa ha (hl.handedBack a hba)
    rw [hl.endedAt a e he]
    rfl
  endedAt_lt := close_endedAt_lt (by rw [hends, hno]; exact h.endedAt_lt)

/-- The admissions before a step, after it. -/
theorem DayInv.earlier (h : DayInv P w base baseOf) (hl : Later P w w') (hb : Rebased w base base')
    (hfa : P.first ≤ a) (ha : a < w.svc.next) :
    ∃ q r j, AdmittedAs P w' base' baseOf a q r j ∧ w.hist.admittedBy a = some q := by
  obtain ⟨q, r, j, hadm, hby⟩ := h.admitted a hfa ha
  refine ⟨q, r, j, hadm.later hl ha h.count (h.le_of_rebased hb).1 ?_, hby⟩
  rcases hb with rfl | ⟨rfl, -⟩
  · exact .inl rfl
  · exact .inr ha

end Rebased

-- ======== the quiet steps

/-- The hold and the counts of the admissions are as they were. -/
def SameHold (s s' : Service) : Prop :=
  s'.next = s.next ∧ s'.hold = s.hold ∧ ∀ i, (s'.heap i).sentToday = (s.heap i).sentToday

/-- What a call step leaves alone in the service: nothing but the
breaker changed, or the hold was refreshed. -/
def SvcQuiet (P : Day) (w : World) (svc : Service) : Prop :=
  Refreshed w.now P.day w.svc svc ∨ SameHold w.svc svc

/-- What the steps that admit, commit and hand back nothing have in common,
before the step is closed. -/
structure Quiet (P : Day) (w w₁ : World) : Prop where
  svc : SvcQuiet P w w₁.svc
  rows : countSince w₁.rows P.day = countSince w.rows P.day
  hist : w₁.hist = { w.hist with
    readAt := w₁.hist.readAt
    judgedAt := w₁.hist.judgedAt }
  nextCall : w.nextCall ≤ w₁.nextCall
  finished : ∀ q < w.nextCall, ∀ v, (w.calls q).phase = .ended v →
    (w₁.calls q).phase = .ended v
      ∧ w₁.hist.readAt q = w.hist.readAt q
      ∧ w₁.hist.judgedAt q = w.hist.judgedAt q

theorem Quiet.next (hq : Quiet P w w₁) : w₁.svc.next = w.svc.next := by
  rcases hq.svc with h | ⟨h, -, -⟩
  · exact h.next
  · exact h

section

variable (h : DayInv P w base baseOf) (hq : Quiet P w w₁)
include h hq

theorem Quiet.committed : w₁.committed = w.committed ∧ ∀ r, w₁.committedBy r = w.committedBy r :=
  committed_congr (by rw [hq.hist]) hq.next.ge fun a k hk => (h.committed a k hk).2.1

/-- A quiet step undoes nothing. -/
theorem Quiet.later : Later P w w₁.close where
  next := hq.next.ge
  nextCall := hq.nextCall
  stepNo := by rw [close_stepNo, hq.hist]; exact Nat.lt_succ_self _
  finished := hq.finished
  count := by
    intro a ha _ c hc
    rcases hq.svc with hr | ⟨-, -, hheap⟩
    · refine hr.sentToday a c (fun hst hmem => ?_) hc
      exact absurd (h.stale hst a hmem) (by omega)
    · exact (hheap a).trans hc
  handedBack := by
    intro a ha
    rwa [close_handedBack, hq.hist] at ha
  endedAt := by
    intro a e he
    exact close_endedAt_of_some (by rw [hq.hist]; exact he)
  committedBy := fun r _ => (hq.committed h).2 r

/-- Where the base of the hold stands after a quiet step: where it was,
or past every admission when the hold has lapsed. -/
theorem Quiet.hold :
    ∃ base', Rebased w base base'
      ∧ (∃ old, (∀ a ∈ old, a < P.first)
          ∧ w₁.svc.held = old ++ todays w.hist.handedBack base' w.svc.next)
      ∧ (Stale P.day w₁.svc → ∀ a ∈ w₁.svc.held, a < P.first) := by
  obtain ⟨old, hold, hheld⟩ := h.held
  rcases hq.svc with hr | ⟨-, heq, -⟩
  · rcases hr.lapse with hst | hsame | ⟨hnil, hle⟩
    · -- an earlier day's hold: nothing of today is listed in it
      have htod : todays w.hist.handedBack base w.svc.next = [] := by
        refine eq_nil_iff_forall_not_mem.mpr fun a ha => ?_
        have h₁ := h.stale hst a (by rw [hheld]; exact mem_append_right _ ha)
        have h₂ := (mem_todays.mp ha).1
        have h₃ := h.first_le
        omega
      refine ⟨base, .inl rfl, ⟨w₁.svc.held, fun a ha => ?_, ?_⟩,
        fun hst' => absurd hst' hr.not_stale⟩
      · exact h.stale hst a (hr.sublist.subset ha)
      · rw [htod, append_nil]
    · exact ⟨base, .inl rfl, ⟨old, hold, hsame.trans hheld⟩, fun hst' => absurd hst' hr.not_stale⟩
    · refine ⟨w.svc.next, .inr ⟨rfl, fun a ha hlt hba => ?_⟩,
        ⟨[], nofun, ?_⟩, fun hst' => absurd hst' hr.not_stale⟩
      · refine hle a ?_
        rw [hheld]
        exact mem_append_right _ (mem_todays.mpr ⟨ha, hlt, hba⟩)
      · rw [hnil, todays_self, append_nil]
  · have hh : w₁.svc.held = w.svc.held := by
      unfold Service.held
      rw [heq]
    refine ⟨base, .inl rfl, ⟨old, hold, hh.trans hheld⟩, ?_⟩
    rintro ⟨h', hs, hne⟩
    rw [hh]
    exact h.stale ⟨h', heq ▸ hs, hne⟩

/-- A quiet step keeps the day's invariant, given what the calls have
read. -/
theorem DayInv.quiet (hok : ∀ q < w₁.nextCall, CallOk P w₁.close q) :
    ∃ base', DayInv P w₁.close base' baseOf := by
  have hl := hq.later h
  obtain ⟨base', hbase, hheld, hstale⟩ := hq.hold h
  refine ⟨base',
    { h.ends hl hbase (by rw [hq.hist]) (by rw [hq.hist]) with
      base_le := by
        rw [close_svc, hq.next]
        exact (h.le_of_rebased hbase).2
      held := ?held
      stale := hstale
      rows := ?rows
      committed := ?committed
      unborn := ?unborn
      taken := ?taken
      calls := hok
      admitted := ?admitted }⟩
  case held =>
    rw [close_svc, close_handedBack, hq.next, hq.hist]
    exact hheld
  case rows =>
    rw [close_rows, hq.rows, h.rows, close_committed, (hq.committed h).1]
  case committed =>
    intro a k hk
    rw [close_committedAt, hq.hist] at hk
    obtain ⟨h₁, h₂, h₃, h₄⟩ := h.committed a k hk
    rw [close_svc, hq.next, close_handedBack, hq.hist]
    exact ⟨h₁, h₂, h₃, h₄.trans hl.stepNo⟩
  case unborn =>
    rw [close_svc, hq.next, close_handedBack, hq.hist]
    exact h.unborn
  case taken =>
    rw [close_svc, hq.next, close_admittedBy, hq.hist]
    exact h.taken
  case admitted =>
    rw [close_svc, hq.next, close_admittedBy, hq.hist]
    exact fun a => h.earlier hl hbase

end

-- ======== the commit

/-- A commit adds one row and one committed admission. -/
theorem DayInv.commit (h : DayInv P w base baseOf) (hday : P.day ≤ w.now)
    (hby : (w.hist.admittedBy a).isSome) (hnew : w.hist.committedAt a = none)
    (hback : w.hist.handedBack a = false) (hw : w₁ = { w with
      rows := w.rows ++ [⟨w.chatOf a, true, w.now⟩]
      hist := { w.hist with
        committedAt := put w.hist.committedAt a (some w.hist.stepNo) } }) :
    DayInv P w₁.close base baseOf := by
  obtain ⟨hfa, hlta⟩ := h.taken a hby
  have hins : w₁.committed = insert a w.committed := by
    ext x
    rw [Finset.mem_insert, World.mem_committed, World.mem_committed, hw]
    by_cases hx : x = a
    · simp [put, hx, hlta]
    · simp [put, hx]
  have hl : Later P w w₁.close := by
    subst hw
    refine ⟨le_rfl, le_rfl, Nat.lt_succ_self _, fun _ _ _ hv => ⟨hv, rfl, rfl⟩,
      fun _ _ _ _ hc => hc, fun _ hx => hx, fun _ _ he => close_endedAt_of_some he, ?_⟩
    intro r hr
    ext x
    rw [World.mem_committedBy, World.mem_committedBy]
    by_cases hx : x = a
    · simp [put, hx, hnew, hr]
    · simp [put, hx]
  subst hw
  refine
    { h.ends hl (.inl rfl) rfl rfl with
      base_le := h.base_le
      held := h.held
      stale := h.stale
      rows := ?rows
      committed := ?committed
      unborn := h.unborn
      taken := h.taken
      calls := fun q hq => (h.calls q hq).later hl rfl rfl
      admitted := fun x => h.earlier hl (.inl rfl) }
  case rows =>
    have hrow : countSince (w.rows ++ [⟨w.chatOf a, true, w.now⟩]) P.day
        = countSince w.rows P.day + 1 := by
      simp [countSince, hday]
    rw [close_committed, hins, Finset.card_insert_of_notMem
      (by rw [World.mem_committed]; simp [hnew]), close_rows, hrow, h.rows]
    omega
  case committed =>
    intro x k hk
    simp only [close_committedAt, put] at hk
    split at hk
    next hx =>
      subst hx
      cases hk
      exact ⟨hfa, hlta, hback, Nat.lt_succ_self _⟩
    next =>
      obtain ⟨h₁, h₂, h₃, h₄⟩ := h.committed x k hk
      exact ⟨h₁, h₂, h₃, Nat.lt_succ_of_lt h₄⟩

-- ======== the hand-back

/-- Handing an admission without a row back keeps the invariant. -/
theorem DayInv.handBack (h : DayInv P w base baseOf) (hlt : a < w.svc.next)
    (hnew : w.hist.committedAt a = none)
    (hw : w₁ = { w with
      svc := Pacing.settle w.now a false w.svc
      settled := put w.settled a true
      hist := { w.hist with
        handedBack := put w.hist.handedBack a true } }) :
    DayInv P w₁.close base baseOf := by
  obtain ⟨hnext, hcount, hheld, -⟩ := settle_handBack_spec w.now a w.svc
  have hn : w₁.svc.next = w.svc.next := by rw [hw]; exact hnext
  obtain ⟨hcom, hby⟩ := committed_congr (w := w) (by rw [hw]) hn.ge
    fun x k hk => (h.committed x k hk).2.1
  have hheld₁ : w₁.svc.held = w.svc.held.erase a := by rw [hw]; exact hheld
  have hback : ∀ {x}, x ≠ a → put w.hist.handedBack a true x = w.hist.handedBack x := by
    intro x hx
    simp [put, hx]
  have hl : Later P w w₁.close := by
    subst hw
    refine ⟨hn.ge, le_rfl, Nat.lt_succ_self _, fun _ _ _ hv => ⟨hv, rfl, rfl⟩,
      fun x _ _ _ hc => (hcount x).trans hc, ?_, fun _ _ he => close_endedAt_of_some he,
      fun r _ => hby r⟩
    intro x hx
    by_cases hxa : x = a
    · simp [put, hxa] at hx
    · exact (hback hxa).symm.trans hx
  subst hw
  refine
    { h.ends hl (.inl rfl) rfl rfl with
      base_le := hn.symm ▸ h.base_le
      held := ?held
      stale := ?stale
      rows := (h.rows).trans (by rw [close_committed, hcom])
      committed := ?committed
      unborn := ?unborn
      taken := fun x hx => hn.symm ▸ h.taken x hx
      calls := fun q hq => (h.calls q hq).later hl rfl rfl
      admitted := fun x hfx hx => h.earlier hl (.inl rfl) hfx (hn ▸ hx) }
  case held =>
    obtain ⟨old, hold, hlist⟩ := h.held
    rw [close_svc, close_handedBack, hn, hheld₁, hlist, todays_handBack]
    by_cases ha : a ∈ old
    · -- carried over from an earlier day, so not one of today's
      have hnot : a ∉ todays w.hist.handedBack base w.svc.next := by
        intro hmem
        have h₁ := hold a ha
        have h₂ := (mem_todays.mp hmem).1
        have h₃ := h.first_le
        omega
      refine ⟨old.erase a, fun x hx => hold x (mem_of_mem_erase hx), ?_⟩
      rw [erase_append_left _ ha, erase_of_not_mem hnot]
    · exact ⟨old, hold, erase_append_right _ ha⟩
  case stale =>
    intro hs x hx
    rw [close_svc, hheld₁] at hx
    exact h.stale (stale_of_settle w.now a hs) x (mem_of_mem_erase hx)
  case committed =>
    intro x k hk
    obtain ⟨h₁, h₂, h₃, h₄⟩ := h.committed x k hk
    have hne : x ≠ a := by
      rintro rfl
      cases hnew.symm.trans hk
    exact ⟨h₁, hn.symm ▸ h₂, (hback hne).trans h₃, h₄.trans hl.stepNo⟩
  case unborn =>
    intro x hx
    rw [close_svc, hn] at hx
    exact (hback (by omega)).trans (h.unborn x hx)

-- ======== the admission

/-- The facts of an admission read the bases up to it only. -/
theorem AdmittedAs.congr_base {baseOf' : Nat → Nat} {q j : Nat}
    (h : AdmittedAs P w base baseOf a q r j)
    (heq : ∀ y, y ≤ a → baseOf' y = baseOf y) : AdmittedAs P w base baseOf' a q r j := by
  have ha := heq a le_rfl
  exact
    { h with
      first_le := by rw [ha]; exact h.first_le
      base_le := by rw [ha]; exact h.base_le
      le_base := by rw [ha]; exact h.le_base
      current := by rw [ha]; exact h.current
      shared := by
        intro y hy hya
        rw [heq y hya, ha]
        exact h.shared y (ha ▸ hy) hya
      room := by rw [ha]; exact h.room
      blind := by rw [ha]; exact h.blind }

/-- The world after call `q` was admitted over the refreshed service
`s₁`. -/
def admittedWorld (w : World) (q : Nat) (s₁ : Service) (d : Nat) (adm : Admission) : World :=
  let w₁ := { w with svc := pushAdmission d adm s₁ }.endCall q (.admitted s₁.next)
  { w₁ with
    settled := put w₁.settled s₁.next false
    hist := { w₁.hist with
      admittedBy := put w₁.hist.admittedBy s₁.next (some q) } }

variable {old : List Nat}

/-- Room, read over the day's list: from any admission of the hold on,
what is not handed back fits. -/
theorem Room.of_todays {allowance base next : Nat} {s : Service} (hroom : Room allowance s)
    (hheld : s.held = old ++ todays hb base next) (hy : base ≤ y)
    (hyn : y < next) (hby : hb y = false) (hc : (s.heap y).sentToday = some c) :
    c + (todays hb y next).length + 1 ≤ allowance := by
  have hsplit : s.held = (old ++ todays hb base y) ++ y :: todays hb (y + 1) next := by
    rw [hheld, todays_split hb hy hyn.le, todays_cons hyn hby, append_assoc]
  obtain ⟨c', hc', hlt⟩ := hroom _ y _ hsplit
  have hcc : c' = c := Option.some.inj (hc'.symm.trans hc)
  rw [todays_cons hyn hby, length_cons]
  omega

section Grant

variable {q n : Nat} {s₁ : Service} (adm : Admission) {cold : Option ColdRead}

/-- Calls other than the admitted one are untouched. -/
theorem admittedWorld_calls (P : Day) (w : World) (s₁ : Service)
    {p : Nat} (hp : p ≠ q) :
    (admittedWorld w q s₁ P.day adm).calls p = w.calls p
      ∧ (admittedWorld w q s₁ P.day adm).hist.readAt p = w.hist.readAt p
      ∧ (admittedWorld w q s₁ P.day adm).hist.judgedAt p = w.hist.judgedAt p := by
  simp [admittedWorld, World.endCall, World.setPhase, put, hp]

variable (href : Refreshed w.now P.day w.svc s₁)
include href

/-- A refresh alone is a quiet step. -/
theorem quiet_refresh : Quiet P w { w with svc := s₁ } :=
  ⟨.inl href, rfl, rfl, le_rfl, fun _ _ _ hv => ⟨hv, rfl, rfl⟩⟩

theorem admittedWorld_next : (admittedWorld w q s₁ P.day adm).svc.next = w.svc.next + 1 := by
  rw [← href.next]
  rfl

/-- The admissions before the new one are where the refresh left
them. -/
theorem admittedWorld_heap {x : Nat} (hx : x < w.svc.next) :
    (admittedWorld w q s₁ P.day adm).svc.heap x = s₁.heap x :=
  setAt_ne _ _ (by rw [href.next]; omega)

variable (h : DayInv P w base baseOf)
include h

/-- An admission commits nothing. -/
theorem admittedWorld_committed :
    (admittedWorld w q s₁ P.day adm).committed = w.committed
      ∧ ∀ r, (admittedWorld w q s₁ P.day adm).committedBy r = w.committedBy r :=
  committed_congr rfl ((Nat.le_succ _).trans_eq (admittedWorld_next adm href).symm)
    fun x k hk => (h.committed x k hk).2.1

variable (hphase : (w.calls q).phase = .probed P.day n cold)
include hphase

/-- An admission undoes nothing. -/
theorem admittedWorld_later : Later P w (admittedWorld w q s₁ P.day adm).close where
  next := by rw [close_svc, admittedWorld_next adm href]; exact Nat.le_succ _
  nextCall := le_rfl
  stepNo := Nat.lt_succ_self _
  finished := by
    intro p _ v hv
    have hne : p ≠ q := by
      rintro rfl
      rw [hphase] at hv
      cases hv
    obtain ⟨h₁, h₂, h₃⟩ := admittedWorld_calls adm P w s₁ hne
    exact ⟨(congrArg Call.phase h₁).trans hv, h₂, h₃⟩
  count := by
    intro x hfx hx c hc
    rw [close_svc, admittedWorld_heap adm href hx]
    refine href.sentToday x c (fun hst hmem => ?_) hc
    exact absurd (h.stale hst x hmem) (by omega)
  handedBack := fun _ hx => hx
  endedAt := fun _ _ he => close_endedAt_of_some he
  committedBy := fun r _ => (admittedWorld_committed (q := q) adm href h).2 r

variable (hq : q < w.nextCall) (hlt : n < P.allowance) (hroom : Room P.allowance s₁)
  (hcount : adm.sentToday = some n)
include hq hlt hroom hcount

/-- The facts of the new admission, over the base its hold had. -/
theorem admittedWorld_new {base' : Nat} (hbase : Rebased w base base')
    (hheld : s₁.held = old ++ todays w.hist.handedBack base' w.svc.next) :
    ∃ r, AdmittedAs P (admittedWorld w q s₁ P.day adm).close base'
      (put baseOf w.svc.next base') w.svc.next q r w.hist.stepNo := by
  have hcall := h.calls q hq
  simp only [CallOk, hphase] at hcall
  obtain ⟨-, r, hread, hrlt, hneq⟩ := hcall
  have hput : put baseOf w.svc.next base' w.svc.next = base' := by
    simp [put]
  obtain ⟨hle, hle'⟩ := h.le_of_rebased hbase
  have hnew : ((admittedWorld w q s₁ P.day adm).close.svc.heap w.svc.next).sentToday = some n := by
    rw [close_svc, ← href.next]
    exact (congrArg Admission.sentToday (setAt_same s₁.heap s₁.next adm)).trans hcount
  refine ⟨r,
    { by_call := hq
      finished := ⟨.admitted s₁.next, by
        simp [admittedWorld, World.endCall, World.setPhase, put]⟩
      read := hread
      read_lt := hrlt.trans (Nat.lt_succ_self _)
      judged := by simp [admittedWorld, World.endCall, World.setPhase, put]
      count := by
        rw [hnew, close_committedBy, (admittedWorld_committed adm href h).2, hneq]
      first_le := by rw [hput]; exact h.first_le.trans hle
      base_le := by rw [hput]; exact hle'
      le_base := hput.le
      current := fun _ => hput
      shared := ?_
      room := ?_
      blind := ?_ }⟩
  · intro y hy hyn
    rcases Nat.lt_or_eq_of_le hyn with hyn | rfl
    · rw [hput] at hy ⊢
      obtain ⟨q', r', j', hadm, -⟩ := h.admitted y ((h.first_le.trans hle).trans hy) hyn
      rcases hbase with rfl | ⟨rfl, -⟩
      · simp only [put, hyn.ne, if_false]
        exact hadm.current hy
      · omega
    · rfl
  · intro y hy hyn hby c hc
    rcases Nat.lt_or_eq_of_le hyn with hyn | rfl
    · rw [hput] at hy
      rw [close_svc, admittedWorld_heap adm href hyn] at hc
      exact hroom.of_todays hheld hy hyn hby hc
    · cases hnew.symm.trans hc
      rw [todays_self]
      exact hlt
  · intro x hfx hx hbx
    rw [hput] at hx
    obtain ⟨e, he, hes⟩ := h.gone hbase x hfx hx hbx
    exact ⟨e, close_endedAt_of_some he, hes⟩

/-- An admission that found room keeps the invariant, over the base its
hold had. -/
theorem DayInv.grant : Daily P (admittedWorld w q s₁ P.day adm).close := by
  obtain ⟨base', hbase, ⟨old, hold, hheld⟩, -⟩ := (quiet_refresh href).hold h
  have hheld : s₁.held = old ++ todays w.hist.handedBack base' w.svc.next := hheld
  have hn := admittedWorld_next (q := q) adm href
  have hl := admittedWorld_later adm href h hphase
  have hle' := (h.le_of_rebased hbase).2
  have hends := h.ends hl hbase rfl rfl
  have hby : ∀ x, x ≠ w.svc.next →
      (admittedWorld w q s₁ P.day adm).close.hist.admittedBy x = w.hist.admittedBy x := by
    intro x hx
    rw [← href.next] at hx
    simp [admittedWorld, World.endCall, World.setPhase, put, hx]
  refine ⟨base', put baseOf w.svc.next base',
    { hends with
      base_le := by rw [close_svc, hn]; omega
      held := ?held
      stale := fun hst => absurd hst (pushAdmission_held href.day adm).2
      rows := by
        rw [close_committed, (admittedWorld_committed adm href h).1]
        exact h.rows
      committed := ?committed
      unborn := fun x hx => h.unborn x (by rw [close_svc, hn] at hx; omega)
      taken := ?taken
      calls := ?calls
      admitted := ?admitted }⟩
  case held =>
    have hpush : (admittedWorld w q s₁ P.day adm).svc.held
        = s₁.held ++ [s₁.next] := (pushAdmission_held href.day adm).1
    have hback : (admittedWorld w q s₁ P.day adm).hist.handedBack = w.hist.handedBack := rfl
    refine ⟨old, hold, ?_⟩
    rw [close_svc, close_handedBack, hn, hback, todays_snoc hle'
      (h.unborn _ le_rfl), ← append_assoc, hpush, hheld, href.next]
  case committed =>
    intro x k hk
    obtain ⟨h₁, h₂, h₃, h₄⟩ := h.committed x k hk
    exact ⟨h₁, by rw [close_svc, hn]; omega, h₃, Nat.lt_succ_of_lt h₄⟩
  case taken =>
    intro x hx
    rw [close_svc, hn]
    by_cases hxn : x = w.svc.next
    · have := hends.first_le
      omega
    · rw [hby x hxn] at hx
      have := h.taken x hx
      omega
  case calls =>
    intro p hp
    by_cases hpq : p = q
    · simp [hpq, CallOk, admittedWorld, World.endCall, World.setPhase, put]
    · obtain ⟨h₁, h₂, -⟩ := admittedWorld_calls adm P w s₁ hpq
      exact (h.calls p hp).later hl (congrArg Call.phase h₁) h₂
  case admitted =>
    intro x hfx hx
    rw [close_svc, hn] at hx
    by_cases hxn : x = w.svc.next
    · subst hxn
      obtain ⟨r, hadm⟩ := admittedWorld_new adm href h hphase hq hlt hroom hcount hbase hheld
      refine ⟨q, r, _, hadm, ?_⟩
      rw [close_admittedBy, ← href.next]
      simp [admittedWorld, World.endCall, World.setPhase, put]
    · obtain ⟨q', r', j', hadm, hq'⟩ := h.earlier hl hbase hfx (by omega)
      refine ⟨q', r', j', hadm.congr_base ?_, (hby x hxn).trans hq'⟩
      intro y hy
      have hyn : y ≠ w.svc.next := by omega
      simp [put, hyn]

end Grant

end OpenWA.Pacing

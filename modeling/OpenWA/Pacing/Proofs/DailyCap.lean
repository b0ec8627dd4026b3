/-
The daily cap under concurrency: however the calls, commits, settles and
ticks of one UTC day interleave, the rows of the day never exceed the
allowance (or what was there at the start, when that is more).

# The argument

Take the last admission `a` with a row, and the first one, `y`, with a
row at or after the base of `a`. A row of an admission before `y` is a
row of one before the base of `y`, whose term had ended when `y` was
judged — so by `Latency` it was committed before `y` read, and the count
`y` read has it. Every other row is one of `[y, a]`, and when `a` was
judged there was room for those.

No descent along chains of stale readers is needed: the hold lapses as a
whole, so one base covers the whole chain.
-/
import OpenWA.Pacing.Proofs.DaySteps
import Mathlib.Data.Finset.Max

namespace OpenWA.Pacing

open Finset

-- ======== the bound

variable {P : Day} {w : World} {base y : Nat} {baseOf : Nat → Nat}

/-- The rows of `[y, a]` are among the admissions of `[y, a]` not handed
back. -/
theorem DayInv.card_from_le {a : Nat} (h : DayInv P w base baseOf) :
    (w.committed.filter fun x => y ≤ x ∧ x ≤ a).card
      ≤ (todays w.hist.handedBack y a).length + 1 := by
  have hsub : (w.committed.filter fun x => y ≤ x ∧ x ≤ a)
      ⊆ insert a (todays w.hist.handedBack y a).toFinset := by
    intro x hx
    obtain ⟨hmem, h₁, h₂⟩ := mem_filter.mp hx
    obtain ⟨-, k, hk⟩ := World.mem_committed.mp hmem
    rw [mem_insert, List.mem_toFinset, mem_todays]
    by_cases hxa : x = a
    · exact .inl hxa
    · exact .inr ⟨h₁, by omega, (h.committed x k hk).2.2.1⟩
  calc (w.committed.filter fun x => y ≤ x ∧ x ≤ a).card
      ≤ (insert a (todays w.hist.handedBack y a).toFinset).card := card_le_card hsub
    _ ≤ (todays w.hist.handedBack y a).toFinset.card + 1 := card_insert_le _ _
    _ ≤ (todays w.hist.handedBack y a).length + 1 := Nat.succ_le_succ (List.toFinset_card_le _)

/-- With the latency the hold is built on, a row from before the base of
`y` was committed before `y` read its count. -/
theorem AdmittedAs.saw {q r j x : Nat} (hadm : AdmittedAs P w base baseOf y q r j)
    (h : DayInv P w base baseOf) (hlat : Latency w) (hx : x ∈ w.committed) (hlt : x < baseOf y) :
    x ∈ w.committedBy r := by
  obtain ⟨hxn, k, hk⟩ := World.mem_committed.mp hx
  obtain ⟨hfx, -, hbx, -⟩ := h.committed x k hk
  refine World.mem_committedBy.mpr ⟨hxn, k, hk, ?_⟩
  by_contra hrk
  obtain ⟨e, he, hej⟩ := hadm.blind x hfx hlt hbx
  have := hlat q hadm.by_call x hxn r hadm.read k hk (by omega) j hadm.judged e he
  omega

/-- The day's invariant and the latency bound the rows of the day. -/
theorem DayInv.rows_le (h : DayInv P w base baseOf) (hlat : Latency w) :
    countSince w.rows P.day ≤ max P.allowance P.start := by
  rw [h.rows]
  by_cases hne : w.committed.Nonempty
  · -- the last admission with a row, and the first one of its hold
    have ha := w.committed.max'_mem hne
    set a := w.committed.max' hne
    obtain ⟨han, k, hk⟩ := World.mem_committed.mp ha
    obtain ⟨hfa, -, hba, -⟩ := h.committed a k hk
    obtain ⟨q, r, j, hadm, -⟩ := h.admitted a hfa han
    have hT : (w.committed.filter fun x => baseOf a ≤ x).Nonempty :=
      ⟨a, mem_filter.mpr ⟨ha, hadm.base_le⟩⟩
    have hy := min'_mem _ hT
    set y := (w.committed.filter fun x => baseOf a ≤ x).min' hT
    obtain ⟨hyc, hby⟩ := mem_filter.mp hy
    have hya : y ≤ a := w.committed.le_max' y hyc
    obtain ⟨hyn, ky, hky⟩ := World.mem_committed.mp hyc
    obtain ⟨hfy, -, hhy, -⟩ := h.committed y ky hky
    obtain ⟨qy, ry, jy, hady, -⟩ := h.admitted y hfy hyn
    have hbase : baseOf y = baseOf a := hadm.shared y hby hya
    -- every row is counted by `y` or belongs to an admission of `[y, a]`
    have hcover : w.committed ⊆ w.committedBy ry ∪ w.committed.filter fun x => y ≤ x ∧ x ≤ a := by
      intro x hx
      rw [mem_union]
      by_cases hxy : x < y
      · refine .inl (hady.saw h hlat hx ?_)
        by_contra hge
        have hmem : x ∈ w.committed.filter fun x => baseOf a ≤ x := mem_filter.mpr ⟨hx, by omega⟩
        have := min'_le _ x hmem
        omega
      · exact .inr (mem_filter.mpr ⟨hx, by omega, w.committed.le_max' x hx⟩)
    have hcard : w.committed.card ≤ (w.committedBy ry).card
        + (w.committed.filter fun x => y ≤ x ∧ x ≤ a).card :=
      (card_le_card hcover).trans (card_union_le _ _)
    have hroom := hadm.room y hby hya hhy _ hady.count
    have hfrom := h.card_from_le (y := y) (a := a)
    exact le_max_of_le_left (by omega)
  · rw [not_nonempty_iff_eq_empty.mp hne, card_empty]
    exact le_max_right _ _

-- ======== the runs

/-- A fresh start satisfies the invariant of its day. -/
theorem Fresh.dayInv (h : Fresh w) (allowance : Nat) :
    DayInv ⟨startOfUtcDay w.now, w.svc.next,
      countSince w.rows (startOfUtcDay w.now), allowance⟩ w w.svc.next (fun _ => 0) := by
  have hcom : w.committed = ∅ := by
    ext x
    rw [World.mem_committed]
    simp [h.committedAt x]
  refine
    { first_le := le_rfl
      base_le := le_rfl
      held := ⟨w.svc.held, h.held, by rw [todays_self, List.append_nil]⟩
      stale := fun _ => h.held
      ended := fun a h₁ h₂ => absurd h₂ (not_lt.mpr h₁)
      lapsed := fun a h₁ h₂ => absurd h₂ (not_lt.mpr h₁)
      endedAt_lt := ?_
      rows := by rw [hcom]; rfl
      committed := ?_
      unborn := fun a _ => h.handedBack a
      taken := ?_
      calls := ?_
      admitted := fun a h₁ h₂ => absurd h₂ (not_lt.mpr h₁) }
  · intro a e he
    rw [h.endedAt a] at he
    cases he
  · intro a k hk
    rw [h.committedAt a] at hk
    cases hk
  · intro a ha
    rw [h.admittedBy a] at ha
    cases ha
  · intro q hq
    rw [h.calls] at hq
    omega

@[simp] theorem restart_now (ses : Session) (w : World) (q : Nat) :
    (w.restart ses q).now = w.now := by
  unfold World.restart
  split <;> rfl

@[simp] theorem judge_now (ses : Session) (w : World) (q d n : Nat) :
    (w.judge ses q d n).now = w.now := by
  unfold World.judge
  split
  · exact restart_now ses w q
  · split <;> rfl

@[simp] theorem grant_now (ses : Session) (w : World) (q d n : Nat)
    (cold : Option ColdRead) : (w.grant ses q d n cold).now = w.now := by
  unfold World.grant
  split
  · exact restart_now ses w q
  · simp only
    split <;> rfl

variable {ses : Session}

/-- Only a tick moves the clock, and never back. -/
theorem now_step {a : Act} {w' : World} (hs : (pacing ses).step a w = some w') :
    w'.now = w.now ∨ ∃ ms, a = .tick ms ∧ w'.now = w.now + ms := by
  obtain ⟨w₁, hact, rfl⟩ := Option.map_eq_some_iff.mp hs
  rw [close_now]
  cases a with
  | tick ms =>
    cases hact
    exact .inr ⟨ms, rfl, rfl⟩
  | _ =>
    refine .inl ?_
    simp only [World.act] at hact
    repeat' split at hact
    all_goals cases hact
    all_goals first | rfl | simp

theorem now_le_step {a : Act} {w' : World} (hs : (pacing ses).step a w = some w') :
    w.now ≤ w'.now := by
  rcases now_step hs with heq | ⟨ms, -, heq⟩ <;> omega

theorem startOfUtcDay_mono {x : Nat} (h : x ≤ y) : startOfUtcDay x ≤ startOfUtcDay y :=
  Nat.mul_le_mul_right _ (Nat.div_le_div_right h)

/-- What the steps of a day keep holds all day. -/
theorem reach_on_day {Q : World → Prop} {w₀ : World} (h₀ : Q w₀)
    (hstep : ∀ a t t', startOfUtcDay t.now = startOfUtcDay w₀.now → Q t →
      (pacing ses).step a t = some t' → Q t')
    (hr : (pacing ses).Reach w₀ w) (hday : startOfUtcDay w.now = startOfUtcDay w₀.now) : Q w := by
  have hinv : w₀.now ≤ w.now ∧ (startOfUtcDay w.now = startOfUtcDay w₀.now → Q w) := by
    refine hr.invariant (P := fun t => w₀.now ≤ t.now
      ∧ (startOfUtcDay t.now = startOfUtcDay w₀.now → Q t)) ⟨le_rfl, fun _ => h₀⟩ ?_
    rintro a t t' ⟨hle, ih⟩ hs
    have hnow := now_le_step hs
    refine ⟨hle.trans hnow, fun hday' => ?_⟩
    -- the clock is monotone, so the state before was on the day too
    have hday₁ : startOfUtcDay t.now = startOfUtcDay w₀.now :=
      le_antisymm ((startOfUtcDay_mono hnow).trans hday'.le) (startOfUtcDay_mono hle)
    exact hstep a t t' hday₁ (ih hday₁) hs
  exact hinv.2 hday

/-- On a day that starts fresh, every state reached that day and with the
latency the hold is built on has at most the allowance in rows, or the
rows of the start when those are more. -/
theorem daily_cap (ses : Session) {w₀ w : World} (h₀ : Fresh w₀) (hr : (pacing ses).Reach w₀ w)
    (hday : startOfUtcDay w.now = startOfUtcDay w₀.now)
    (hlat : Latency w) :
    countSince w.rows (startOfUtcDay w₀.now) ≤ max (ses.allowance (startOfUtcDay w₀.now))
          (countSince w₀.rows (startOfUtcDay w₀.now)) := by
  set P : Day := ⟨startOfUtcDay w₀.now, w₀.svc.next,
    countSince w₀.rows (startOfUtcDay w₀.now), ses.allowance (startOfUtcDay w₀.now)⟩
  obtain ⟨base, baseOf, h⟩ : ∃ base baseOf, DayInv P w base baseOf := by
    refine reach_on_day (Q := fun t => ∃ base baseOf, DayInv P t base baseOf)
      ⟨_, _, h₀.dayInv _⟩ ?_ hr hday
    rintro a t t' hday' ⟨base, baseOf, h⟩ hs
    exact h.step hday' rfl hs
  exact h.rows_le hlat

/-- A session with an allowance of one, and an idle service on its first
day. -/
def oneADay : Session := ⟨⟨true, [1], [], 5, 900000⟩, some 0⟩

/-- Nothing held, nothing sent. -/
def idle : World where
  now := 0
  svc := ⟨none, none, none, fun _ => ⟨0, false, 0, none, none⟩, 0⟩
  rows := []
  calls := fun _ => ⟨none, ⟨true, false, false⟩, .opening⟩
  nextCall := 0
  settled := fun _ => false
  reservations := []
  hist := ⟨0, fun _ => none, fun _ => none, fun _ => none, fun _ => false,
    fun _ => none, fun _ => none⟩

theorem fresh_idle : Fresh idle := by
  refine ⟨rfl, ?_, ?_, rfl, fun _ => rfl, fun _ => rfl, fun _ => rfl, fun _ => rfl,
    fun _ => rfl, fun _ => rfl⟩
  · intro h hmem
    cases hmem
  · intro a ha
    cases ha

/-- Two parallel sends that both read an empty day: the first is admitted
and commits its row, the second is judged afterwards on its stale
count. -/
def burst : List Act :=
  [.start (some "1@c.us") ⟨true, false, true⟩, .start (some "2@c.us") ⟨true, true, false⟩,
   .lookup 0, .lookup 1, .count 0, .count 1, .judge 0, .judge 1,
   .probe 0 none, .probe 1 none, .grant 0, .tick 40, .commit 0,
   .settle 0 true, .tick 9000, .grant 1]

/-- Two sends at once on an allowance of one make one row. -/
theorem daily_cap_burst : ∃ w, (pacing oneADay).Reach idle w ∧ Fresh idle
    ∧ Latency w ∧ countSince w.rows 0 = 1
    ∧ countSince w.rows 0 ≤ max (oneADay.allowance 0) (countSince idle.rows 0) := by
  obtain ⟨w, hr, hw⟩ := Machine.exists_reach_of_run (M := pacing oneADay)
    idle burst (fun w => decide (Latency w)
      && decide (startOfUtcDay w.now = 0) && decide (countSince w.rows 0 = 1)) (by decide +kernel)
  simp only [Bool.and_eq_true, decide_eq_true_eq] at hw
  obtain ⟨⟨hlat, hday⟩, hcount⟩ := hw
  exact ⟨w, hr, fresh_idle, hlat, hcount, daily_cap oneADay fresh_idle hr hday hlat⟩

end OpenWA.Pacing

/-
The token bucket's bound: however its calls are spread and whatever the
clock reads, a subject draws no more than the capacity and what the clock
has advanced.

# The potential

A bucket's tokens and the refill it can still get before a reading `top`
together only ever go down, by one with each call that is allowed
(`allowedCalls_le`). `lastRefill` never moves back, so a reading behind it
costs and gives nothing, and between two calls of a subject its bucket
stays as it is (`Recent`), whatever the others do.
-/
import OpenWA.Events.RateLimit
import Mathlib.Data.Rat.Cast.Order
import Mathlib.Tactic.Linarith
import Mathlib.Tactic.Ring

namespace OpenWA.Events

open List

variable {Subject : Type*} [DecidableEq Subject] {ms top : ℚ} {b : Bucket}

namespace TokenBucketLimiter

variable (l : TokenBucketLimiter)

-- ======== one bucket

/-- The refill that so many milliseconds bring. -/
def refill (ms : ℚ) : ℚ := ms * l.refillPerSecond / 1000

variable {l}

theorem refill_add (ms ms' : ℚ) : l.refill (ms + ms') = l.refill ms + l.refill ms' := by
  unfold refill
  ring

theorem refill_mono (hrate : 0 ≤ l.refillPerSecond) {ms' : ℚ} (h : ms ≤ ms') :
    l.refill ms ≤ l.refill ms' := by
  unfold refill
  have hmul := mul_le_mul_of_nonneg_right h hrate
  linarith

theorem refill_nonneg (hrate : 0 ≤ l.refillPerSecond) (h : 0 ≤ ms) : 0 ≤ l.refill ms := by
  have hmono := refill_mono hrate h
  have hzero : l.refill 0 = 0 := by
    unfold refill
    ring
  rwa [hzero] at hmono

variable (l) in
/-- A bucket with no more tokens than fit and none owed. -/
def InRange (b : Bucket) : Prop := 0 ≤ b.tokens ∧ b.tokens ≤ l.capacity

/-- A refill adds what the clock has advanced since the last one, at most. -/
theorem refilled_some (hrate : 0 ≤ l.refillPerSecond) (hb : l.InRange b) (t : ℚ) :
    l.InRange (l.refilled (some b) t)
    ∧ (l.refilled (some b) t).lastRefill = max b.lastRefill t
    ∧ (l.refilled (some b) t).tokens ≤ b.tokens + l.refill (max b.lastRefill t - b.lastRefill) := by
  obtain ⟨hnonneg, hle⟩ := hb
  show l.InRange (if t > b.lastRefill then _ else b) ∧ _
  by_cases ht : t > b.lastRefill
  · have hgain : 0 ≤ l.refill (t - b.lastRefill) := refill_nonneg hrate (by linarith)
    have heq : l.refilled (some b) t
        = { tokens := min l.capacity (b.tokens + l.refill (t - b.lastRefill))
            lastRefill := t } := if_pos ht
    rw [if_pos ht, heq, max_eq_right ht.le]
    refine ⟨⟨le_min (hnonneg.trans hle) ?_, min_le_left _ _⟩, rfl, min_le_right _ _⟩
    exact add_nonneg hnonneg hgain
  · have heq : l.refilled (some b) t = b := if_neg ht
    have hmax := max_eq_left (not_lt.mp ht)
    rw [if_neg ht, heq, hmax, sub_self]
    refine ⟨⟨hnonneg, hle⟩, rfl, ?_⟩
    have hzero := refill_nonneg hrate (le_refl (0 : ℚ))
    linarith

theorem drawn_lastRefill (b : Bucket) : b.drawn.lastRefill = b.lastRefill := by
  unfold Bucket.drawn
  split <;> rfl

theorem inRange_drawn (hb : l.InRange b) : l.InRange b.drawn := by
  obtain ⟨hnonneg, hle⟩ := hb
  unfold Bucket.drawn
  split
  next h => exact ⟨sub_nonneg.mpr h, by show b.tokens - 1 ≤ _; linarith⟩
  next => exact ⟨hnonneg, hle⟩

/-- A call that is allowed takes one token, one that is not takes none. -/
theorem drawn_tokens (b : Bucket) :
    ((if 1 ≤ b.tokens then 1 else 0 : ℕ) : ℚ) + b.drawn.tokens = b.tokens := by
  unfold Bucket.drawn
  split
  · show ((1 : ℕ) : ℚ) + (b.tokens - 1) = b.tokens
    ring
  · simp

theorem inRange_refilled (hcap : 0 ≤ l.capacity) (hrate : 0 ≤ l.refillPerSecond)
    {bucket : Option Bucket} (hb : ∀ b ∈ bucket, l.InRange b) (t : ℚ) :
    l.InRange (l.refilled bucket t) := by
  cases bucket with
  | none => exact ⟨hcap, le_refl _⟩
  | some b => exact (refilled_some hrate (hb b rfl) t).1

-- ======== the calls

variable {s : Subject} {buckets : Record Subject Bucket} {calls rest : List (Call Subject)}
  {c : Call Subject}

theorem allowedCalls_own (h : c.subject = s) :
    l.allowedCalls s buckets (c :: rest)
      = (if 1 ≤ (l.refilled (buckets.get s) c.t).tokens then 1 else 0)
        + l.allowedCalls s (l.allow buckets s c.t).2 rest := by
  subst h
  simp [allowedCalls, allow]

theorem allowedCalls_other (h : c.subject ≠ s) :
    l.allowedCalls s buckets (c :: rest)
      = l.allowedCalls s (l.allow buckets c.subject c.t).2 rest := by
  simp [allowedCalls, h]

theorem allowedCalls_absent (h : ∀ c ∈ calls, c.subject ≠ s) :
    l.allowedCalls s buckets calls = 0 := by
  induction calls generalizing buckets with
  | nil => rfl
  | cons c rest ih =>
    rw [allowedCalls_other (h c mem_cons_self)]
    exact ih fun o ho => h o (mem_cons_of_mem c ho)

/-- Every bucket in the map is in range. -/
def AllInRange (l : TokenBucketLimiter) (buckets : Record Subject Bucket) : Prop :=
  ∀ s b, buckets.get s = some b → l.InRange b

section

variable (hcap : 0 ≤ l.capacity) (hrate : 0 ≤ l.refillPerSecond) (h : AllInRange l buckets)
include hcap hrate h

theorem AllInRange.allow (s : Subject) (t : ℚ) : AllInRange l (l.allow buckets s t).2 := by
  intro k b hk
  have htouch := Record.get_of_get_evict hk
  by_cases hks : k = s
  · subst hks
    rw [Record.get_touch_self] at htouch
    cases htouch
    exact inRange_drawn (inRange_refilled hcap hrate (h k) t)
  · rw [Record.get_touch_of_ne _ _ hks] at htouch
    exact h k b htouch

theorem AllInRange.after (calls : List (Call Subject)) : AllInRange l (l.after buckets calls) := by
  induction calls generalizing buckets with
  | nil => exact h
  | cons c rest ih => exact ih (h.allow hcap hrate c.subject c.t)

end

-- ======== the spacing

variable (l) in
/-- The next call of the subject comes before too many others, those in
`ks` among them, are touched. -/
def Near (s : Subject) (ks : Finset Subject) (calls : List (Call Subject)) : Prop :=
  ∀ between c rest, calls = between ++ c :: rest → c.subject = s →
    (∀ o ∈ between, o.subject ≠ s) →
    ((ks ∪ (between.map Call.subject).toFinset).card : ℤ) < max 1 l.maxKeys

theorem Spaced.tail (h : l.Spaced s (c :: rest)) : l.Spaced s rest := by
  intro before o between o' tail heq
  exact h (c :: before) o between o' tail (by rw [heq]; rfl)

theorem Spaced.near (h : l.Spaced s (c :: rest)) (hc : c.subject = s) : l.Near s ∅ rest := by
  intro between o tail heq ho hbetween
  exact h [] c between o tail (by rw [heq]; rfl) hc ho hbetween

variable {ks : Finset Subject}

theorem Near.tail (h : l.Near s ks (c :: rest)) (hc : c.subject ≠ s) :
    l.Near s (insert c.subject ks) rest := by
  intro between o tail heq ho hbetween
  have hlt := h (c :: between) o tail (by rw [heq]; rfl) ho ?_
  · have hunion : ks ∪ ((c :: between).map Call.subject).toFinset
        = insert c.subject ks ∪ (between.map Call.subject).toFinset := by
      rw [map_cons, toFinset_cons, Finset.union_insert, Finset.insert_union]
    rwa [hunion] at hlt
  · intro o' ho'
    rcases mem_cons.mp ho' with rfl | ho'
    · exact hc
    · exact hbetween o' ho'

/-- While a call of the subject is still to come, there is room. -/
theorem Near.card_lt (h : l.Near s ks calls)
    (hlater : ∃ c ∈ calls, c.subject = s) : ks.card < (max 1 l.maxKeys).toNat := by
  have hfound : (calls.find? fun c => decide (c.subject = s)).isSome := by simpa using hlater
  obtain ⟨c, hc⟩ := Option.isSome_iff_exists.mp hfound
  obtain ⟨hc, between, rest, heq, hbetween⟩ := find?_eq_some_iff_append.mp hc
  have hlt := h between c rest heq (by simpa using hc) fun o ho => by simpa using hbetween o ho
  have hle : ks.card ≤ (ks ∪ (between.map Call.subject).toFinset).card :=
    Finset.card_le_card Finset.subset_union_left
  omega

-- ======== the potential

/-- A subject just asked for is the most recent. -/
theorem recent_own (buckets : Record Subject Bucket) (s : Subject) (t : ℚ) :
    (l.allow buckets s t).2.Recent s (l.refilled (buckets.get s) t).drawn ∅ := by
  refine (Record.recent_touch_self buckets s _).evict ?_
  rw [Finset.card_empty]
  omega

/-- A bucket that is in the map pays for every later call from its tokens
and from what the clock advances beyond its last refill. -/
theorem allowedCalls_le (hrate : 0 ≤ l.refillPerSecond) (hb : l.InRange b)
    (hrecent : buckets.Recent s b ks) (hnear : l.Near s ks calls) (hspaced : l.Spaced s calls)
    (htop : ∀ c ∈ calls, c.subject = s → c.t ≤ top) :
    (l.allowedCalls s buckets calls : ℚ)
      ≤ b.tokens + l.refill (max b.lastRefill top - b.lastRefill) := by
  have hnonneg : ∀ {b : Bucket}, l.InRange b →
      ((0 : ℕ) : ℚ) ≤ b.tokens + l.refill (max b.lastRefill top - b.lastRefill) := by
    intro b hb
    have hgain := refill_nonneg hrate (sub_nonneg.mpr (le_max_left b.lastRefill top))
    exact_mod_cast add_nonneg hb.1 hgain
  induction calls generalizing buckets b ks with
  | nil => exact hnonneg hb
  | cons c rest ih =>
    have htop' : ∀ c ∈ rest, c.subject = s → c.t ≤ top := fun o ho => htop o (mem_cons_of_mem c ho)
    by_cases hc : c.subject = s
    · obtain ⟨hin, hlast, htokens⟩ := refilled_some hrate hb c.t
      have hown := recent_own (l := l) buckets s c.t
      rw [hrecent.get] at hown
      have hrest := ih (inRange_drawn hin) hown (hspaced.near hc) hspaced.tail htop'
      rw [drawn_lastRefill, hlast] at hrest
      have hdrawn := drawn_tokens (l.refilled (some b) c.t)
      -- the two refills, before this call and after it, add up
      have htotal : max (max b.lastRefill c.t) top = max b.lastRefill top := by
        rw [max_assoc, max_eq_right (htop c mem_cons_self hc)]
      have hsum := refill_add (l := l) (max b.lastRefill c.t - b.lastRefill)
        (max b.lastRefill top - max b.lastRefill c.t)
      rw [sub_add_sub_cancel'] at hsum
      rw [htotal] at hrest
      rw [allowedCalls_own hc, hrecent.get]
      push_cast at hdrawn ⊢
      linarith
    · rw [allowedCalls_other hc]
      by_cases hlater : ∃ o ∈ rest, o.subject = s
      · have hnear' := hnear.tail hc
        refine ih hb ?_ hnear' hspaced.tail htop'
        exact (hrecent.touch (Ne.symm hc) _).evict (hnear'.card_lt hlater)
      · have habsent : ∀ o ∈ rest, o.subject ≠ s := fun o ho hos => hlater ⟨o, ho, hos⟩
        rw [allowedCalls_absent habsent]
        exact hnonneg hb

/-- From any buckets in range, a span of calls is paid for by the capacity
and by what the clock advances from the subject's first call on. -/
theorem allowedCalls_span (hcap : 0 ≤ l.capacity) (hrate : 0 ≤ l.refillPerSecond) {first : ℚ}
    (hle : first ≤ top) (hrange : AllInRange l buckets) (hspaced : l.Spaced s calls)
    (hfirst : ∀ c ∈ calls.find? (fun c => decide (c.subject = s)), first ≤ c.t)
    (htop : ∀ c ∈ calls, c.subject = s → c.t ≤ top) :
    (l.allowedCalls s buckets calls : ℚ) ≤ l.capacity + l.refill (top - first) := by
  induction calls generalizing buckets with
  | nil =>
    have hgain := refill_nonneg hrate (sub_nonneg.mpr hle)
    show ((0 : ℕ) : ℚ) ≤ _
    push_cast
    linarith
  | cons c rest ih =>
    have htop' : ∀ c ∈ rest, c.subject = s → c.t ≤ top := fun o ho => htop o (mem_cons_of_mem c ho)
    by_cases hc : c.subject = s
    · have hin := inRange_refilled hcap hrate (hrange s) c.t
      have hrest := allowedCalls_le hrate (inRange_drawn hin) (recent_own buckets s c.t)
        (hspaced.near hc) hspaced.tail htop'
      have hdrawn := drawn_tokens (l.refilled (buckets.get s) c.t)
      -- a bucket is never refilled up to a time before the call
      have hlast : c.t ≤ (l.refilled (buckets.get s) c.t).lastRefill := by
        cases hget : buckets.get s with
        | none => exact le_refl _
        | some b =>
          rw [(refilled_some hrate (hrange s b hget) c.t).2.1]
          exact le_max_right _ _
      have hstart : first ≤ c.t := by
        refine hfirst c ?_
        rw [find?_cons_of_pos (by simpa using hc)]
        rfl
      have hgain : l.refill (max (l.refilled (buckets.get s) c.t).drawn.lastRefill top
          - (l.refilled (buckets.get s) c.t).drawn.lastRefill) ≤ l.refill (top - first) := by
        refine refill_mono hrate ?_
        rw [drawn_lastRefill]
        rcases le_total (l.refilled (buckets.get s) c.t).lastRefill top with h | h
        · rw [max_eq_right h]
          linarith
        · rw [max_eq_left h]
          linarith
      have hfull := hin.2
      rw [allowedCalls_own hc]
      push_cast at hdrawn ⊢
      linarith
    · rw [allowedCalls_other hc]
      refine ih (hrange.allow hcap hrate _ _) hspaced.tail ?_ htop'
      rw [find?_cons_of_neg (by simpa using hc)] at hfirst
      exact hfirst

-- ======== the result

/-- In any span of the calls, a subject whose bucket is not evicted is
allowed at most the capacity and the refill of the time from its first call
to its highest reading; no bucket ever holds less than nothing or more than
the capacity. -/
theorem token_bucket_bound (l : TokenBucketLimiter) (hcap : 0 ≤ l.capacity)
    (hrate : 0 ≤ l.refillPerSecond) (before span : List (Call Subject)) (s : Subject) :
    (∀ first top, first ≤ top → l.Spaced s span →
      (∀ c ∈ span.find? (fun c => decide (c.subject = s)), first ≤ c.t) →
      (∀ c ∈ span, c.subject = s → c.t ≤ top) →
      (l.allowedCalls s (l.after Record.empty before) span : ℚ)
        ≤ l.capacity + l.refillPerSecond * ((top - first) / 1000))
    ∧ ∀ s' b, (l.after Record.empty before).get s' = some b →
        0 ≤ b.tokens ∧ b.tokens ≤ l.capacity := by
  have hrange : AllInRange l (l.after (Record.empty : Record Subject Bucket) before) :=
    AllInRange.after hcap hrate (fun s b hb => by cases hb) before
  refine ⟨?_, hrange⟩
  intro first top hle hspaced hfirst htop
  have hbound := allowedCalls_span hcap hrate hle hrange hspaced hfirst htop
  have hrefill : l.refill (top - first) = l.refillPerSecond * ((top - first) / 1000) := by
    unfold refill
    ring
  rwa [hrefill] at hbound

/-- Two subjects in a map for two: the burst, then one token a second. -/
theorem token_bucket_bound_two_subjects :
    ((TokenBucketLimiter.mk 1 2 2).allowedCalls true
      ((TokenBucketLimiter.mk 1 2 2).after Record.empty [⟨false, 0⟩])
      [⟨true, 0⟩, ⟨false, 0⟩, ⟨true, 0⟩, ⟨true, 500⟩, ⟨true, 1000⟩] : ℚ)
      ≤ 2 + 1 * ((1000 - 0) / 1000) := by
  refine (token_bucket_bound (TokenBucketLimiter.mk 1 2 2) (by decide) (by decide) [⟨false, 0⟩]
    [⟨true, 0⟩, ⟨false, 0⟩, ⟨true, 0⟩, ⟨true, 500⟩, ⟨true, 1000⟩] true).1 0 1000 (by decide)
    ?_ ?_ ?_
  · intro _ _ between _ _ _ _ _ hbetween
    have hsub : (between.map Call.subject).toFinset ⊆ {false} := by
      intro k hk
      obtain ⟨o, ho, rfl⟩ := mem_map.mp (mem_toFinset.mp hk)
      simpa using hbetween o ho
    have hcard := Finset.card_le_card hsub
    rw [Finset.card_singleton] at hcard
    show ((between.map Call.subject).toFinset.card : ℤ) < 2
    omega
  · intro c hc
    cases hc
    exact le_refl _
  · intro c hc _
    simp only [mem_cons, not_mem_nil, or_false] at hc
    rcases hc with rfl | rfl | rfl | rfl | rfl <;> decide

/-- The clock reads 0, 0, 2000 and 0 again: four calls are allowed, three of
them at reading 0, of a capacity of two. Neither the first and the last
reading nor the readings of the calls counted are apart by any time. -/
theorem clock_stepped_back :
    let l : TokenBucketLimiter := { refillPerSecond := 1, capacity := 2, maxKeys := 10 }
    let calls : List (Call Unit) := [⟨(), 0⟩, ⟨(), 0⟩, ⟨(), 2000⟩, ⟨(), 0⟩]
    l.allowedCalls () Record.empty calls = 4
    ∧ l.allowedCalls () Record.empty (calls.take 2)
        + l.allowedCalls () (l.after Record.empty (calls.take 3)) (calls.drop 3) = 3
    ∧ l.capacity + l.refillPerSecond * ((0 - 0) / 1000) = 2 := by
  decide +kernel

end TokenBucketLimiter

end OpenWA.Events

/-
The two limiters of `modules/events/ws-rate-limit.ts`: the token bucket on
client frames and the sliding window on handshakes, with the map both keep
their subjects in.

# What is modelled

`allow` and `refund` as the code computes them, the reading of the clock
passed in. A subject is any key. Tokens and readings are rational, so that
no rounding enters; a call's answer comes with the map it leaves. A hit's
reservation is an object compared by identity, hence any type with
equality.
-/
import OpenWA.Lib.Lru
import OpenWA.Lib.Reach
import Mathlib.Algebra.Order.Field.Rat
import Mathlib.Data.Multiset.AddSub

namespace OpenWA.Events

variable {Subject : Type*} [DecidableEq Subject]

/-- `evictOverflow`. -/
def evictOverflow {V : Type*} (map : Record Subject V) (maxKeys : ℤ) : Record Subject V :=
  map.evict (max 1 maxKeys).toNat

-- ======== the token bucket

/-- The tokens of a key and when they were counted. -/
structure Bucket where
  tokens : ℚ
  lastRefill : ℚ

/-- One token less, if there is one. -/
def Bucket.drawn (b : Bucket) : Bucket :=
  if 1 ≤ b.tokens then { b with tokens := b.tokens - 1 } else b

/-- A call of `allow` and what the clock reads at it. -/
structure Call (Subject : Type*) where
  subject : Subject
  t : ℚ

/-- The settings of a token bucket limiter. -/
structure TokenBucketLimiter where
  refillPerSecond : ℚ
  capacity : ℚ
  maxKeys : ℤ

namespace TokenBucketLimiter

variable (l : TokenBucketLimiter)

/-- The bucket of a subject at a reading, before a token is taken. -/
def refilled (bucket : Option Bucket) (t : ℚ) : Bucket :=
  match bucket with
  | none => { tokens := l.capacity, lastRefill := t }
  | some b =>
    if t > b.lastRefill then
      { tokens := min l.capacity (b.tokens + (t - b.lastRefill) * l.refillPerSecond / 1000)
        lastRefill := t }
    else b

/-- `TokenBucketLimiter.allow`: the answer, and the buckets it leaves. -/
def allow (buckets : Record Subject Bucket) (subject : Subject) (t : ℚ) :
    Bool × Record Subject Bucket :=
  let bucket := l.refilled (buckets.get subject) t
  (decide (1 ≤ bucket.tokens), evictOverflow (buckets.touch subject bucket.drawn) l.maxKeys)

/-- The buckets after a sequence of calls. -/
def after (buckets : Record Subject Bucket) (calls : List (Call Subject)) : Record Subject Bucket :=
  calls.foldl (fun buckets c => (l.allow buckets c.subject c.t).2) buckets

/-- How many calls of a subject are allowed in a sequence of calls. -/
def allowedCalls (s : Subject) : Record Subject Bucket → List (Call Subject) → ℕ
  | _, [] => 0
  | buckets, c :: rest =>
    (if c.subject = s ∧ (l.allow buckets c.subject c.t).1 = true then 1 else 0)
      + allowedCalls s (l.allow buckets c.subject c.t).2 rest

/-- Between two calls of the subject, one right after the other, fewer other
subjects than the map has room for are touched. -/
def Spaced (s : Subject) (calls : List (Call Subject)) : Prop :=
  ∀ before c between c' rest, calls = before ++ c :: (between ++ c' :: rest) →
    c.subject = s → c'.subject = s → (∀ o ∈ between, o.subject ≠ s) →
    ((between.map Call.subject).toFinset.card : ℤ) < max 1 l.maxKeys

end TokenBucketLimiter

-- ======== the sliding window

/-- One attempt on a subject's list. -/
structure Hit (Reservation : Type*) where
  time : ℚ
  reservation : Option Reservation
deriving DecidableEq

/-- The settings of a sliding window limiter. -/
structure SlidingWindowLimiter where
  max : ℕ
  windowMs : ℚ
  maxKeys : ℤ

namespace SlidingWindowLimiter

variable {Reservation : Type*} [DecidableEq Reservation] (l : SlidingWindowLimiter)

/-- The hits of a list that are in the window at a reading. -/
def recent (hits : List (Hit Reservation)) (t : ℚ) : List (Hit Reservation) :=
  hits.filter fun hit => decide (t - hit.time < l.windowMs)

/-- `SlidingWindowLimiter.allow`. -/
def allow (hits : Record Subject (List (Hit Reservation))) (subject : Subject)
    (reservation : Option Reservation) (t : ℚ) :
    Bool × Record Subject (List (Hit Reservation)) :=
  let recent := l.recent ((hits.get subject).getD []) t
  let allowed := decide (recent.length < l.max)
  let recent := if allowed then recent ++ [{ time := t, reservation }] else recent
  (allowed, evictOverflow (hits.touch subject recent) l.maxKeys)

/-- What `refund` leaves of a subject's list. -/
def refunded (recent : List (Hit Reservation)) (reservation : Option Reservation) :
    List (Hit Reservation) :=
  match reservation with
  | none => recent.dropLast
  | some r => recent.eraseP fun hit => hit.reservation = some r

/-- `SlidingWindowLimiter.refund`. -/
def refund (hits : Record Subject (List (Hit Reservation))) (subject : Subject)
    (reservation : Option Reservation) : Record Subject (List (Hit Reservation)) :=
  match hits.get subject with
  | none => hits
  | some recent => hits.set subject (refunded recent reservation)

/-- The hit a refund takes off the list. -/
def taken (recent : List (Hit Reservation)) (reservation : Option Reservation) :
    Option (Hit Reservation) :=
  match reservation with
  | none => recent.getLast?
  | some r => recent.find? fun hit => hit.reservation = some r

end SlidingWindowLimiter

-- ======== runs of the window

/-- The window's map between two calls, with what has happened: per subject
the hits that were allowed, those a refund took, the reservations the calls
came with and the readings at which its entry was evicted. -/
structure WindowWorld (Subject Reservation : Type*) where
  hits : Record Subject (List (Hit Reservation))
  now : ℚ
  log : Subject → List (Hit Reservation)
  removed : Subject → List (Hit Reservation)
  named : Subject → List Reservation
  evictions : Subject → List ℚ

/-- A call of the window limiter. -/
inductive WindowAct (Subject Reservation : Type*)
  | allow (subject : Subject) (reservation : Option Reservation) (t : ℚ)
  | refund (subject : Subject) (reservation : Option Reservation)

namespace WindowWorld

variable {Reservation : Type*} [DecidableEq Reservation]

/-- Nothing called yet. -/
def new (start : ℚ) : WindowWorld Subject Reservation where
  hits := Record.empty
  now := start
  log _ := []
  removed _ := []
  named _ := []
  evictions _ := []

/-- The list of a subject. -/
def list (w : WindowWorld Subject Reservation) (s : Subject) : List (Hit Reservation) :=
  (w.hits.get s).getD []

/-- The hits of a subject that were allowed and not refunded. -/
def standing (w : WindowWorld Subject Reservation) (s : Subject) : Multiset (Hit Reservation) :=
  (w.log s : Multiset (Hit Reservation)) - (w.removed s : Multiset (Hit Reservation))

/-- The limiter is asked, and its answer is noted. -/
def allow (l : SlidingWindowLimiter) (w : WindowWorld Subject Reservation) (s : Subject)
    (reservation : Option Reservation) (t : ℚ) : WindowWorld Subject Reservation :=
  let answer := l.allow w.hits s reservation t
  { w with
    hits := answer.2
    now := t
    log := fun k => if k = s ∧ answer.1 then w.log k ++ [⟨t, reservation⟩] else w.log k
    named := fun k => if k = s then w.named k ++ reservation.toList else w.named k
    evictions := fun k =>
      if (w.hits.get k).isSome ∧ answer.2.get k = none then w.evictions k ++ [t]
      else w.evictions k }

/-- A hit is handed back, and noted. -/
def refund (w : WindowWorld Subject Reservation) (s : Subject)
    (reservation : Option Reservation) : WindowWorld Subject Reservation :=
  { w with
    hits := SlidingWindowLimiter.refund w.hits s reservation
    removed := fun k =>
      if k = s then w.removed k ++ (SlidingWindowLimiter.taken (w.list k) reservation).toList
      else w.removed k }

end WindowWorld

/-- Any calls in any order, at readings that never go back. -/
def window {Reservation : Type*} [DecidableEq Reservation] (l : SlidingWindowLimiter) :
    Machine (WindowWorld Subject Reservation) (WindowAct Subject Reservation) where
  step
    | .allow s reservation t, w => if w.now ≤ t then some (w.allow l s reservation t) else none
    | .refund s reservation, w => some (w.refund s reservation)

end OpenWA.Events

/-
Every event keeps the accounting, and with declared bodies the counters
stay within their bounds.

# The bounds

Admission checks the bounds on what it is about to charge, a declared
body is never repriced, and a release only lowers what is held. So as
long as every body declares its length, what held at admission holds.
-/
import OpenWA.Budget.Proofs.Accounting

namespace OpenWA.Budget

open Function (update update_self update_of_ne)

variable {cfg : Config} {w v : World} {i : Nat} {h h' : Held}
  {p : Held → Bool}

/-- The requests of one tier charged to a client key. -/
def ofTier (k : Text) (anonymous : Bool) (h : Held) : Bool :=
  h.clientKey = k && h.anonymous == anonymous

/-- Every request has declared its length. -/
def AllDeclared (w : World) : Prop := ∀ i h, w.requests i = some h → h.declared.isSome = true

/-- No counter is over its bound. -/
structure Within (cfg : Config) (w : World) : Prop where
  budget : w.counters.inFlightBytes ≤ cfg.budgetBytes
  share : ∀ k anonymous, w.total (ofTier k anonymous) ≤ cfg.shareCap anonymous
  pool : w.counters.anonInFlight ≤ cfg.anonPool

/-- The accounting is exact and, with declared bodies, within bounds. -/
structure Exact (cfg : Config) (w : World) : Prop where
  inv : Inv w
  within : AllDeclared w → Within cfg w

theorem exact_init : Exact cfg .init where
  inv := inv_init
  within := fun _ =>
    { budget := Int.natCast_nonneg _
      share := fun _ _ => Int.natCast_nonneg _
      pool := Int.natCast_nonneg _ }

-- ======== admission

/-- What a tracked request was checked for. -/
theorem middleware_tracked {c : Counters} {req : Request} {now : Int}
    (hm : middleware cfg c req now = .tracked h) :
    h.released = false
      ∧ c.inFlightBytes + h.reserved ≤ cfg.budgetBytes
      ∧ c.client h.clientKey + h.reserved ≤ cfg.shareCap h.anonymous
      ∧ (h.anonymous = true → c.anonInFlight + h.reserved ≤ cfg.anonPool) := by
  unfold middleware at hm
  dsimp only at hm
  repeat' split at hm
  all_goals cases hm
  next hbusy =>
    have hle := capped_le (cfg.ceiling (cfg.classify && (keyId cfg req).isNone)) (opening cfg req)
    simp only [busyNow, Bool.or_eq_true, Bool.and_eq_true, decide_eq_true_eq, not_or, not_and,
      gt_iff_lt, Int.not_lt] at hbusy
    refine ⟨rfl, ?_, hbusy.1.1.2, ?_⟩
    · have hfit := hbusy.1.1.1
      dsimp only
      omega
    · intro hanon
      have hanon : cfg.classify = true ∧ (keyId cfg req).isNone = true := by simpa using hanon
      exact hbusy.1.2 hanon

theorem total_mono {q : Held → Bool} (hpq : ∀ h, p h = true → q h = true) :
    w.total p ≤ w.total q := by
  apply tally_le
  intro j _
  unfold World.holds
  cases w.requests j with
  | none => exact le_refl _
  | some h =>
    change h.weight p ≤ h.weight q
    unfold Held.weight
    by_cases hp : p h = true
    · rw [hp, hpq h hp]
    · simp only [hp, Bool.and_false, Bool.false_eq_true, if_false]
      exact weight_nonneg

theorem Exact.track (he : Exact cfg w) (hopen : h.released = false)
    (hbudget : w.counters.inFlightBytes + h.reserved ≤ cfg.budgetBytes)
    (hshare : w.counters.client h.clientKey + h.reserved ≤ cfg.shareCap h.anonymous)
    (hpool : h.anonymous = true →
      w.counters.anonInFlight + h.reserved ≤ cfg.anonPool) : Exact cfg (w.track h) where
  inv := he.inv.track hopen
  within := by
    intro hall
    have hbefore : AllDeclared w := by
      intro j h' hj
      have hne : j ≠ w.next := by
        rintro rfl
        rw [he.inv.fresh _ (le_refl _)] at hj
        cases hj
      exact hall j h' ((update_of_ne hne _ _).trans hj)
    have hwithin := he.within hbefore
    refine { budget := hbudget, share := ?_, pool := ?_ }
    · intro k anonymous
      rw [total_track rfl rfl, weight_of_open hopen]
      have hold := hwithin.share k anonymous
      by_cases htier : ofTier k anonymous h = true
      · rw [if_pos htier]
        simp only [ofTier, Bool.and_eq_true, decide_eq_true_eq, beq_iff_eq] at htier
        have hpart : w.total (ofTier k anonymous) ≤ w.total (ofClient k) := by
          apply total_mono
          intro h' hp
          simp only [ofTier, Bool.and_eq_true] at hp
          exact hp.1
        rw [← he.inv.client, ← htier.1] at hpart
        rw [← htier.2] at hpart ⊢
        rw [← htier.1]
        omega
      · rw [if_neg htier]
        omega
    · change (if h.anonymous = true then _ else _) ≤ _
      split
      · next hanon => exact hpool hanon
      · exact hwithin.pool

-- ======== releases

/-- A property of the client and the tier alone. -/
def Tiered (p : Held → Bool) : Prop :=
  ∀ g g' : Held, g.clientKey = g'.clientKey → g.anonymous = g'.anonymous → p g = p g'

theorem tiered_ofTier (k : Text) (anonymous : Bool) : Tiered (ofTier k anonymous) := by
  intro g g' hkey hanon
  unfold ofTier
  rw [hkey, hanon]

/-- A step that leaves every reservation as it is or lowers it. -/
theorem Exact.lower (he : Exact cfg w) (hv : Inv v) (hdeclared : AllDeclared v → AllDeclared w)
    (hle : ∀ p, Tiered p → v.total p ≤ w.total p) : Exact cfg v where
  inv := hv
  within := by
    intro hall
    have hwithin := he.within (hdeclared hall)
    have htotal := hle (fun _ => true) fun _ _ _ _ => rfl
    have hanon := hle (fun h => h.anonymous) fun _ _ _ h => h
    refine { budget := ?_, share := ?_, pool := ?_ }
    · rw [hv.inFlight]
      rw [← he.inv.inFlight] at htotal
      exact htotal.trans hwithin.budget
    · intro k anonymous
      exact (hle _ (tiered_ofTier k anonymous)).trans (hwithin.share k anonymous)
    · rw [hv.anon]
      rw [← he.inv.anon] at hanon
      exact hanon.trans hwithin.pool

theorem allDeclared_of_update (hi : w.requests i = some h)
    (hreq : v.requests = update w.requests i (some h'))
    (hd : h'.declared = h.declared) (hall : AllDeclared v) :
    AllDeclared w := by
  intro j h'' hj
  by_cases hji : j = i
  · subst hji
    rw [hi] at hj
    obtain rfl := Option.some.inj hj
    rw [← hd]
    exact hall j h' (by rw [hreq, update_self])
  · exact hall j h'' (by rw [hreq, update_of_ne hji]; exact hj)

section

variable (he : Exact cfg w) (hi : w.requests i = some h)
include he hi

theorem Exact.finish {dropped : Nat → Option DropReason} :
    Exact cfg { w.release i h with
      dropped := dropped, ended := update w.ended i true } := by
  refine he.lower (he.inv.finish hi) ?_ ?_
  · unfold World.release
    split
    · exact fun hall => hall
    · exact allDeclared_of_update hi rfl rfl
  · intro p _
    by_cases hr : h.released = true
    · rw [World.release, if_pos hr]
      exact le_refl _
    · have hreq : (w.release i h).requests = update w.requests i
          (some { h with released := true, armed := false }) := by
        rw [World.release, if_neg hr]
      have hnext : (w.release i h).next = w.next := by
        rw [World.release, if_neg hr]
      have htotal : (w.release i h).total p = _ := total_change _ (he.inv.lt_next hi) hi hnext hreq
      rw [weight_of_released rfl] at htotal
      have hnonneg : 0 ≤ h.weight p := weight_nonneg
      change (w.release i h).total p ≤ _
      omega

theorem Exact.drop (reason : DropReason) : Exact cfg (w.drop i h reason) := he.finish hi

theorem Exact.setHeld (hanon : h'.anonymous = h.anonymous) (hkey : h'.clientKey = h.clientKey)
    (hres : h'.reserved = h.reserved) (hrel : h'.released = h.released)
    (hdec : h'.declared = h.declared) : Exact cfg (w.setHeld i h') := by
  refine he.lower (he.inv.setHeld hi hanon hkey hres hrel) (allDeclared_of_update hi rfl hdec) ?_
  intro p hp
  rw [total_change (v := w.setHeld i h') h' (he.inv.lt_next hi) hi rfl rfl]
  unfold Held.weight
  rw [hp h' h hkey hanon, hres, hrel]
  omega

-- ======== repricing

/-- A body that is repriced declared no length. -/
theorem Exact.reprice (hopen : h.released = false) (hchunked : h.declared = none)
    (actual : Nat) : Exact cfg (w.reprice i h actual) where
  inv := he.inv.reprice hi hopen actual
  within := by
    intro hall
    have hdeclared := hall i { h with reserved := actual } (update_self _ _ _)
    rw [show ({ h with reserved := actual } : Held).declared = none from hchunked] at hdeclared
    cases hdeclared

theorem Exact.reconcile (complete : Bool) (received : Nat) :
    Exact cfg (w.reconcile cfg i h complete received) := by
  unfold World.reconcile
  split
  next => exact he
  next hcond =>
    simp only [Bool.or_eq_true, not_or, Bool.not_eq_true] at hcond
    have hchunked : h.declared = none := by simpa using hcond.2
    dsimp only
    split
    next => exact he
    next =>
      have hre := he.reprice hi hcond.1 hchunked
        (capped (cfg.ceiling h.anonymous) (max cfg.undeclaredReservation received))
      split
      next =>
        split
        next => exact hre.drop (update_self _ _ _) _
        next => exact hre
      next => exact hre

end

section

variable (he : Exact cfg w)
include he

theorem Exact.disarm : Exact cfg (w.disarm i) := by
  unfold World.disarm
  split
  next h hi => exact he.setHeld hi rfl rfl rfl rfl rfl
  next => exact he

theorem Exact.settle (hi : w.requests i = some h)
    (received : Nat) : Exact cfg (w.settle cfg i h received) :=
  (he.reconcile hi true received).disarm

theorem Exact.pace (hi : w.requests i = some h)
    (received : Nat) (now : Int) : Exact cfg (w.pace cfg i h received now) := by
  unfold World.pace
  split
  next => exact he.drop hi .pace
  next =>
    split
    next => exact he.setHeld hi rfl rfl rfl rfl rfl
    next =>
      split
      next => exact he.drop hi .stall
      next => exact he

-- ======== the events

theorem Exact.arrive (req : Request) (now : Int) : Exact cfg (w.arrive cfg req now) := by
  unfold World.arrive
  split
  next h hm =>
    obtain ⟨hopen, hbudget, hshare, hpool⟩ := middleware_tracked hm
    exact he.track hopen hbudget hshare hpool
  next => exact he

/-- Every step keeps the counters exact. -/
theorem Exact.step {a : Act} : Leads (Exact cfg) ((system cfg).step a w) := by
  cases a with
  | arrive req now => exact he.arrive req now
  | terminal i event =>
    simp only [system, World.step, World.terminal]
    split
    next => trivial
    next h hi => exact he.finish hi
  | poll i complete received now =>
    simp only [system, World.step, World.poll]
    split
    next => trivial
    next h hi =>
      have hre := he.reconcile hi false received
      repeat' split
      · trivial
      · exact he.settle hi received
      · exact hre
      · exact hre
      next hi' _ => exact hre.pace hi' received now
  | bodyEnd i received =>
    simp only [system, World.step, World.bodyEnd]
    split
    next => trivial
    next h hi => exact he.settle hi received

end

theorem exact_of_reach (hr : (system cfg).Reach .init w) : Exact cfg w :=
  hr.leads exact_init fun _ _ he => he.step

/-- The accounting of the in-flight budget is exact. In every reachable
state, for any number of requests and any order of arrivals, polls, ends
of bodies and terminal events:

1. the aggregate, the anonymous pool's counter and each client's counter
   are the sums of the reservations of the requests in flight they cover;
2. a request has released at most once, and exactly once from the first
   terminal event or drop on;
3. when no request is in flight, the counters are zero and the client map
   is empty;
4. when all bodies declare their length, the aggregate is within the
   budget, the requests of each client within the client's share, and the
   anonymous requests within their pool. -/
theorem inflight_budget_exact (hr : (system cfg).Reach .init w) :
    (w.counters.inFlightBytes = w.total (fun _ => true)
      ∧ w.counters.anonInFlight = w.total (fun h => h.anonymous)
      ∧ ∀ k, w.counters.client k = w.total (ofClient k))
    ∧ (∀ i h, w.requests i = some h → w.releases i ≤ 1
      ∧ (w.releases i = 1 ↔ h.released = true)
      ∧ (w.ended i = true → w.releases i = 1))
    ∧ ((∀ i h, w.requests i = some h → h.released = true) →
      w.counters.inFlightBytes = 0 ∧ w.counters.anonInFlight = 0
      ∧ w.counters.clientInFlight.size = 0)
    ∧ (AllDeclared w →
      w.counters.inFlightBytes ≤ cfg.budgetBytes
      ∧ (∀ k anonymous, w.total (ofTier k anonymous) ≤ cfg.shareCap anonymous)
      ∧ (∀ k anonymous, (∀ i h, w.requests i = some h → h.released = false →
          h.clientKey = k → h.anonymous = anonymous) →
        w.counters.client k ≤ cfg.shareCap anonymous)
      ∧ w.counters.anonInFlight ≤ cfg.anonPool) := by
  have he := exact_of_reach hr
  have hv := he.inv
  refine ⟨⟨hv.inFlight, hv.anon, hv.client⟩, ?_, ?_, ?_⟩
  · intro i h hi
    obtain ⟨honce, hended⟩ := hv.booked_of_some hi
    cases hrel : h.released with
    | true =>
      rw [hrel, if_pos rfl] at honce
      simp [honce]
    | false =>
      rw [hrel, if_neg (by decide)] at honce
      rw [hrel] at hended
      simp only [honce]
      refine ⟨by omega, by simp, ?_⟩
      intro hend
      cases hended hend
  · intro hnone
    have htotal : ∀ p, w.total p = 0 := by
      intro p
      apply tally_zero
      intro j _
      unfold World.holds
      cases hj : w.requests j with
      | none => rfl
      | some h => exact weight_of_released (hnone j h hj)
    refine ⟨hv.inFlight.trans (htotal _), hv.anon.trans (htotal _), ?_⟩
    apply Record.size_eq_zero
    intro k
    by_contra hsome
    obtain ⟨n, hn⟩ := Option.ne_none_iff_exists'.1 hsome
    obtain ⟨i, h, hi, hrel, -⟩ := hv.mapped k n hn
    rw [hnone i h hi] at hrel
    cases hrel
  · intro hall
    have hwithin := he.within hall
    refine ⟨hwithin.budget, hwithin.share, ?_, hwithin.pool⟩
    intro k anonymous hsame
    have hle : w.total (ofClient k) ≤ w.total (ofTier k anonymous) := by
      apply tally_le
      intro j _
      unfold World.holds
      cases hj : w.requests j with
      | none => exact le_refl _
      | some h =>
        change h.weight _ ≤ h.weight _
        have hsame := hsame j h hj
        unfold Held.weight ofClient ofTier
        cases hrel : h.released with
        | true => simp
        | false =>
          by_cases hk : h.clientKey = k
          · simp [hk, hsame hrel hk]
          · simp [hk]
    rw [hv.client]
    exact hle.trans (hwithin.share k anonymous)

/-- A budget of a hundred bytes. -/
def smallBudget : Config where
  budgetBytes := 100
  perClientShare := none
  bodyLimitBytes := some 20
  requestTimeoutMs := none
  classify := true
  number := fun text => if text = "40".toList then .safeInteger 40 else .nan
  limiterKeyForIp := id

/-- A chunked request without a key. -/
def chunkedUnkeyed : Request where
  contentLength := none
  transferEncoding := some "chunked".toList
  contentEncoding := none
  clientIp := "10.0.0.1".toList
  classified := none
  headersSent := false

/-- A request with a key that declares 40 bytes. -/
def declaredKeyed : Request where
  contentLength := some "40".toList
  transferEncoding := none
  contentEncoding := none
  clientIp := "10.0.0.2".toList
  classified := some "a".toList
  headersSent := false

/-- Two requests are admitted; the first ends twice. -/
theorem inflight_budget_exact_twice_ended :
    ∃ w, (system smallBudget).Reach .init w ∧ w.total (fun _ => true) = 40 ∧ w.releases 0 = 1 := by
  obtain ⟨w, hr, hw⟩ := Machine.exists_reach_of_run (M := system smallBudget) .init
    [.arrive chunkedUnkeyed 0, .arrive declaredKeyed 0,
      .poll 0 false 5 5000, .terminal 0 .resFinish, .terminal 0 .reqClose]
    (fun w => w.counters.inFlightBytes = 40 && w.ended 0
      && (w.requests 0).isSome) (by decide +kernel)
  simp only [Bool.and_eq_true, decide_eq_true_eq, Option.isSome_iff_exists] at hw
  obtain ⟨⟨hbytes, hended⟩, h, hi⟩ := hw
  obtain ⟨⟨htotal, -⟩, honce, -⟩ := inflight_budget_exact hr
  exact ⟨w, hr, htotal.symm.trans hbytes, (honce 0 h hi).2.2 hended⟩

end OpenWA.Budget

/-
The counters of the budget are the sums of the reservations they cover.

# The invariant

`total w p` sums the reservations of the requests in flight that have the
property `p`. Each counter is such a total. Only three things change a
reservation — an admission, a repricing and a release — and each changes
the counters by what it changes the reservation (`Inv.change`,
`Inv.track`), so the equations are kept.
-/
import OpenWA.Lib.Tally
import OpenWA.Budget.World

namespace OpenWA.Budget

open Record

open Function (update update_self update_of_ne)

variable {cfg : Config} {w v : World} {i : Nat} {h h' : Held}
  {p : Held → Bool}

-- ======== vocabulary

/-- What a request in flight with the property `p` holds. -/
def Held.weight (p : Held → Bool) (h : Held) : Int :=
  if !h.released && p h then h.reserved else 0

/-- What request `i` weighs, if it counts. -/
def World.holds (w : World) (p : Held → Bool) (i : Nat) : Int :=
  ((w.requests i).map (Held.weight p)).getD 0

/-- The reservations of the requests in flight with the property `p`. -/
def World.total (w : World) (p : Held → Bool) : Int := tally w.next (w.holds p)

/-- The requests charged to a client key. -/
def ofClient (k : Text) (h : Held) : Bool := h.clientKey = k

/-- A request that is known has released once it is over, one that is not never. -/
def Booked (releases : Nat) (ended : Bool) : Option Held → Prop
  | none => releases = 0 ∧ ended = false
  | some h => releases = (if h.released then 1 else 0) ∧ (ended = true → h.released = true)

/-- The counters are the sums over the requests held. -/
structure Inv (w : World) : Prop where
  fresh : ∀ i, w.next ≤ i → w.requests i = none
  inFlight : w.counters.inFlightBytes = w.total fun _ => true
  anon : w.counters.anonInFlight = w.total fun h => h.anonymous
  client : ∀ k, w.counters.client k = w.total (ofClient k)
  /-- The map has no entry without a request in flight. -/
  mapped : ∀ k n, w.counters.clientInFlight.get k = some n →
    ∃ i h, w.requests i = some h ∧ h.released = false ∧ h.clientKey = k
  booked : ∀ i, Booked (w.releases i) (w.ended i) (w.requests i)

theorem inv_init : Inv .init where
  fresh := fun _ _ => rfl
  inFlight := rfl
  anon := rfl
  client := fun _ => rfl
  mapped := by
    intro k n hk
    cases hk
  booked := fun _ => ⟨rfl, rfl⟩

-- ======== totals

theorem Inv.lt_next (hv : Inv w) (hi : w.requests i = some h) : i < w.next := by
  by_contra hge
  rw [hv.fresh i (by omega)] at hi
  cases hi

theorem holds_of_some (hi : w.requests i = some h) : w.holds p i = h.weight p := by
  unfold World.holds
  rw [hi]
  rfl

/-- One request changes its reservation. -/
theorem total_change (h' : Held) (hlt : i < w.next)
    (hi : w.requests i = some h) (hnext : v.next = w.next)
    (hreq : v.requests = update w.requests i (some h')) :
    v.total p = w.total p + (h'.weight p - h.weight p) := by
  unfold World.total
  rw [hnext, tally_change hlt (f := w.holds p), holds_of_some hi,
    holds_of_some (h := h') (by rw [hreq, update_self])]
  intro j hj
  unfold World.holds
  rw [hreq, update_of_ne hj]

/-- A request appears. -/
theorem total_track (hnext : v.next = w.next + 1)
    (hreq : v.requests = update w.requests w.next (some h)) :
    v.total p = w.total p + h.weight p := by
  unfold World.total
  rw [hnext, tally_succ (f := w.holds p), holds_of_some (h := h) (by rw [hreq, update_self])]
  intro j hj
  unfold World.holds
  rw [hreq, update_of_ne (by omega)]

-- ======== the changes

variable {k : Text} {d n : Int}

theorem client_add {c : Counters} {delta : Int} {clients : Record Text Int} :
    (c.add h delta clients).client k = (clients.get k).getD 0 := rfl

theorem weight_of_released (hr : h.released = true) : h.weight p = 0 := by
  simp [Held.weight, hr]

theorem weight_of_open (hr : h.released = false) :
    h.weight p = if p h then (h.reserved : Int) else 0 := by
  simp [Held.weight, hr]

/-- A property that both have sees the whole change, any other nothing. -/
theorem weight_change (hopen : h.released = false) (hp : p h' = p h)
    (hd : h'.weight (fun _ => true) = h.reserved + d) :
    h'.weight p - h.weight p = if p h then d else 0 := by
  rw [weight_of_open hopen]
  by_cases hr : h'.released = true
  · rw [weight_of_released hr] at hd
    rw [weight_of_released hr]
    split <;> omega
  · rw [weight_of_open (by simpa using hr)] at hd ⊢
    rw [hp]
    simp only [if_true] at hd
    split <;> omega

/-- An entry of the map is this request's, or another one in flight has it. -/
theorem Inv.mapped_cases (hv : Inv w) (hi : w.requests i = some h)
    (hk : w.counters.clientInFlight.get k = some n) :
    (k = h.clientKey ∧ h.released = false)
      ∨ ∃ j, j ≠ i ∧ ∃ h'', w.requests j = some h'' ∧ h''.released = false ∧ h''.clientKey = k := by
  obtain ⟨j, h'', hj, hr, rfl⟩ := hv.mapped k n hk
  by_cases hji : j = i
  · subst hji
    cases hi.symm.trans hj
    exact .inl ⟨rfl, hr⟩
  · exact .inr ⟨j, hji, h'', hj, hr, rfl⟩

theorem Inv.booked_of_some (hv : Inv w) (hi : w.requests i = some h) :
    w.releases i = (if h.released then 1 else 0) ∧ (w.ended i = true → h.released = true) := by
  have hbooked := hv.booked i
  rwa [hi] at hbooked

theorem Inv.releases_eq (hv : Inv w) (hi : w.requests i = some h) :
    w.releases = update w.releases i (if h.released then 1 else 0) := by
  rw [← (hv.booked_of_some hi).1, Function.update_eq_self]

/-- The counters follow one request from `h` to `h'`. -/
theorem Inv.change (hv : Inv w) (h' : Held) (hi : w.requests i = some h)
    (hanon : h'.anonymous = h.anonymous) (hkey : h'.clientKey = h.clientKey)
    (hd : ∀ p : Held → Bool, p h' = p h → h'.weight p - h.weight p = if p h then d else 0)
    (clients : Record Text Int) (hclients : ∀ k, (clients.get k).getD 0
      = w.counters.client k + if h.clientKey = k then d else 0)
    (hmapped : ∀ k n, clients.get k = some n → (k = h.clientKey ∧ h'.released = false)
      ∨ ∃ j, j ≠ i ∧ ∃ h'', w.requests j = some h'' ∧ h''.released = false ∧ h''.clientKey = k)
    (hcounters : v.counters = w.counters.add h d clients) (hnext : v.next = w.next)
    (hreq : v.requests = update w.requests i (some h')) (hreleases : v.releases
      = update w.releases i (if h'.released then 1 else 0))
    {e : Bool} (hended : v.ended = update w.ended i e)
    (he : e = true → h'.released = true) : Inv v := by
  have hlt := hv.lt_next hi
  have htotal : ∀ p : Held → Bool, p h' = p h → v.total p = w.total p + if p h then d else 0 := by
    intro p hp
    rw [total_change h' hlt hi hnext hreq, hd p hp]
  have hother : ∀ {j}, j ≠ i → v.requests j = w.requests j := by
    intro j hj
    rw [hreq, update_of_ne hj]
  have hself : v.requests i = some h' := by
    rw [hreq, update_self]
  constructor
  · intro j hj
    rw [hnext] at hj
    rw [hother (by omega)]
    exact hv.fresh j hj
  · rw [hcounters, htotal (fun _ => true) rfl, ← hv.inFlight]
    rfl
  · rw [hcounters, htotal (fun h => h.anonymous) hanon, ← hv.anon]
    unfold Counters.add
    split
    · rfl
    · rw [Int.add_zero]
  · intro k
    have hp : ofClient k h' = ofClient k h := by
      unfold ofClient
      rw [hkey]
    rw [hcounters, htotal (ofClient k) hp, ← hv.client, client_add, hclients]
    simp only [ofClient, decide_eq_true_eq]
  · intro k n hk
    rw [hcounters] at hk
    rcases hmapped k n hk with ⟨rfl, hr⟩ | ⟨j, hj, h'', hreq', hr, hk'⟩
    · exact ⟨i, h', hself, hr, hkey⟩
    · exact ⟨j, h'', (hother hj).trans hreq', hr, hk'⟩
  · intro j
    rw [hreleases, hended]
    by_cases hji : j = i
    · subst hji
      rw [hself, update_self, update_self]
      exact ⟨rfl, he⟩
    · rw [hother hji, update_of_ne hji, update_of_ne hji]
      exact hv.booked j

/-- A request is admitted. -/
theorem Inv.track (hv : Inv w) (hopen : h.released = false) : Inv (w.track h) := by
  have hnone := hv.fresh w.next (le_refl _)
  have hother : ∀ {j}, j ≠ w.next → (w.track h).requests j = w.requests j :=
    fun hj => update_of_ne hj _ _
  have hself : (w.track h).requests w.next = some h := update_self _ _ _
  have htotal : ∀ p : Held → Bool, (w.track h).total p
      = w.total p + if p h then (h.reserved : Int) else 0 := by
    intro p
    rw [total_track rfl rfl, weight_of_open hopen]
  constructor
  · intro j hj
    have hj : w.next + 1 ≤ j := hj
    rw [hother (by omega)]
    exact hv.fresh j (by omega)
  · rw [htotal, ← hv.inFlight]
    rfl
  · rw [htotal, ← hv.anon]
    change (if h.anonymous = true then _ else _) = _
    split
    · rfl
    · rw [Int.add_zero]
  · intro k
    rw [htotal, ← hv.client]
    change ((w.counters.clientInFlight.set h.clientKey _).get k).getD 0 = _
    by_cases hk : k = h.clientKey
    · subst hk
      simp [ofClient]
    · rw [get_set_of_ne _ _ hk]
      simp [ofClient, Ne.symm hk, Counters.client]
  · intro k n hk
    change (w.counters.clientInFlight.set h.clientKey _).get k = some n at hk
    by_cases hkk : k = h.clientKey
    · exact ⟨w.next, h, hself, hopen, hkk.symm⟩
    · rw [get_set_of_ne _ _ hkk] at hk
      obtain ⟨j, h'', hj, hr, hk'⟩ := hv.mapped k n hk
      have hji : j ≠ w.next := by
        rintro rfl
        rw [hnone] at hj
        cases hj
      exact ⟨j, h'', (hother hji).trans hj, hr, hk'⟩
  · intro j
    have hbooked := hv.booked j
    by_cases hji : j = w.next
    · subst hji
      rw [hnone] at hbooked
      rw [hself, Booked, hopen]
      exact ⟨hbooked.1, fun he => absurd (hbooked.2.symm.trans he) (by decide)⟩
    · rw [hother hji]
      exact hbooked

-- ======== releases

theorem weight_nonneg : 0 ≤ h.weight p := by
  unfold Held.weight
  split
  · exact Int.natCast_nonneg _
  · exact le_refl _

theorem holds_nonneg : 0 ≤ w.holds p i := by
  unfold World.holds
  cases w.requests i with
  | none => exact le_refl _
  | some h => exact weight_nonneg

section

variable (hv : Inv w) (hi : w.requests i = some h)
include hv hi

section

variable (hopen : h.released = false)
include hopen

/-- A reservation is part of its client's total. -/
theorem Inv.reserved_le_client : (h.reserved : Int) ≤ w.counters.client h.clientKey := by
  have hle := le_tally (f := w.holds (ofClient h.clientKey)) (hv.lt_next hi) fun j => holds_nonneg
  rw [holds_of_some hi, weight_of_open hopen] at hle
  rw [hv.client, World.total]
  simpa [ofClient] using hle

/-- What a client holds beyond one request is held by another. -/
theorem Inv.exists_other
    (hmore : (h.reserved : Int) < w.counters.client h.clientKey) :
    ∃ j, j ≠ i ∧ ∃ h', w.requests j = some h' ∧ h'.released = false
      ∧ h'.clientKey = h.clientKey := by
  have hrest := tally_change (f := w.holds (ofClient h.clientKey))
    (g := update (w.holds (ofClient h.clientKey)) i 0) (hv.lt_next hi)
    fun j hj => update_of_ne hj _ _
  rw [update_self, holds_of_some hi, weight_of_open hopen] at hrest
  have hclient := hv.client h.clientKey
  unfold World.total at hclient
  have hpos : 0 < tally w.next (update (w.holds (ofClient h.clientKey)) i 0) := by
    omega
  obtain ⟨j, -, hj⟩ := exists_of_tally_pos hpos
  have hji : j ≠ i := by
    rintro rfl
    rw [update_self] at hj
    omega
  rw [update_of_ne hji] at hj
  refine ⟨j, hji, ?_⟩
  cases hreq : w.requests j with
  | none =>
    simp [World.holds, hreq] at hj
  | some h' =>
    rw [holds_of_some hreq] at hj
    refine ⟨h', rfl, ?_, ?_⟩
    · by_contra hr
      rw [weight_of_released (by simpa using hr)] at hj
      omega
    · by_contra hk
      simp [Held.weight, ofClient, hk] at hj

/-- The client's entry after the release. -/
theorem Inv.client_released (k : Text) :
    ((World.releasedClients w.counters h).get k).getD 0
      = w.counters.client k + if h.clientKey = k then -(h.reserved : Int) else 0 := by
  have hle := hv.reserved_le_client hi hopen
  unfold World.releasedClients
  by_cases hk : h.clientKey = k
  · subst hk
    rw [if_pos rfl]
    unfold Counters.client at hle ⊢
    cases hget : w.counters.clientInFlight.get h.clientKey with
    | none =>
      rw [hget] at hle
      simp only [Option.getD_none] at hle ⊢
      rw [if_neg (by omega), get_delete_self]
      simp only [Option.getD_none]
      omega
    | some n =>
      rw [hget] at hle
      simp only [Option.getD_some] at hle ⊢
      by_cases hpos : n - h.reserved > 0
      · rw [if_pos hpos, get_set_self]
        simp only [Option.getD_some]
        omega
      · rw [if_neg hpos, get_delete_self]
        simp only [Option.getD_none]
        omega
  · rw [if_neg hk, Int.add_zero]
    unfold Counters.client
    dsimp only
    split
    · rw [get_set_of_ne _ _ (Ne.symm hk)]
    · rw [get_delete_of_ne _ (Ne.symm hk)]

/-- The entries that are left have a request in flight. -/
theorem Inv.mapped_released
    (hk : (World.releasedClients w.counters h).get k = some n) :
    ∃ j, j ≠ i ∧ ∃ h', w.requests j = some h' ∧ h'.released = false ∧ h'.clientKey = k := by
  unfold World.releasedClients at hk
  dsimp only at hk
  by_cases hkk : k = h.clientKey
  · subst hkk
    split at hk
    next hpos =>
      refine hv.exists_other hi hopen ?_
      unfold Counters.client
      cases hget : w.counters.clientInFlight.get h.clientKey with
      | none =>
        rw [hget] at hpos
        simp at hpos
      | some m =>
        rw [hget] at hpos
        simp only [Option.getD_some] at hpos ⊢
        omega
    next =>
      rw [get_delete_self] at hk
      cases hk
  · split at hk
    · rw [get_set_of_ne _ _ hkk] at hk
      exact (hv.mapped_cases hi hk).resolve_left fun hc => hkk hc.1
    · rw [get_delete_of_ne _ hkk] at hk
      exact (hv.mapped_cases hi hk).resolve_left fun hc => hkk hc.1

end

/-- `release`, with what the caller notes. -/
theorem Inv.finish {dropped : Nat → Option DropReason} :
    Inv { w.release i h with
      dropped := dropped, ended := update w.ended i true } := by
  unfold World.release
  by_cases hr : h.released = true
  · rw [if_pos hr]
    refine { hv with booked := fun j => ?_ }
    dsimp only
    by_cases hji : j = i
    · subst hji
      rw [hi]
      exact ⟨(hv.booked_of_some hi).1, fun _ => hr⟩
    · rw [update_of_ne hji]
      exact hv.booked j
  · rw [if_neg hr]
    have hopen : h.released = false := by simpa using hr
    refine hv.change { h with released := true, armed := false } hi
      rfl rfl (d := -h.reserved) ?_ _ (hv.client_released hi hopen) ?_ rfl rfl rfl ?_ rfl
      fun _ => rfl
    · refine fun p hp => weight_change hopen hp ?_
      rw [weight_of_released rfl]
      omega
    · intro k n hk
      exact .inr (hv.mapped_released hi hopen hk)
    · have hzero : w.releases i = 0 := by
        rw [(hv.booked_of_some hi).1, hopen]
        rfl
      rw [hzero]
      rfl

/-- A chunked body in flight is priced anew. -/
theorem Inv.reprice (hopen : h.released = false) (actual : Nat) : Inv (w.reprice i h actual) := by
  have hreleases := hv.releases_eq hi
  refine hv.change { h with reserved := actual }
    (d := (actual : Int) - h.reserved) hi rfl rfl ?_ _ ?_ ?_ rfl rfl rfl
    hreleases (Function.update_eq_self _ _).symm (hv.booked_of_some hi).2
  · exact fun p hp => weight_change hopen hp (by simp [Held.weight, hopen])
  · intro k
    by_cases hk : h.clientKey = k
    · subst hk
      rw [get_set_self, if_pos rfl]
      rfl
    · rw [get_set_of_ne _ _ (Ne.symm hk), if_neg hk, Int.add_zero]
      rfl
  · intro k n hk
    by_cases hkk : k = h.clientKey
    · exact .inl ⟨hkk, hopen⟩
    · rw [get_set_of_ne _ _ hkk] at hk
      exact hv.mapped_cases hi hk

/-- What the timer keeps of a request is no part of the accounting. -/
theorem Inv.setHeld (hanon : h'.anonymous = h.anonymous) (hkey : h'.clientKey = h.clientKey)
    (hres : h'.reserved = h.reserved) (hrel : h'.released = h.released) : Inv (w.setHeld i h') := by
  refine hv.change h' hi hanon hkey (d := 0) ?_ w.counters.clientInFlight ?_ ?_ ?_ rfl rfl ?_
    (Function.update_eq_self _ _).symm fun he => hrel.trans ((hv.booked_of_some hi).2 he)
  · intro p hp
    unfold Held.weight
    rw [hp, hres, hrel, sub_self, ite_self]
  · intro k
    rw [ite_self, add_zero]
    rfl
  · intro k n hk
    exact (hv.mapped_cases hi hk).imp_left fun hc => ⟨hc.1, hrel.trans hc.2⟩
  · simp [World.setHeld, Counters.add]
  · rw [hrel]
    exact hv.releases_eq hi

end

end OpenWA.Budget

/-
`Idempotency-Key` gives at-most-once sends, over every run.

# The three parts

- Two handler executions of one key never overlap in what they may have
  sent: at the later one's claim the earlier was over — released after an
  error that proves nothing was sent, or past its window.
- A replayed answer is the body that a handler returned, for a request
  with the same hash.
- While a row lives, nobody else is given its key. What else ran under
  the key had claimed before, and was over before the row was inserted; a
  request with another hash is told of the mismatch.
-/
import OpenWA.Idempotency.Proofs.Steps

namespace OpenWA.Idempotency

variable {β : Type} {w : World β}

/-- The request was made for the session with the key. -/
structure Keyed (q : Request β) (sessionId key : Text) : Prop where
  sessionId : q.sessionId = sessionId
  header : q.header = .one key

variable {sessionId key : Text}

theorem Keyed.pair {q : Request β} (h : Keyed q sessionId key) : q.pair = (sessionId, key) := by
  rw [Request.pair, h.sessionId, h.header]
  rfl

/-- A request with a claim and the same pair was made for the key. -/
theorem Inv.keyed (hi : Inv w) {i : Nat} {c : Claim} (hc : (w.requests i).claim = some c)
    (hpair : (w.requests i).pair = (sessionId, key)) : Keyed (w.requests i) sessionId key := by
  obtain ⟨key', hkey⟩ := (hi.claims i c hc).header
  rw [Request.pair, hkey] at hpair
  obtain ⟨hs, hk⟩ := Prod.mk.inj hpair
  exact ⟨hs, hk ▸ hkey⟩

/-- A keyed request of a session runs on a claim only. -/
theorem Inv.claim_of_started (hi : Inv w) {i : Nat} (hk : Keyed (w.requests i) sessionId key)
    (hsession : sessionId.length ≤ claimableSessionIdMaxLength)
    (hs : (w.requests i).started = true) :
    ∃ c, (w.requests i).claim = some c := by
  rcases hi.started i hs with hc | hpass
  · exact hc
  · rw [hk.header, hk.sessionId] at hpass
    unfold intercept at hpass
    split at hpass
    next h => cases h
    next h => cases h
    next =>
      split at hpass
      · cases hpass
      · rw [if_neg hsession.not_gt] at hpass
        cases hpass

-- ======== while a row lives

section Lives

variable {r : SendIdempotencyKey β} {j : Nat}

/-- A key that is taken cannot be claimed. -/
theorem insert_refused (hr : r ∈ w.keys.rows) (hpair : r.pair = (w.requests j).pair) {w' : World β}
    (h : (service β).step (.insert j) w = some w') :
    (w'.requests j).claim = (w.requests j).claim := by
  obtain ⟨v, hv, rfl⟩ := Option.map_eq_some_iff.1 h
  have hv : w.insert j = some v := hv
  unfold World.insert at hv
  split at hv
  next round now _ =>
    split at hv
    next keys hins =>
      exact absurd hpair ((Table.insert_eq_some hins).2 r hr)
    next =>
      obtain rfl := Option.some.inj hv
      show (Function.update w.requests j _ j).claim = _
      rw [Function.update_self]
  next => cases hv

/-- The read finds the row of the key. -/
theorem Table.findOne_of_mem {t : Table β} {r : SendIdempotencyKey β}
    (hr : r ∈ t.rows) : t.findOne r.pair = some r := by
  cases hf : t.findOne r.pair with
  | none =>
    have := List.find?_eq_none.1 hf r hr
    simp at this
  | some r' =>
    have hr' : r' ∈ t.rows := List.mem_of_find?_eq_some hf
    have hpair : r'.pair = r.pair := by
      simpa using List.find?_some hf
    rw [List.inj_on_of_nodup_map t.unique hr' hr hpair]

section

variable (hi : Inv w) (hr : r ∈ w.keys.rows) (hpair : r.pair = (w.requests j).pair)
  (hhash : (w.requests j).requestHash ≠ r.requestHash)
include hi hr hpair hhash

/-- A request with another hash that reads the row is told of the
mismatch, unless its window has passed. -/
theorem read_mismatch {w' : World β}
    (h : (service β).step (.read j) w = some w') :
    (w'.requests j).phase = .answered (.claim .mismatch) ∨ r.expiresAt ≤ w.clock := by
  obtain ⟨v, hv, rfl⟩ := Option.map_eq_some_iff.1 h
  have hv : w.read j = some v := hv
  unfold World.read at hv
  split at hv
  next round now hp =>
    have hnow : now ≤ w.clock := by
      have := hi.phase j
      rw [PhaseOk, hp] at this
      exact this.2
    rw [← hpair, Table.findOne_of_mem hr] at hv
    by_cases hexp : r.expiresAt ≤ now
    · exact .inr (hexp.trans hnow)
    · left
      simp only [hexp, if_false] at hv
      obtain rfl := Option.some.inj hv
      show (Function.update w.requests j _ j).phase = _
      rw [Function.update_self]
      simp only [classify, if_pos hhash.symm]
  next => cases hv

/-- Every other claim of the key was made before the row's. -/
theorem Inv.claim_before_row {d : Claim}
    (hd : (w.requests j).claim = some d) :
    ∃ i c, (w.requests i).claim = some c ∧ c.row = r.id
      ∧ d.step < c.step ∧ Over (w.requests j) d c.clock c.step := by
  obtain ⟨i, c, hc, hown, -, hlast⟩ := hi.rows r hr
  have hij : i ≠ j := by
    intro hij
    rw [← hij] at hhash
    exact hhash hown.requestHash.symm
  have hsame : (w.requests i).pair = (w.requests j).pair := hown.pair.symm.trans hpair
  have hlt : d.step < c.step := by
    have hle := hlast j d hd hpair.symm
    have hne := (hi.distinct i j c d hc hd hij).2
    omega
  exact ⟨i, c, hc, hown.id.symm, hlt, hi.order j i d c hd hc hsame.symm hlt⟩

end

end Lives

-- ======== every run

/-- At-most-once sends. For requests with one session and one key, in
every run:

- of two handler executions that started, at the claim of the later the
  earlier had failed with an error that proves nothing was sent and its
  row had been released, or its window had passed;
- a replay answers with the body returned by an execution claimed with
  the same request hash;
- while a row of the key lives, a request with another hash cannot claim
  the key, is told of the mismatch when it reads the row within its
  window, and has no execution but one claimed, and over, before the row
  was inserted. -/
theorem idempotent_sends {clock : Nat}
    (hr : (service β).Reach (.init clock) w) {sessionId key : Text}
    (hsession : sessionId.length ≤ claimableSessionIdMaxLength) :
    (∀ i j, i ≠ j → Keyed (w.requests i) sessionId key →
      Keyed (w.requests j) sessionId key →
      (w.requests i).started = true → (w.requests j).started = true →
      ∃ c d, (w.requests i).claim = some c
        ∧ (w.requests j).claim = some d ∧ c.step ≠ d.step
        ∧ (c.step < d.step → Over (w.requests i) c d.clock d.step))
    ∧ (∀ j body, Keyed (w.requests j) sessionId key →
      (w.requests j).phase = .answered (.claim (.replay body)) →
      ∃ i c, Keyed (w.requests i) sessionId key
        ∧ (w.requests i).claim = some c
        ∧ (w.requests i).requestHash = (w.requests j).requestHash
        ∧ Completed (w.requests i) body)
    ∧ (∀ r ∈ w.keys.rows, r.pair = (sessionId, key) →
      ∀ j, Keyed (w.requests j) sessionId key →
      (w.requests j).requestHash ≠ r.requestHash →
      (∀ w', (service β).step (.insert j) w = some w' →
        (w'.requests j).claim = (w.requests j).claim)
      ∧ (∀ w', (service β).step (.read j) w = some w' →
        (w'.requests j).phase = .answered (.claim .mismatch) ∨ r.expiresAt ≤ w.clock)
      ∧ ∀ d, (w.requests j).claim = some d →
        ∃ i c, (w.requests i).claim = some c ∧ c.row = r.id
          ∧ d.step < c.step ∧ Over (w.requests j) d c.clock c.step) := by
  have hi := inv_of_reach hr
  refine ⟨?_, ?_, ?_⟩
  · intro i j hij hki hkj hsi hsj
    obtain ⟨c, hc⟩ := hi.claim_of_started hki hsession hsi
    obtain ⟨d, hd⟩ := hi.claim_of_started hkj hsession hsj
    refine ⟨c, d, hc, hd, (hi.distinct i j c d hc hd hij).2, ?_⟩
    intro hlt
    exact hi.order i j c d hc hd (hki.pair.trans hkj.pair.symm) hlt
  · intro j body hkj hp
    have hok := hi.phase j
    rw [PhaseOk, hp] at hok
    obtain ⟨k, d, hd, hpair, hhash, hdone⟩ := hok
    exact ⟨k, d, hi.keyed hd (hpair.trans hkj.pair), hd, hhash, hdone⟩
  · intro r hmem hpair j hkj hhash
    have hpair : r.pair = (w.requests j).pair := hpair.trans hkj.pair.symm
    refine ⟨?_, ?_, ?_⟩
    · intro w' h
      exact insert_refused hmem hpair h
    · intro w' h
      exact read_mismatch hi hmem hpair hhash h
    · intro d hd
      exact hi.claim_before_row hmem hpair hhash hd

/-- A send that was refused, its retry that went through, and a third
request with the key. -/
def retrySchedule : List (Act Nat) :=
  let hash := "h".toList
  let refused : SendError :=
    { provesNothingSent := false, throttled := false
      engineSendFailure := false, httpStatus := some 400 }
  let arrive := fun i =>
    .arrive i "s".toList (.one "k".toList) "send-text".toList hash
  [arrive 0, .insert 0, .start 0, .finish 0 (.failed refused),
    .settle 0 true, arrive 1, .insert 1, .start 1,
    .finish 1 (.returned (some 7)), .settle 1 true,
    arrive 2, .insert 2, .read 2]

/-- Both executions started, the first was released before the second's
claim, and the third request was answered with the second's body. -/
theorem idempotent_sends_retry :
    ∃ w : World Nat, (service Nat).Reach (.init 0) w
      ∧ (∃ c d, (w.requests 0).claim = some c
        ∧ (w.requests 1).claim = some d ∧ c.step ≠ d.step
        ∧ (c.step < d.step → Over (w.requests 0) c d.clock d.step))
      ∧ ∃ i, Completed (w.requests i) (some 7) := by
  obtain ⟨w, hr, hw⟩ := Machine.exists_reach_of_run (M := service Nat) (.init 0) retrySchedule
    (fun w => (w.requests 0).started && (w.requests 1).started && (List.range 3).all (fun i =>
        (w.requests i).sessionId = "s".toList && (w.requests i).header = .one "k".toList)
      && (w.requests 2).phase = .answered (.claim (.replay (some 7))))
    (by decide +kernel)
  simp only [Bool.and_eq_true, decide_eq_true_eq] at hw
  obtain ⟨⟨⟨h0, h1⟩, hall⟩, h2⟩ := hw
  have hkeyed : ∀ i < 3, Keyed (w.requests i) "s".toList "k".toList := by
    intro i hi
    have := List.all_eq_true.1 hall i (List.mem_range.2 hi)
    simp only [Bool.and_eq_true, decide_eq_true_eq] at this
    exact ⟨this.1, this.2⟩
  obtain ⟨hpairs, hreplay, -⟩ := idempotent_sends hr (show "s".toList.length ≤ _ by decide)
  refine ⟨w, hr, ?_, ?_⟩
  · exact hpairs 0 1 (by decide) (hkeyed 0 (by decide)) (hkeyed 1 (by decide)) h0 h1
  · obtain ⟨i, -, -, -, -, hdone⟩ := hreplay 2 (some 7) (hkeyed 2 (by decide)) h2
    exact ⟨i, hdone⟩

end OpenWA.Idempotency

/-
The invariant of the idempotency store: every claim ever made is tied to
the row it inserted, until the row is released or past its window.

# The invariant

- a claim's row is in the table, as the claim wrote it, or the claim is
  `Over`: its request failed with an error that proves nothing was sent
  and released the row, or the window has passed (`Made`);
- every row was inserted by a claim, which is the last of its key, and a
  completed row holds the body the claim's handler returned (`Backs`);
- of two claims of one key, the earlier was over when the later was made
  (`order`) — this is the at-most-once property, and it follows from the
  unique index at the moment of the INSERT: no row, so every earlier
  claim is over.

# One lemma for every step but the INSERT

Every other step changes one request, takes rows away or rewrites their
state. `Inv.move` carries the invariant over such a step from what the
step does to its own request and to the rows.
-/
import OpenWA.Idempotency.World

namespace OpenWA.Idempotency

variable {β : Type}

-- ======== vocabulary

/-- The row is the one the claim inserted, whatever its state by now. -/
structure Owns (r : SendIdempotencyKey β) (q : Request β) (c : Claim) :
    Prop where
  id : r.id = c.row
  pair : r.pair = q.pair
  requestHash : r.requestHash = q.requestHash
  expiresAt : r.expiresAt = c.now + sendIdempotencyTtlMs

/-- The request failed with an error that proves nothing was sent, and
its row was released before the step `before`. -/
def Released (q : Request β) (before : Nat) : Prop :=
  ∃ e s, q.outcome = some (.failed e)
    ∧ sendFailureProvesNothingSent e = true
    ∧ q.releasedAt = some s ∧ s < before

/-- The claim binds its key no more: it was released, or its window has
passed. -/
def Over (q : Request β) (c : Claim) (clock step : Nat) : Prop :=
  Released q step ∨ c.now + sendIdempotencyTtlMs < clock

/-- The execution behind a completed answer. -/
structure Completed (q : Request β) (body : Option β) : Prop where
  started : q.started = true
  outcome : q.outcome = some (.returned body)

/-- Nothing has been recorded of the request. -/
structure Blank (q : Request β) : Prop where
  claim : q.claim = none
  started : q.started = false
  outcome : q.outcome = none
  releasedAt : q.releasedAt = none

/-- The request is still asking for its key. -/
structure Asking (q : Request β) : Prop extends Blank q where
  header : ∃ key, q.header = .one key

/-- The request holds the row `id` and has not ended. -/
structure Holds (q : Request β) (id : Nat) : Prop where
  claim : ∃ c, q.claim = some c ∧ c.row = id
  releasedAt : q.releasedAt = none

/-- What is known of a request in its phase. -/
def PhaseOk (w : World β) (q : Request β) : Prop :=
  match q.phase with
  | .idle => Blank q
  | .inserting _ now => Asking q ∧ now ≤ w.clock
  | .reading _ now => Asking q ∧ now ≤ w.clock
  | .clearing _ now _ => Asking q ∧ now ≤ w.clock
  | .claimed id => Holds q id ∧ q.outcome = none
  | .running (some id) =>
    Holds q id ∧ q.outcome = none ∧ q.started = true
  | .running none => q.claim = none
  | .settling id o => Holds q id ∧ q.outcome = some o ∧ q.started = true
  | .answered (.claim (.replay body)) =>
    ∃ k d, (w.requests k).claim = some d
      ∧ (w.requests k).pair = q.pair
      ∧ (w.requests k).requestHash = q.requestHash
      ∧ Completed (w.requests k) body
  | _ => True

/-- What is known of the claim of a request. -/
structure Made (w : World β) (i : Nat) (c : Claim) : Prop where
  row_lt : c.row < w.nextId
  step_lt : c.step < w.stepNo
  header : ∃ key, (w.requests i).header = .one key
  held : (∃ r ∈ w.keys.rows, Owns r (w.requests i) c) ∨ Over (w.requests i) c w.clock w.stepNo

/-- What is known of a row and the claim that inserted it. -/
structure Backs (w : World β) (r : SendIdempotencyKey β) (i : Nat) (c : Claim) : Prop where
  claim : (w.requests i).claim = some c
  owns : Owns r (w.requests i) c
  body : r.state = .completed → Completed (w.requests i) r.responseBody
  last : ∀ j d, (w.requests j).claim = some d → (w.requests j).pair = r.pair → d.step ≤ c.step

/-- Claims and rows belong to each other. -/
structure Inv (w : World β) : Prop where
  claims : ∀ i c, (w.requests i).claim = some c → Made w i c
  distinct : ∀ i j c d, (w.requests i).claim = some c →
    (w.requests j).claim = some d → i ≠ j → c.row ≠ d.row ∧ c.step ≠ d.step
  rows : ∀ r ∈ w.keys.rows, ∃ i c, Backs w r i c
  order : ∀ i j c d, (w.requests i).claim = some c →
    (w.requests j).claim = some d →
      (w.requests i).pair = (w.requests j).pair → c.step < d.step →
        Over (w.requests i) c d.clock d.step
  started : ∀ i, (w.requests i).started = true →
    (∃ c, (w.requests i).claim = some c)
      ∨ intercept (w.requests i).header (w.requests i).sessionId = .pass
  phase : ∀ i, PhaseOk w (w.requests i)

-- ======== monotony

/-- What a step keeps of a request that has claimed. -/
structure Kept (q q' : Request β) : Prop where
  sessionId : q'.sessionId = q.sessionId
  header : q'.header = q.header
  requestHash : q'.requestHash = q.requestHash
  started : q.started = true → q'.started = true
  outcome : ∀ o, q.outcome = some o → q'.outcome = some o
  releasedAt : ∀ s, q.releasedAt = some s → q'.releasedAt = some s

theorem Kept.refl (q : Request β) : Kept q q := ⟨rfl, rfl, rfl, id, fun _ h => h, fun _ h => h⟩

theorem Kept.pair {q q' : Request β} (h : Kept q q') : q'.pair = q.pair := by
  rw [Request.pair, Request.pair, h.sessionId, h.header]

variable {c : Claim}

theorem Kept.owns {q q' : Request β} (h : Kept q q') {r : SendIdempotencyKey β} (hr : Owns r q c) :
    Owns r q' c :=
  ⟨hr.id, hr.pair.trans h.pair.symm, hr.requestHash.trans h.requestHash.symm, hr.expiresAt⟩

theorem Kept.released {q q' : Request β} (h : Kept q q') {m n : Nat}
    (hr : Released q m) (hmn : m ≤ n) : Released q' n := by
  obtain ⟨e, s, ho, he, hs, hlt⟩ := hr
  exact ⟨e, s, h.outcome _ ho, he, h.releasedAt _ hs, by omega⟩

theorem Kept.over {q q' : Request β} (h : Kept q q') {clock clock' m n : Nat}
    (ho : Over q c clock m) (hc : clock ≤ clock') (hmn : m ≤ n) : Over q' c clock' n := by
  rcases ho with hr | ht
  · exact .inl (h.released hr hmn)
  · exact .inr (by omega)

theorem Kept.completed {q q' : Request β} (h : Kept q q')
    {body : Option β} (hc : Completed q body) : Completed q' body :=
  ⟨h.started hc.started, h.outcome _ hc.outcome⟩

/-- The later world knows no less of every request that has claimed. -/
structure Later (w w' : World β) : Prop where
  clock : w.clock ≤ w'.clock
  claim : ∀ i c, (w.requests i).claim = some c → (w'.requests i).claim = some c
  kept : ∀ i c, (w.requests i).claim = some c → Kept (w.requests i) (w'.requests i)

/-- A request that did not move is in its phase as before. -/
theorem PhaseOk.later {w w' : World β} (hl : Later w w') {q : Request β}
    (h : PhaseOk w q) : PhaseOk w' q := by
  have hclock := hl.clock
  unfold PhaseOk at h ⊢
  split
  case h_2 hp | h_3 hp | h_4 hp =>
    rw [hp] at h
    exact ⟨h.1, h.2.trans hclock⟩
  case h_9 hp =>
    rw [hp] at h
    obtain ⟨k, d, hd, hpair, hhash, hdone⟩ := h
    have hk := hl.kept k d hd
    exact ⟨k, d, hl.claim k d hd, hk.pair.trans hpair,
      hk.requestHash.trans hhash, hk.completed hdone⟩
  case h_10 => trivial
  all_goals
    next hp =>
      rw [hp] at h
      exact h

-- ======== steps without an INSERT

/-- The two rows differ in state and body at most. -/
structure SameRow (r r' : SendIdempotencyKey β) : Prop where
  id : r'.id = r.id
  pair : r'.pair = r.pair
  requestHash : r'.requestHash = r.requestHash
  expiresAt : r'.expiresAt = r.expiresAt

theorem SameRow.refl (r : SendIdempotencyKey β) : SameRow r r := ⟨rfl, rfl, rfl, rfl⟩

theorem SameRow.owns {r r' : SendIdempotencyKey β} (h : SameRow r r') {q : Request β}
    (hr : Owns r q c) : Owns r' q c :=
  ⟨h.id.trans hr.id, h.pair.trans hr.pair,
    h.requestHash.trans hr.requestHash, h.expiresAt.trans hr.expiresAt⟩

/-- The world after a step of request `i` that inserts nothing. -/
def World.moved (w : World β) (i : Nat) (q' : Request β) (clock : Nat) (keys : Table β) : World β :=
  { w with clock, keys
           stepNo := w.stepNo + 1
           requests := Function.update w.requests i q' }

/-- What a step of request `i`, from `q` to `q'`, does to the rows. -/
structure RowsMoved (w : World β) (q q' : Request β) (clock : Nat)
    (keys : Table β) : Prop where
  /-- Every row was there; what is newly completed was by `i`. -/
  from_old : ∀ r' ∈ keys.rows, ∃ r ∈ w.keys.rows, SameRow r r'
    ∧ (r'.state = .completed →
        (r.state = .completed ∧ r'.responseBody = r.responseBody)
          ∨ (∃ c, q.claim = some c ∧ c.row = r.id) ∧ Completed q' r'.responseBody)
  /-- A row that is gone is past its window, or was released by `i`. -/
  to_new : ∀ r ∈ w.keys.rows, (∃ r' ∈ keys.rows, SameRow r r')
    ∨ r.expiresAt < clock
    ∨ (∃ c, q.claim = some c ∧ c.row = r.id) ∧ Released q' (w.stepNo + 1)

theorem RowsMoved.same (w : World β) (q q' : Request β) (clock : Nat) :
    RowsMoved w q q' clock w.keys where
  from_old r hr := ⟨r, hr, .refl r, fun h => .inl ⟨h, rfl⟩⟩
  to_new r hr := .inl ⟨r, hr, .refl r⟩

section Move

variable {w : World β} {i : Nat} {q' : Request β} {clock : Nat}
  {keys : Table β}

/-- Such a step makes no claim. -/
theorem claim_of_moved (hclaim : q'.claim = (w.requests i).claim) (j : Nat) :
    ((w.moved i q' clock keys).requests j).claim = (w.requests j).claim := by
  by_cases hj : j = i
  · subst hj
    show (Function.update w.requests j q' j).claim = _
    rw [Function.update_self, hclaim]
  · show (Function.update w.requests i q' j).claim = _
    rw [Function.update_of_ne hj]

/-- Such a step forgets nothing. -/
theorem later_moved (hclock : w.clock ≤ clock) (hclaim : q'.claim = (w.requests i).claim)
    (hkept : ∀ c, (w.requests i).claim = some c →
      Kept (w.requests i) q') : Later w (w.moved i q' clock keys) := by
  refine ⟨hclock, ?_, ?_⟩
  · intro j c hc
    rw [claim_of_moved hclaim]
    exact hc
  · intro j c hc
    by_cases hj : j = i
    · subst hj
      show Kept _ (Function.update w.requests j q' j)
      rw [Function.update_self]
      exact hkept c hc
    · show Kept _ (Function.update w.requests i q' j)
      rw [Function.update_of_ne hj]
      exact .refl _

/-- A row has one claim. -/
theorem Inv.one_owner (hi : Inv w) {j k : Nat} {d : Claim} (hc : (w.requests j).claim = some c)
    (hd : (w.requests k).claim = some d) (hrow : c.row = d.row) : j = k := by
  by_contra hne
  exact (hi.distinct j k c d hc hd hne).1 hrow

/-- The invariant over a step that inserts nothing. -/
theorem Inv.move (hi : Inv w) (hclock : w.clock ≤ clock) (hclaim : q'.claim = (w.requests i).claim)
    (hkept : ∀ c, (w.requests i).claim = some c → Kept (w.requests i) q')
    (hstarted : q'.started = true → (∃ c, q'.claim = some c)
      ∨ intercept q'.header q'.sessionId = .pass) (hrows : RowsMoved w (w.requests i) q' clock keys)
    (hphase : ∀ w', Later w w' → w'.clock = clock → PhaseOk w' q') :
    Inv (w.moved i q' clock keys) := by
  have hl : Later w (w.moved i q' clock keys) := later_moved hclock hclaim hkept
  have hcl : ∀ j, ((w.moved i q' clock keys).requests j).claim
      = (w.requests j).claim := claim_of_moved hclaim
  have hself : (w.moved i q' clock keys).requests i = q' := Function.update_self ..
  have hsame : ∀ {j}, j ≠ i →
      (w.moved i q' clock keys).requests j = w.requests j := fun hji => Function.update_of_ne hji ..
  refine ⟨?_, ?_, ?_, ?_, ?_, ?_⟩
  · intro j c hc
    rw [hcl] at hc
    have hmade := hi.claims j c hc
    have hk := hl.kept j c hc
    refine ⟨hmade.row_lt, Nat.lt_succ_of_lt hmade.step_lt, hk.header.symm ▸ hmade.header, ?_⟩
    rcases hmade.held with ⟨r, hr, hown⟩ | hover
    · rcases hrows.to_new r hr with ⟨r', hr', hsame⟩ | hexp | hrel
      · exact .inl ⟨r', hr', hk.owns (hsame.owns hown)⟩
      · right; right
        rw [hown.expiresAt] at hexp
        exact hexp
      · obtain ⟨⟨d, hd, hrow⟩, hrel⟩ := hrel
        obtain rfl := hi.one_owner hc hd (hown.id.symm.trans hrow.symm)
        right; left
        rw [hself]
        exact hrel
    · exact .inr (hk.over hover hclock (Nat.le_succ _))
  · intro j k c d hc hd
    rw [hcl] at hc hd
    exact hi.distinct j k c d hc hd
  · intro r' hr'
    obtain ⟨r, hr, hsame, hbody⟩ := hrows.from_old r' hr'
    obtain ⟨j, c, hc, hown, hdone, hlast⟩ := hi.rows r hr
    have hk := hl.kept j c hc
    refine ⟨j, c, hl.claim j c hc, hk.owns (hsame.owns hown), fun hstate => ?_, ?_⟩
    · rcases hbody hstate with ⟨hold, heq⟩ | ⟨⟨d, hd, hdrow⟩, hnew⟩
      · rw [heq]
        exact hk.completed (hdone hold)
      · obtain rfl := hi.one_owner hc hd (hown.id.symm.trans hdrow.symm)
        rw [hself]
        exact hnew
    · intro k d hd hpair
      rw [hcl] at hd
      rw [(hl.kept k d hd).pair, hsame.pair] at hpair
      exact hlast k d hd hpair
  · intro j k c d hc hd hpair hlt
    rw [hcl] at hc hd
    have hkj := hl.kept j c hc
    have hkk := hl.kept k d hd
    rw [hkj.pair, hkk.pair] at hpair
    exact hkj.over (hi.order j k c d hc hd hpair hlt) le_rfl le_rfl
  · intro j hj
    by_cases hji : j = i
    · subst hji
      rw [hself] at hj ⊢
      exact hstarted hj
    · rw [hsame hji] at hj ⊢
      exact hi.started j hj
  · intro j
    by_cases hji : j = i
    · subst hji
      rw [hself]
      exact hphase _ hl rfl
    · rw [hsame hji]
      exact (hi.phase j).later hl

end Move

end OpenWA.Idempotency

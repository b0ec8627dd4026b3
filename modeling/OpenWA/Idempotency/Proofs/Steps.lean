/-
Every step keeps the invariant.

# Layout

One lemma per statement of the protocol. All but `Inv.claimed` — the
INSERT that went through — are instances of `Inv.move`: they say what the
step does to its own request and which rows it may take away, `release`
by the row's owner only, `clear` and `prune` only past the window.
-/
import OpenWA.Idempotency.Proofs.Invariant

namespace OpenWA.Idempotency

variable {β : Type} {w : World β}

-- ======== the rows

variable {q : Request β}

/-- A deletion of rows past their window. -/
theorem rowsMoved_delete {q' : Request β} {p : SendIdempotencyKey β → Bool}
    (h : ∀ r, p r = true → r.expiresAt < w.clock) : RowsMoved w q q' w.clock (w.keys.delete p) where
  from_old r hr := ⟨r, (List.mem_filter.1 hr).1, .refl r, fun hs => .inl ⟨hs, rfl⟩⟩
  to_new r hr := by
    cases hp : p r with
    | true => exact .inr (.inl (h r hp))
    | false =>
      exact .inl ⟨r, List.mem_filter.2 ⟨hr, by rw [hp]; rfl⟩, .refl r⟩

variable {id : Nat}

/-- The release of one's own row. -/
theorem rowsMoved_release {q' : Request β} (hown : ∃ c, q.claim = some c ∧ c.row = id)
    (hrel : Released q' (w.stepNo + 1)) : RowsMoved w q q' w.clock (w.keys.release id) where
  from_old r hr := ⟨r, (List.mem_filter.1 hr).1, .refl r, fun hs => .inl ⟨hs, rfl⟩⟩
  to_new r hr := by
    by_cases hid : r.id = id
    · right; right
      rw [hid]
      exact ⟨hown, hrel⟩
    · left
      exact ⟨r, List.mem_filter.2 ⟨hr, by simp [hid]⟩, .refl r⟩

theorem sameRow_setRow (id : Nat) (state : SendIdempotencyState)
    (body : Option (Option β)) (r : SendIdempotencyKey β) :
    SameRow r (Table.setRow id state body r) := by
  unfold Table.setRow
  split
  · exact ⟨rfl, rfl, rfl, rfl⟩
  · exact .refl r

/-- A state write to one's own row; what it completes, its request has
completed. -/
theorem rowsMoved_update {q' : Request β} {state : SendIdempotencyState}
    {body : Option (Option β)} (hown : ∃ c, q.claim = some c ∧ c.row = id)
    (hdone : state = .completed → ∃ b, body = some b ∧ Completed q' b) :
    RowsMoved w q q' w.clock (w.keys.update id state body) where
  from_old r' hr' := by
    obtain ⟨r, hr, rfl⟩ := List.mem_map.1 hr'
    refine ⟨r, hr, sameRow_setRow id state body r, ?_⟩
    unfold Table.setRow
    split
    next hid =>
      intro hs
      obtain ⟨b, hb, hc⟩ := hdone hs
      right
      rw [hid, hb]
      exact ⟨hown, hc⟩
    next =>
      intro hs
      exact .inl ⟨hs, rfl⟩
  to_new r hr := .inl ⟨_, List.mem_map_of_mem hr, sameRow_setRow id state body r⟩

-- ======== the steps

variable {keys : Table β} {phase : Phase β}

/-- A step that only moves its request to another phase. -/
theorem Inv.setPhase (hi : Inv w) (i : Nat)
    (hphase : ∀ w', Later w w' → w'.clock = w.clock → PhaseOk w' { w.requests i with phase })
    (hrows : RowsMoved w (w.requests i) { w.requests i with phase } w.clock keys) :
    Inv (w.moved i { w.requests i with phase } w.clock keys) := hi.move le_rfl rfl
    (fun _ _ => ⟨rfl, rfl, rfl, id, fun _ h => h, fun _ h => h⟩) (hi.started i) hrows hphase

/-- What the step led to keeps the invariant once it is counted. -/
def Next (w v : World β) : Prop := Inv { v with stepNo := w.stepNo + 1 }

/-- A step that leaves the rows alone as well. -/
theorem Inv.phased (hi : Inv w) {i : Nat} (hphase : ∀ v, Later w v →
    v.clock = w.clock → PhaseOk v { w.requests i with phase }) : Next w (w.setPhase i phase) :=
  hi.setPhase i hphase (.same ..)

variable {clock j : Nat} {header : Header} {sessionId : Text}

/-- The clock and the prune move no request. -/
theorem Inv.still (hi : Inv w) (hclock : w.clock ≤ clock)
    (hrows : ∀ q : Request β, RowsMoved w q q clock keys) :
    Inv { w with clock, keys, stepNo := w.stepNo + 1 } := by
  have h : Inv (w.moved 0 (w.requests 0) clock keys) := by
    apply hi.move hclock rfl (fun _ _ => .refl _) (hi.started 0) (hrows _)
    intro w' hl _
    exact (hi.phase 0).later hl
  unfold World.moved at h
  rw [Function.update_eq_self] at h
  exact h

theorem Inv.tick (hi : Inv w) (ms : Nat) :
    Inv { w with clock := w.clock + ms, stepNo := w.stepNo + 1 } :=
  hi.still (Nat.le_add_right _ _) fun q => .same w q q _

theorem Inv.prune (hi : Inv w) {now : Nat} (hnow : now ≤ w.clock) :
    Inv { w with keys := w.keys.pruneExpired now
                 stepNo := w.stepNo + 1 } := by
  apply hi.still le_rfl
  intro q
  apply rowsMoved_delete
  intro r hr
  have : r.expiresAt < now := by simpa using hr
  omega

theorem Asking.setPhase (h : Asking q) (phase : Phase β) :
    Asking { q with phase } := ⟨⟨h.claim, h.started, h.outcome, h.releasedAt⟩, h.header⟩

/-- The phase of a request that goes on asking. -/
theorem phaseOk_nextRound {w' : World β} (hq : Asking q)
    (round : Nat) : PhaseOk w' { q with phase := World.nextRound w'.clock round } := by
  unfold World.nextRound
  split
  · exact ⟨hq.setPhase _, le_rfl⟩
  · trivial

/-- Only a single header value leads to a claim. -/
theorem header_of_intercept {key : Text} (h : intercept header sessionId = .claim key) :
    header = .one key := by
  unfold intercept at h
  split at h
  · cases h
  · cases h
  next key' =>
    split at h
    · cases h
    · split at h
      · cases h
      · rw [Interception.claim.inj h]

section Steps

variable {w' : World β} {i : Nat}

theorem Inv.arrive (hi : Inv w) {route requestHash : Text} :
    Leads (Next w) (w.arrive i sessionId header route requestHash) := by
  unfold World.arrive
  split
  next hp =>
    have hq : Blank (w.requests i) := by
      simpa only [PhaseOk, hp] using hi.phase i
    apply hi.move le_rfl hq.claim.symm
    · intro c hc
      rw [hq.claim] at hc
      cases hc
    · intro hs
      right
      exact of_decide_eq_true hs
    · exact .same ..
    · intro v hl hclock
      dsimp only [World.firstPhase]
      cases hint : intercept header sessionId with
      | pass => rfl
      | refuse => trivial
      | claim key =>
        exact ⟨⟨⟨rfl, rfl, rfl, rfl⟩, key, header_of_intercept hint⟩, hclock.ge⟩
  next => trivial

theorem Inv.read (hi : Inv w) : Leads (Next w) (w.read i) := by
  unfold World.read
  split
  next round now hp =>
    obtain ⟨hq, hnow⟩ : Asking (w.requests i) ∧ now ≤ w.clock := by
      simpa only [PhaseOk, hp] using hi.phase i
    split
    next =>
      refine hi.phased ?_
      intro v _ hclock
      rw [← hclock]
      exact phaseOk_nextRound hq round
    next row hfind =>
      have hrow : row ∈ w.keys.rows := List.mem_of_find?_eq_some hfind
      have hpair : row.pair = (w.requests i).pair := by
        simpa using List.find?_some hfind
      split
      · refine hi.phased ?_
        intro v _ hclock
        exact ⟨hq.setPhase _, hclock ▸ hnow⟩
      · refine hi.phased ?_
        intro v hl _
        obtain ⟨k, d, hd, hown, hbody, -⟩ := hi.rows row hrow
        have hk := hl.kept k d hd
        dsimp only [classify]
        split
        · trivial
        next hhash =>
          split
          next hdone =>
            -- the one answer that carries a body
            exact ⟨k, d, hl.claim k d hd,
              hk.pair.trans (hown.pair.symm.trans hpair),
              hk.requestHash.trans (hown.requestHash.symm.trans
                (not_not.1 hhash)), hk.completed (hbody hdone)⟩
          next =>
            repeat' split
            all_goals trivial
  next => trivial

theorem Inv.clear (hi : Inv w) : Leads (Next w) (w.clear i) := by
  unfold World.clear
  split
  next round now id hp =>
    obtain ⟨hq, hnow⟩ : Asking (w.requests i) ∧ now ≤ w.clock := by
      simpa only [PhaseOk, hp] using hi.phase i
    apply hi.setPhase i
    · intro v _ hclock
      rw [← hclock]
      exact phaseOk_nextRound hq round
    · apply rowsMoved_delete
      intro r hr
      have hr : r.id = id ∧ r.expiresAt < now := by simpa using hr
      omega
  next => trivial

theorem Inv.start (hi : Inv w) : Leads (Next w) (w.start i) := by
  unfold World.start
  split
  next id hp =>
    obtain ⟨hq, hout⟩ : Holds (w.requests i) id ∧ (w.requests i).outcome = none := by
      simpa only [PhaseOk, hp] using hi.phase i
    obtain ⟨c, hc, hrow⟩ := hq.claim
    refine hi.move le_rfl ?_ ?_ ?_ ?_ ?_
    · rfl
    · intro _ _
      exact ⟨rfl, rfl, rfl, fun _ => rfl, fun _ h => h, fun _ h => h⟩
    · intro _
      exact .inl ⟨c, hc⟩
    · exact .same ..
    · intro v _ _
      exact ⟨⟨⟨c, hc, hrow⟩, hq.releasedAt⟩, hout, rfl⟩
  next => trivial

variable {o : Outcome β}

theorem Inv.finish (hi : Inv w) : Leads (Next w) (w.finish i o) := by
  unfold World.finish
  split
  next id hp =>
    have hok := hi.phase i
    rw [PhaseOk, hp] at hok
    cases id with
    | none =>
      refine hi.move le_rfl ?_ ?_ ?_ ?_ ?_
      · rfl
      · intro c hc
        rw [hok] at hc
        cases hc
      · exact hi.started i
      · exact .same ..
      · intro v _ _
        trivial
    | some id =>
      obtain ⟨hq, hout, hst⟩ := hok
      refine hi.move le_rfl ?_ ?_ ?_ ?_ ?_
      · rfl
      · intro _ _
        refine ⟨rfl, rfl, rfl, fun h => h, ?_, fun _ h => h⟩
        intro o' ho'
        rw [hout] at ho'
        cases ho'
      · exact hi.started i
      · exact .same ..
      · intro v _ _
        exact ⟨⟨hq.claim, hq.releasedAt⟩, rfl, hst⟩
  next => trivial

theorem Inv.crash (hi : Inv w) : Leads (Next w) (w.crash i) := by
  unfold World.crash
  split
  next => trivial
  next =>
    refine hi.phased ?_
    intro v _ _
    trivial

/-- What the settle write does to the rows. -/
theorem rowsMoved_settle {q' : Request β} (hq : Holds q id)
    (hstarted : q'.started = true) (hout : q'.outcome = some o)
    (hrel : World.releases o = true → q'.releasedAt = some w.stepNo) :
    RowsMoved w q q' w.clock (w.keys.settle id o) := by
  cases o with
  | returned body =>
    apply rowsMoved_update hq.claim
    intro _
    exact ⟨body, rfl, hstarted, hout⟩
  | failed e =>
    show RowsMoved w q q' w.clock
      (if sendFailureProvesNothingSent e then w.keys.release id else w.keys.markFailed id)
    by_cases he : sendFailureProvesNothingSent e = true
    · rw [if_pos he]
      exact rowsMoved_release hq.claim ⟨e, w.stepNo, hout, he, hrel he, Nat.lt_succ_self _⟩
    · rw [if_neg he]
      apply rowsMoved_update hq.claim
      intro h
      cases h

theorem Inv.settle (hi : Inv w) {applied : Bool} : Leads (Next w) (w.settle i applied) := by
  unfold World.settle
  split
  next id o hp =>
    obtain ⟨hq, hout, hst⟩ : Holds (w.requests i) id
        ∧ (w.requests i).outcome = some o
        ∧ (w.requests i).started = true := by
      simpa only [PhaseOk, hp] using hi.phase i
    split
    · refine hi.move le_rfl ?_ ?_ ?_ ?_ ?_
      · rfl
      · intro _ _
        refine ⟨rfl, rfl, rfl, fun h => h, fun _ h => h, ?_⟩
        intro s hs
        rw [hq.releasedAt] at hs
        cases hs
      · exact hi.started i
      · refine rowsMoved_settle hq ?_ ?_ ?_
        · exact hst
        · exact hout
        · intro hrel
          rw [if_pos hrel]
      · intro v _ _
        trivial
    · -- the write was lost: the row stays as it is
      refine hi.phased ?_
      intro v _ _
      trivial
  next => trivial

-- ======== the INSERT

/-- A key that could be inserted is in no row. -/
theorem Table.insert_eq_some {t t' : Table β} {r : SendIdempotencyKey β}
    (h : t.insert r = some t') : t'.rows = r :: t.rows ∧ ∀ r' ∈ t.rows, r'.pair ≠ r.pair := by
  unfold Table.insert at h
  split at h
  next => cases h
  next hno =>
    obtain rfl := Option.some.inj h
    refine ⟨rfl, ?_⟩
    intro r' hr' hpair
    exact hno (List.any_eq_true.2 ⟨r', hr', decide_eq_true hpair⟩)

/-- The claim of an INSERT that goes through now. -/
def World.newClaim (w : World β) (now : Nat) : Claim where
  row := w.nextId
  now := now
  clock := w.clock
  step := w.stepNo

/-- The request after it. -/
def World.claimant (w : World β) (i now : Nat) : Request β :=
  { w.requests i with
    phase := .claimed w.nextId
    claim := some (w.newClaim now) }

/-- The world after it. -/
def World.inserted (w : World β) (i now : Nat) (keys : Table β) : World β :=
  { w with
    keys
    nextId := w.nextId + 1
    stepNo := w.stepNo + 1
    requests := Function.update w.requests i (w.claimant i now) }

section Inserted

variable {now : Nat} {keys : Table β}

theorem inserted_self :
    (w.inserted i now keys).requests i = w.claimant i now := Function.update_self ..

theorem inserted_of_ne (hj : j ≠ i) :
    (w.inserted i now keys).requests j = w.requests j := Function.update_of_ne hj ..

/-- A claim is the new one or an old one. -/
theorem claim_of_inserted {c : Claim} (hc : ((w.inserted i now keys).requests j).claim = some c) :
    (j = i ∧ c = w.newClaim now) ∨ (j ≠ i ∧ (w.requests j).claim = some c) := by
  by_cases hj : j = i
  · left
    rw [hj, inserted_self] at hc
    exact ⟨hj, (Option.some.inj hc).symm⟩
  · right
    rw [inserted_of_ne hj] at hc
    exact ⟨hj, hc⟩

theorem later_inserted (hq : Blank (w.requests i)) : Later w (w.inserted i now keys) := by
  have hne : ∀ j c, (w.requests j).claim = some c → j ≠ i := by
    intro j c hc hj
    rw [hj, hq.claim] at hc
    cases hc
  refine ⟨le_rfl, ?_, ?_⟩
  · intro j c hc
    rw [inserted_of_ne (hne j c hc)]
    exact hc
  · intro j c hc
    rw [inserted_of_ne (hne j c hc)]
    exact .refl _

/-- The INSERT that went through. At this moment no row holds the key,
so every earlier claim of it is over. -/
theorem Inv.claimed (hi : Inv w) {round : Nat} (hp : (w.requests i).phase = .inserting round now)
    (hins : w.keys.insert ((w.requests i).row w.nextId now) = some keys) :
    Inv (w.inserted i now keys) := by
  have hq : Asking (w.requests i) := by
    have := hi.phase i
    rw [PhaseOk, hp] at this
    exact this.1
  obtain ⟨hrows, hfree⟩ := Table.insert_eq_some hins
  have hl : Later w (w.inserted i now keys) := later_inserted hq.toBlank
  have hnew : Owns ((w.requests i).row w.nextId now) (w.claimant i now)
      (w.newClaim now) := ⟨rfl, rfl, rfl, rfl⟩
  have hmem : ∀ r, r ∈ (w.inserted i now keys).keys.rows ↔
      r = (w.requests i).row w.nextId now ∨ r ∈ w.keys.rows := by
    intro r
    show r ∈ keys.rows ↔ _
    rw [hrows, List.mem_cons]
  refine ⟨?_, ?_, ?_, ?_, ?_, ?_⟩
  · intro j c hc
    rcases claim_of_inserted hc with ⟨rfl, rfl⟩ | ⟨-, hc⟩
    · refine ⟨Nat.lt_succ_self _, Nat.lt_succ_self _, ?_, .inl ?_⟩ <;> rw [inserted_self]
      · exact hq.header
      · exact ⟨_, (hmem _).2 (.inl rfl), hnew⟩
    · have hmade := hi.claims j c hc
      have hk := hl.kept j c hc
      refine ⟨Nat.lt_succ_of_lt hmade.row_lt, Nat.lt_succ_of_lt hmade.step_lt,
        hk.header.symm ▸ hmade.header, ?_⟩
      rcases hmade.held with ⟨r, hr, hown⟩ | hover
      · exact .inl ⟨r, (hmem r).2 (.inr hr), hk.owns hown⟩
      · exact .inr (hk.over hover le_rfl (Nat.le_succ _))
  · intro j k c d hc hd hne
    rcases claim_of_inserted hc with ⟨rfl, rfl⟩ | ⟨-, hold⟩
    · rcases claim_of_inserted hd with ⟨rfl, rfl⟩ | ⟨-, hd⟩
      · exact absurd rfl hne
      · have hmade := hi.claims k d hd
        exact ⟨hmade.row_lt.ne', hmade.step_lt.ne'⟩
    · rcases claim_of_inserted hd with ⟨rfl, rfl⟩ | ⟨-, hd⟩
      · have hmade := hi.claims j c hold
        exact ⟨hmade.row_lt.ne, hmade.step_lt.ne⟩
      · exact hi.distinct j k c d hold hd hne
  · intro r hr
    rcases (hmem r).1 hr with rfl | hold
    · refine ⟨i, w.newClaim now, by rw [inserted_self]; rfl, by rw [inserted_self]; exact hnew,
        fun hdone => (by cases hdone), fun k d hd _ => ?_⟩
      rcases claim_of_inserted hd with ⟨-, rfl⟩ | ⟨-, hd⟩
      · exact le_rfl
      · exact (hi.claims k d hd).step_lt.le
    · obtain ⟨j, c, hc, hown, hbody, hlast⟩ := hi.rows r hold
      have hk := hl.kept j c hc
      refine ⟨j, c, hl.claim j c hc, hk.owns hown, fun hdone => hk.completed (hbody hdone), ?_⟩
      intro k d hd hpair
      rcases claim_of_inserted hd with ⟨rfl, -⟩ | ⟨hki, hd⟩
      · -- the key of the new claim is in no other row
        rw [inserted_self] at hpair
        exact absurd hpair.symm (hfree r hold)
      · rw [inserted_of_ne hki] at hpair
        exact hlast k d hd hpair
  · intro j k c d hc hd hpair hlt
    rcases claim_of_inserted hc with ⟨rfl, rfl⟩ | ⟨hji, hold⟩
    · -- the new claim is the last
      rcases claim_of_inserted hd with ⟨-, rfl⟩ | ⟨-, hd⟩
      · exact absurd hlt (lt_irrefl _)
      · exact absurd hlt (hi.claims k d hd).step_lt.not_gt
    · have hk := hl.kept j c hold
      rcases claim_of_inserted hd with ⟨rfl, rfl⟩ | ⟨hki, hd⟩
      · rcases (hi.claims j c hold).held with ⟨r, hr, hown⟩ | hover
        · -- its row would hold the key
          rw [inserted_of_ne hji, inserted_self] at hpair
          exact absurd (hown.pair.trans hpair) (hfree r hr)
        · exact hk.over hover le_rfl le_rfl
      · rw [inserted_of_ne hji, inserted_of_ne hki] at hpair
        exact hk.over (hi.order j k c d hold hd hpair hlt) le_rfl le_rfl
  · intro j hj
    by_cases hji : j = i
    · left
      rw [hji, inserted_self]
      exact ⟨_, rfl⟩
    · rw [inserted_of_ne hji] at hj ⊢
      exact hi.started j hj
  · intro j
    by_cases hji : j = i
    · rw [hji, inserted_self]
      exact ⟨⟨⟨_, rfl, rfl⟩, hq.releasedAt⟩, hq.outcome⟩
    · rw [inserted_of_ne hji]
      exact (hi.phase j).later hl

end Inserted

/-- The claim's insert keeps the invariant. -/
theorem Inv.insert (hi : Inv w) : Leads (Next w) (w.insert i) := by
  unfold World.insert
  split
  next round now hp =>
    split
    next keys hins =>
      exact hi.claimed hp hins
    next =>
      refine hi.phased ?_
      intro v _ hclock
      have hok := hi.phase i
      rw [PhaseOk, hp] at hok
      exact ⟨hok.1.setPhase _, hclock ▸ hok.2⟩
  next => trivial

end Steps

-- ======== every run

/-- Every step keeps the invariant. -/
theorem Inv.step (a : Act β) (w w' : World β) (hi : Inv w)
    (h : (service β).step a w = some w') : Inv w' := by
  obtain ⟨v, hv, rfl⟩ := Option.map_eq_some_iff.1 h
  cases a with
  | tick ms =>
    obtain rfl := Option.some.inj hv
    exact hi.tick ms
  | arrive i sessionId header route requestHash => exact hi.arrive.to hv
  | insert i => exact hi.insert.to hv
  | read i => exact hi.read.to hv
  | clear i => exact hi.clear.to hv
  | start i => exact hi.start.to hv
  | finish i o => exact hi.finish.to hv
  | settle i applied => exact hi.settle.to hv
  | crash i => exact hi.crash.to hv
  | prune now =>
    have hv : (if now ≤ w.clock then _ else none) = some v := hv
    split at hv
    next hnow =>
      obtain rfl := Option.some.inj hv
      exact hi.prune hnow
    next => cases hv

theorem inv_init (clock : Nat) : Inv (World.init clock : World β) where
  claims i c hc := by cases hc
  distinct i j c d hc := by cases hc
  rows r hr := by cases hr
  order i j c d hc := by cases hc
  started i hi := by cases hi
  phase i := ⟨rfl, rfl, rfl, rfl⟩

theorem inv_of_reach {w : World β} (hr : (service β).Reach (.init clock) w) :
    Inv w := hr.invariant (inv_init clock) Inv.step

end OpenWA.Idempotency

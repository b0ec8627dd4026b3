/-
A session has one owner, and the owner knows.

The first part needs nothing of the nodes; the second needs a node's
claims to run alone. The run at the end is what happens when one does not:
a heartbeat that starts after the claim took its generation reads the row
before the claim's statement writes it, concludes a loss of the claim being
made, and the row stays with a node that does not know it.
-/
import OpenWA.Ownership.Proofs.Memory

namespace OpenWA.Ownership

variable {ttl : Nat} {w w' : World} {k j : Nat}

-- ======== the statements

theorem busy_of_exec (hs : w.exec ttl k j = some w') : (w.phase k j).idle = false := by
  unfold World.exec at hs
  dsimp only at hs
  split at hs
  all_goals first
    | cases hs; done
    | rename_i hp; rw [hp]; rfl

theorem Tracked.exec (h : Tracked w) (hb : (w.phase k j).idle = false) :
    Leads Tracked (w.exec ttl k j) := by
  have hfits := h.fits k j
  have haway := h.away k j
  unfold World.exec
  dsimp only
  split
  case h_1 t gen hp =>
    have hc : (w.phase k j).claiming = true := by rw [hp]; rfl
    rw [hp] at hfits
    split
    next hm =>
      exact Tracked.renews (h.note (j := j)) hb hm _ (fun _ => hc) hfits rfl fun _ => rfl
    next hm =>
      exact h.goes hb (fun _ => hc) hfits (fun _ => hm) fun hrow => absurd hrow hm
  case h_2 t gen hp =>
    have hc : (w.phase k j).claiming = true := by rw [hp]; rfl
    rw [hp] at hfits haway
    split
    next => exact Tracked.takes (h.note (j := j)) hp
    next =>
      exact h.goes hb (fun _ => hc) hfits (fun _ => haway rfl) fun hrow => absurd hrow (haway rfl)
  case h_3 | h_7 =>
    split
    next => exact h.clears hb rfl
    next hm => exact h.leaves hb (fun hrow => absurd hrow hm) rfl rfl
  case h_4 t hp | h_8 t hp =>
    split
    next => exact h.clears hb rfl
    next => exact h.leaves hb (fun _ => by rw [hp]; rfl) rfl rfl
  case h_5 gen hp | h_10 gen hp =>
    refine h.goes hb (by intro hc; cases hc) trivial ?_ ?_
    · intro ha
      simpa [Phase.away] using ha
    · intro _ hc
      rw [hp] at hc
      cases hc
  case h_6 gen hp =>
    split
    next => exact h.clears hb rfl
    next hm =>
      exact h.goes hb (by intro hc; cases hc) trivial (fun _ => hm) fun hrow => absurd hrow hm
  case h_9 gen t hp =>
    split
    next hm =>
      refine h.renews hb hm _ (by intro hc; cases hc) trivial rfl ?_
      intro hc
      rw [hp] at hc
      cases hc
    next hm => exact h.leaves hb (fun hrow => absurd hrow hm) rfl rfl
  case h_11 => trivial

-- ======== the replies

theorem Tracked.claimRefused (h : Tracked w) (live : Bool)
    (hb : (w.phase k j).idle = false) (hrow : w.row.nodeId ≠ some k) :
    Tracked (w.claimRefused k j live) := by
  unfold World.claimRefused
  dsimp only
  split
  · exact h.leaves hb (fun hk => absurd hk hrow) rfl rfl
  · exact h.forgets hb hrow _ (by intro hc; cases hc) trivial

theorem Tracked.renewEnds (h : Tracked w) {gen : Option Nat} {kept : Bool}
    (hp : w.phase k j = .renewFound gen kept) (suspended : Bool) :
    Tracked (w.renewEnds k j gen kept suspended) := by
  have hb : (w.phase k j).idle = false := by rw [hp]; rfl
  have hcov : (w.phase k j).covers = false := by rw [hp]; rfl
  have haway := h.away k j
  rw [hp] at haway
  unfold World.renewEnds
  dsimp only
  split
  · exact h.leaves hb (fun _ => hcov) rfl rfl
  · split
    next hl =>
      simp only [Bool.and_eq_true] at hl
      exact h.forgets hb (haway hl.1.1) _ (by intro hc; cases hc) trivial
    next => exact h.leaves hb (fun _ => hcov) rfl rfl

variable {flag : Bool} {p : Phase}

theorem busy_of_reply (hs : w.reply k j flag = some w') : (w.phase k j).idle = false := by
  unfold World.reply at hs
  split at hs
  all_goals first
    | cases hs; done
    | rename_i hp; rw [hp]; rfl

section

variable (h : Tracked w)
include h

theorem Tracked.reply (hb : (w.phase k j).idle = false) : Leads Tracked (w.reply k j flag) := by
  have hfits := h.fits k j
  have haway := h.away k j
  unfold World.reply
  dsimp only
  split
  case h_1 t gen affected hp =>
    have hc : (w.phase k j).claiming = true := by rw [hp]; rfl
    rw [hp] at hfits haway
    repeat' split
    next hne => exact absurd hfits hne
    next =>
      obtain ⟨m, hm, hown⟩ := ownRenewed_eq w k
      rw [hm]
      exact h.records hb hown _
    next ha =>
      have hrow : w.row.nodeId ≠ some k := haway (by simpa [Phase.away] using ha)
      exact h.forgets hb hrow _ (fun _ => hc) rfl
  case h_2 t gen hp =>
    have hc : (w.phase k j).claiming = true := by rw [hp]; rfl
    rw [hp] at hfits haway
    split
    next hne => exact absurd hfits hne
    next =>
      exact h.goes hb (fun _ => hc) hfits (fun _ => haway rfl) fun hrow => absurd hrow (haway rfl)
  case h_3 t gen affected hp =>
    have hc : (w.phase k j).claiming = true := by rw [hp]; rfl
    rw [hp] at hfits haway
    have hgen : (w.memory k).claimGen = some gen := hfits
    rw [decide_eq_true hgen, Bool.and_true]
    refine h.goes hb (fun _ => hc) hfits haway ?_
    intro _ hcov
    rw [hp] at hcov
    exact hcov
  case h_4 t gen claimed hp =>
    rw [hp] at hfits haway
    repeat' split
    next hne => exact absurd hfits hne
    next => exact h.records hb rfl _
    next hn =>
      have hrow : w.row.nodeId ≠ some k := haway (by simpa [Phase.away] using hn)
      exact h.claimRefused flag hb hrow
  case h_5 t affected hp | h_8 held gen live hp =>
    have hcov : (w.phase k j).covers = false := by rw [hp]; rfl
    repeat' split
    all_goals exact h.leaves hb (fun _ => hcov) rfl rfl
  case h_6 gen affected hp =>
    have hcov : (w.phase k j).covers = false := by rw [hp]; rfl
    rw [hp] at haway
    repeat' split
    next => exact h.leaves hb (fun _ => hcov) rfl rfl
    next => exact h.leaves hb (fun _ => hcov) rfl rfl
    next hn =>
      have hrow : w.row.nodeId ≠ some k := haway (by simpa [Phase.away] using hn)
      exact h.forgets hb hrow _ (by intro hc; cases hc) trivial
  case h_7 gen hp =>
    have hcov : (w.phase k j).covers = false := by rw [hp]; rfl
    rw [hp] at haway
    split
    next => exact h.forgets hb (haway rfl) _ (by intro hc; cases hc) trivial
    next => exact h.leaves hb (fun _ => hcov) rfl rfl
  case h_9 gen kept hp => exact h.renewEnds hp flag
  case h_10 => trivial

-- ======== the calls

/-- A call that does not claim, made while the node has no claim in
progress. -/
theorem Tracked.called (hphase : w'.phase = (w.setPhase k j p).phase)
    (hmem : ∀ i, i ≠ k → w'.memory i = w.memory i) (hrow : w'.row = w.row)
    (hquiet : ∀ l, (w.phase k l).claiming = false) (hc : p.claiming = false) (ha : p.away = false)
    (hk : w.row.nodeId = some k →
      (w'.memory k).owned = true ∨ p.covers = true ∨ ∃ l, l ≠ j ∧ (w.phase k l).covers = true) :
    Tracked w' := by
  exact Moves.tracked h
    { phase := hphase
      memory := hmem
      row := fun i hi => .inl (hrow ▸ hi)
      others := fun l _ => hquiet l
      alone := by simp [hc]
      fits := fits_of_not_claiming hc
      away := by simp [ha]
      kept := fun hrow' => hk (hrow ▸ hrow') }

/-- A call that leaves memory as it is. -/
theorem Tracked.calls (hu : w.phase k j = .unused)
    (hquiet : ∀ l, (w.phase k l).claiming = false) (hc : p.claiming = false) (ha : p.away = false) :
    Tracked (w.setPhase k j p) := by
  refine h.called rfl (fun _ _ => rfl) rfl hquiet hc ha ?_
  refine h.kept_of_covers ?_
  intro hcov
  rw [hu] at hcov
  cases hcov

/-- A call that gives the ownership up and will clear the row. -/
theorem Tracked.gives (hquiet : ∀ l, (w.phase k l).claiming = false)
    (hc : p.claiming = false) (ha : p.away = false) (hcov : p.covers = true) :
    Tracked ((w.disown k).setPhase k j p) :=
  h.called rfl (fun _ hi => Function.update_of_ne hi _ _) rfl hquiet hc ha fun _ => .inr (.inl hcov)

theorem Tracked.releaseAll (hu : w.phase k j = .unused)
    (hquiet : ∀ l, (w.phase k l).claiming = false) (keep : Bool) :
    Tracked (w.releaseAll k j keep) := by
  unfold World.releaseAll
  split
  · exact h.gives hquiet rfl rfl rfl
  · exact h.calls hu hquiet rfl rfl

/-- What a quiet node's memory says of the row. -/
theorem Tracked.owned_of_quiet (hq : w.Quiet k)
    (hrow : w.row.nodeId = some k) : (w.memory k).owned = true := by
  obtain ho | ⟨j, hj⟩ := h.kept k hrow
  · exact ho
  · rw [not_covers_of_idle (hq j)] at hj
    cases hj

end

theorem not_claiming_of_quiet (hq : w.Quiet k) (l : Nat) : (w.phase k l).claiming = false := by
  cases hc : (w.phase k l).claiming with
  | false => rfl
  | true =>
    have hidle := hq l
    rw [not_idle_of_claiming hc] at hidle
    cases hidle

/-- A claim called on a quiet node. -/
theorem Tracked.claim (h : Tracked w) (hq : w.Quiet k) : Tracked (w.claim k j) := by
  unfold World.claim
  dsimp only
  split
  next =>
    exact Moves.tracked h
      { phase := rfl
        memory := fun _ _ => rfl
        row := fun _ hi => .inl hi
        others := fun l _ => not_claiming_of_quiet hq l
        alone := fun _ l _ => hq l
        fits := rfl
        away := by intro ha; cases ha
        kept := fun hrow => .inl (h.owned_of_quiet hq hrow) }
  next hn =>
    have hrow : w.row.nodeId ≠ some k := by
      intro hrow
      rw [h.owned_of_quiet hq hrow] at hn
      exact hn rfl
    refine Moves.tracked h
      { phase := rfl
        memory := fun i hi => Function.update_of_ne hi _ _
        row := fun _ hi => .inl hi
        others := fun l _ => not_claiming_of_quiet hq l
        alone := fun _ l _ => hq l
        fits := ?_
        away := fun _ => hrow
        kept := fun hk => absurd hk hrow }
    exact congrArg Memory.claimGen (memory_setMemory w k _)

/-- Every step keeps the memory with the row, if claims run alone. -/
theorem Tracked.step (a : Act) (h : Tracked w) (hg : ClaimsAlone a w)
    (hs : (system ttl).step a w = some w') : Tracked w' := by
  cases a with
  | tick | setDesired =>
    obtain rfl := Option.some.inj hs
    exact { h with }
  | claim k j => exact (leads_begin fun _ => h.claim hg).to hs
  | release k j => exact (leads_begin fun _ => h.gives hg rfl rfl rfl).to hs
  | releaseAll k j keep => exact (leads_begin fun hu => h.releaseAll hu hg keep).to hs
  | releaseOwned | stop | renew => exact (leads_begin fun hu => h.calls hu hg rfl rfl).to hs
  | exec k j => exact (h.exec (busy_of_exec hs)).to hs
  | reply k j flag => exact (h.reply (busy_of_reply hs)).to hs

theorem tracked_of_reach
    (hr : ((system ttl).restrict ClaimsAlone).Reach World.init w) : Tracked w := by
  refine hr.invariant tracked_init ?_
  intro a t t' h hs
  obtain ⟨hg, hs⟩ := Machine.restrict_step.mp hs
  exact h.step a hg hs

-- ======== the frame

/-- The operation an action is about. -/
def Act.op : Act → Option (Nat × Nat)
  | .tick => none
  | .setDesired _ => none
  | .claim k j => some (k, j)
  | .release k j => some (k, j)
  | .releaseOwned k j _ => some (k, j)
  | .releaseAll k j _ => some (k, j)
  | .stop k j => some (k, j)
  | .renew k j _ => some (k, j)
  | .exec k j => some (k, j)
  | .reply k j _ => some (k, j)

/-- Operation `j` of node `k` moves, and no other. -/
def MovesOnly (w : World) (k j : Nat) (w' : World) : Prop :=
  ∃ p, w'.phase = (w.setPhase k j p).phase

theorem movesOnly_exec : Leads (MovesOnly w k j) (w.exec ttl k j) := by
  unfold World.exec
  dsimp only
  repeat' split
  all_goals first
    | exact ⟨_, rfl⟩
    | trivial

theorem movesOnly_reply : Leads (MovesOnly w k j) (w.reply k j flag) := by
  unfold World.reply World.ownRenewed World.claimRefused World.renewEnds
  dsimp only
  repeat' split
  all_goals first
    | exact ⟨_, rfl⟩
    | trivial

/-- A step moves no operation but its own. -/
theorem movesOnly_step (a : Act) : Leads (fun w' => w'.phase = w.phase
    ∨ ∃ k j, a.op = some (k, j) ∧ MovesOnly w k j w') (World.step ttl a w) := by
  cases a with
  | tick | setDesired => exact .inl rfl
  | claim k j =>
    refine leads_begin fun _ => .inr ⟨k, j, rfl, ?_⟩
    unfold World.claim
    dsimp only
    split <;> exact ⟨_, rfl⟩
  | releaseAll k j keep =>
    refine leads_begin fun _ => .inr ⟨k, j, rfl, ?_⟩
    unfold World.releaseAll
    split <;> exact ⟨_, rfl⟩
  | release k j | releaseOwned k j | stop k j | renew k j =>
    exact leads_begin fun _ => .inr ⟨k, j, rfl, _, rfl⟩
  | exec k j => exact movesOnly_exec.imp fun _ h => .inr ⟨k, j, rfl, h⟩
  | reply k j flag => exact movesOnly_reply.imp fun _ h => .inr ⟨k, j, rfl, h⟩

/-- A step moves no other operation. -/
theorem step_phase_other (a : Act) (hs : (system ttl).step a w = some w')
    {i l : Nat} (ha : a.op ≠ some (i, l)) : w'.phase i l = w.phase i l := by
  rcases (movesOnly_step a).to hs with hphase | ⟨k, j, hop, p, hphase⟩
  · rw [hphase]
  · rw [hphase, phase_setPhase, if_neg]
    rintro ⟨rfl, rfl⟩
    exact ha hop

/-- After a schedule a node is quiet if the operations below `n` are and
the schedule has no others of that node. -/
theorem quiet_of_run {acts : List Act} (n : Nat) (h : (system ttl).run World.init acts = some w)
    (hacts : ∀ a ∈ acts, ∀ o ∈ a.op, o.1 = k → o.2 < n)
    (hn : ∀ j, j < n → (w.phase k j).idle = true) : w.Quiet k := by
  intro j
  by_cases hj : j < n
  · exact hn j hj
  · have hframe := Machine.eq_of_run h (fun v : World => v.phase k j) fun a ha t t' hs =>
        step_phase_other a hs fun hop => hj (hacts a ha (k, j) hop rfl)
    rw [hframe]
    rfl

-- ======== the result

/-- A live lease is the row's. -/
theorem Leased.nodeId_of_live (h : Leased w) (hl : w.Live k) : w.row.nodeId = some k := by
  obtain ⟨e, he, hlt⟩ := hl
  exact (h.row_of_live k e he hlt).1

/-- In every interleaving of all nodes' operations a claim that succeeded
found the row unowned, its own or lapsed, and no two nodes have a live
lease. If each node's claims run alone on that node, a node at rest owns in
memory what the row says it owns. -/
theorem session_single_owner (ttl : Nat) (w : World)
    (hr : (system ttl).Reach World.init w) :
    (∀ k j, w.phase k j = .done (some true) →
      ∃ row t, w.found k j = some (row, t) ∧ row.Takeable k t) ∧
    (∀ k, w.Live k → w.row.nodeId = some k) ∧
    (∀ i k, w.Live i → w.Live k → i = k) ∧
    (((system ttl).restrict ClaimsAlone).Reach World.init w →
      ∀ k, w.Quiet k →
        (w.row.nodeId = some k → (w.memory k).owned = true) ∧
        (w.Live k → ((w.memory k).owned = true ↔ w.row.nodeId = some k))) := by
  have h := leased_of_reach hr
  refine ⟨?_, fun k hl => h.nodeId_of_live hl, ?_, ?_⟩
  · intro k j hp
    exact h.found k j (by rw [hp]; rfl)
  · intro i k hi hk
    have hrow := h.nodeId_of_live hi
    rw [h.nodeId_of_live hk] at hrow
    exact (Option.some.inj hrow).symm
  · intro hr' k hq
    have ht := tracked_of_reach hr'
    refine ⟨ht.owned_of_quiet hq, ?_⟩
    intro hl
    exact ⟨fun _ => h.nodeId_of_live hl, ht.owned_of_quiet hq⟩

/-- A first claim, at rest and live: the row names the node, and memory
agrees. -/
theorem session_single_owner_claimed :
    ∃ w, (system 5).Reach World.init w ∧ w.Quiet 0 ∧ w.Live 0 ∧
      ((w.memory 0).owned = true ↔ w.row.nodeId = some 0) ∧ w.row.nodeId = some 0 := by
  let acts : List Act :=
    [.claim 0 0, .reply 0 0 false, .exec 0 0, .reply 0 0 false, .reply 0 0 false]
  obtain ⟨w, hr, hrun, hidle, hl⟩ : ∃ w,
      ((system 5).restrict ClaimsAlone).Reach World.init w ∧
      (system 5).run World.init acts = some w ∧ (w.phase 0 0).idle = true ∧ w.Live 0 := by
    refine ⟨_, ?_, rfl, rfl, 5, rfl, by decide⟩
    have hquiet : World.init.Quiet 0 := fun _ => rfl
    exact .step (.reply 0 0 false)
        (.step (.reply 0 0 false)
          (.step (.exec 0 0)
            (.step (.reply 0 0 false)
              (.step (.claim 0 0) .refl (Machine.restrict_step.mpr ⟨hquiet, rfl⟩))
              (Machine.restrict_step.mpr ⟨trivial, rfl⟩))
            (Machine.restrict_step.mpr ⟨trivial, rfl⟩))
          (Machine.restrict_step.mpr ⟨trivial, rfl⟩)) (Machine.restrict_step.mpr ⟨trivial, rfl⟩)
  have hq : w.Quiet 0 := by
    refine quiet_of_run 1 hrun (by decide) ?_
    intro j hj
    obtain rfl : j = 0 := by omega
    exact hidle
  obtain ⟨_, hlive, _, halone⟩ := session_single_owner 5 w hr.of_restrict
  exact ⟨w, hr.of_restrict, hq, hl, (halone hr 0 hq).2 hl, hlive 0 hl⟩

/-- Node 0's lease lapses, node 1 takes the session and releases it. Node 0
then claims it again while a heartbeat of its own runs: the heartbeat reads
the row before the claim's statement, and its reply disowns the claim. -/
theorem claim_lost_in_renew :
    ∃ w, (system 1).Reach World.init w ∧ w.Quiet 0 ∧ w.Live 0 ∧
      w.row.nodeId = some 0 ∧ (w.memory 0).owned = false := by
  let acts : List Act :=
    [.claim 0 0, .reply 0 0 false, .exec 0 0, .reply 0 0 false,
      .reply 0 0 false, .tick, .tick,
      .claim 1 0, .reply 1 0 false, .exec 1 0, .reply 1 0 false,
      .reply 1 0 false, .release 1 1, .exec 1 1, .reply 1 1 false,
      .claim 0 1, .exec 0 1, .reply 0 1 false, .reply 0 1 false,
      .renew 0 2 true, .reply 0 2 false, .exec 0 2, .exec 0 2,
      .exec 0 1, .reply 0 2 false, .reply 0 1 false, .reply 0 1 false]
  let test : World → Bool := fun w =>
    (w.phase 0 0).idle && (w.phase 0 1).idle && (w.phase 0 2).idle
      && w.lease 0 = some 3 && w.now = 2 && w.row.nodeId = some 0 && (w.memory 0).owned = false
  have hany : ((system 1).run World.init acts).any test = true := by
    decide +kernel
  obtain ⟨w, hrun, ht⟩ := (Option.any_eq_true _ _).mp hany
  simp only [test, Bool.and_eq_true, decide_eq_true_eq] at ht
  obtain ⟨⟨⟨⟨⟨⟨h0, h1⟩, h2⟩, hlease⟩, hnow⟩, hrow⟩, hown⟩ := ht
  have hq : w.Quiet 0 := by
    refine quiet_of_run 3 hrun (by decide) ?_
    intro j hj
    obtain rfl | rfl | rfl : j = 0 ∨ j = 1 ∨ j = 2 := by omega
    · exact h0
    · exact h1
    · exact h2
  exact ⟨w, Machine.reach_of_run hrun, hq, ⟨3, hlease, by omega⟩, hrow, hown⟩

end OpenWA.Ownership

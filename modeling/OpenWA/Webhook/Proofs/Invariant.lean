/-
The invariant of a webhook delivery among its owners.

# Certificates

The outbox row lets its payload go only in `close`. Every way to a close
passes something that accounts for the delivery for good — the receiver's
success, a cancellation, an undeliverable webhook — or a failure row
(`Certified`). The first three are never taken back. Failure rows are:
after a success all of them go, and after a terminal record the rows of
unsent attempts go. The first is certified by the success itself, the
second by the terminal row (`Recorded`), which only a success removes.

So a certificate, once had, is had for ever (`Later.certified`), and a
party may carry it across its awaits: that is all `PhaseOk` says.
-/
import OpenWA.Webhook.World

namespace OpenWA.Webhook

variable {w v : World} {k j : Nat} {p : Phase}

-- ======== vocabulary

/-- The receiver or the lookup has decided the delivery. -/
def Answered (w : World) : Prop := w.delivered = true ∨ w.undeliverable = true

/-- The delivery is accounted for without its outbox row. -/
def Certified (w : World) : Prop :=
  w.delivered = true ∨ w.cancelled = true ∨ w.undeliverable = true ∨ w.failures ≠ []

/-- A terminal failure row is there, or was removed by a success. -/
def TerminalKept (w : World) : Prop := w.delivered = true ∨ w.failures.any Failure.terminal = true

/-- The delivery is not lost. -/
def Safe (w : World) : Prop := Certified w ∨ w.findStale.isSome = true

/-- What a recorder may rely on at a statement. -/
def StageOk (w : World) : Stage → Prop
  | .counting | .inserting | .refreshing => True
  | .touching => Certified w
  | .retaining | .clearing _ => TerminalKept w

/-- What may follow a close. -/
def ThenOk (w : World) : Then → Prop
  | .done | .failJob _ => True
  | .complete _ => Answered w
  | .clear _ => w.delivered = true

/-- What a party may rely on at its next await. -/
def PhaseOk (w : World) : Phase → Prop
  | .clearing _ | .jobClearing _ => w.delivered = true
  | .recording _ _ stage => StageOk w stage
  | .closing _ next => Certified w ∧ ThenOk w next
  | .sweeping _ _ .retain => TerminalKept w
  | _ => True

/-- What holds between the row, the parties and the jobs. -/
structure Inv (w : World) : Prop where
  safe : w.opened = true → Safe w
  phase : ∀ k, PhaseOk w (w.parties k)
  /-- A completed job has decided the delivery. -/
  completed : ∀ j job, w.jobs j = some job → job.state = .completed → Answered w

theorem inv_init : Inv .init where
  safe := by
    intro ho
    cases ho
  phase := fun _ => trivial
  completed := by
    intro j job hj
    cases hj

-- ======== certificates

theorem Answered.certified (h : Answered w) : Certified w := by
  rcases h with hd | hu
  · exact .inl hd
  · exact .inr (.inr (.inl hu))

theorem certified_of_delivered (h : w.delivered = true) : Certified w := .inl h

theorem TerminalKept.certified (h : TerminalKept w) : Certified w := by
  rcases h with hd | ht
  · exact .inl hd
  · right; right; right
    intro hnil
    rw [hnil] at ht
    cases ht

/-- What a later world has kept. -/
structure Later (w v : World) : Prop where
  delivered : w.delivered = true → v.delivered = true
  answered : Answered w → Answered v
  certified : Certified w → Certified v
  terminal : TerminalKept w → TerminalKept v

theorem StageOk.later {stage : Stage} (hl : Later w v) (h : StageOk w stage) : StageOk v stage := by
  cases stage with
  | counting => trivial
  | touching => exact hl.certified h
  | inserting | refreshing => trivial
  | retaining | clearing => exact hl.terminal h

theorem ThenOk.later {next : Then} (hl : Later w v) (h : ThenOk w next) : ThenOk v next := by
  cases next with
  | done => trivial
  | complete => exact hl.answered h
  | clear => exact hl.delivered h
  | failJob => trivial

theorem PhaseOk.later (hl : Later w v) (h : PhaseOk w p) : PhaseOk v p := by
  cases p with
  | clearing | jobClearing => exact hl.delivered h
  | recording => exact StageOk.later hl h
  | closing => exact ⟨hl.certified h.1, ThenOk.later hl h.2⟩
  | sweeping copy data check =>
    cases check with
    | retain => exact hl.terminal h
    | _ => trivial
  | _ => trivial

/-- One party moves; the rest is kept or accounted for. -/
theorem Inv.move (h : Inv w) (hl : Later w v) (hparties : v.parties = Function.update w.parties k p)
    (hp : PhaseOk v p) (hsafe : v.opened = true → Safe v)
    (hjobs : ∀ j job, v.jobs j = some job → job.state = .completed → Answered v) : Inv v where
  safe := hsafe
  phase := by
    intro k'
    rw [hparties]
    by_cases hk : k' = k
    · subst hk
      rw [Function.update_self]
      exact hp
    · rw [Function.update_of_ne hk]
      exact PhaseOk.later hl (h.phase k')
  completed := hjobs

/-- The history and the failure rows decide what is kept; of these, the
terminal ones stay. -/
theorem Later.of_fields (hd : w.delivered = true → v.delivered = true)
    (hc : w.cancelled = true → v.cancelled = true)
    (hu : w.undeliverable = true → v.undeliverable = true) (hne : w.failures ≠ [] → v.failures ≠ [])
    (ht : w.failures.any Failure.terminal = true →
      v.failures.any Failure.terminal = true) : Later w v where
  delivered := hd
  answered := by
    intro h
    rcases h with h | h
    · exact .inl (hd h)
    · exact .inr (hu h)
  certified := by
    intro h
    rcases h with h | h | h | h
    · exact .inl (hd h)
    · exact .inr (.inl (hc h))
    · exact .inr (.inr (.inl (hu h)))
    · exact .inr (.inr (.inr (hne h)))
  terminal := by
    intro h
    rcases h with h | h
    · exact .inl (hd h)
    · exact .inr (ht h)

/-- After a success the rows may go. -/
theorem Later.of_delivered {fs : List Failure} (hd : w.delivered = true) :
    Later w { w with failures := fs } where
  delivered := id
  answered := id
  certified := fun _ => .inl hd
  terminal := fun _ => .inl hd

theorem findStale_isSome : w.findStale.isSome = true ↔ ∃ r, w.row = some r ∧ r.stale = true := by
  simp only [World.findStale, Option.isSome_iff_exists, Option.filter_eq_some_iff]

theorem Safe.later (hl : Later w v) (hrow : v.row = w.row) (h : Safe w) : Safe v := by
  rcases h with hc | hs
  · exact .inl (hl.certified hc)
  · right
    unfold World.findStale at hs ⊢
    rw [hrow]
    exact hs

/-- A party moves, and neither the outbox row nor the queue changes. -/
theorem Inv.quiet (h : Inv w) (hl : Later w v)
    (hparties : v.parties = Function.update w.parties k p) (hp : PhaseOk v p) (hrow : v.row = w.row)
    (hopened : v.opened = w.opened) (hjobs : v.jobs = w.jobs) : Inv v := by
  apply h.move hl hparties hp
  · intro ho
    rw [hopened] at ho
    exact Safe.later hl hrow (h.safe ho)
  · intro j job hj hc
    rw [hjobs] at hj
    exact hl.answered (h.completed j job hj hc)

theorem Inv.phaseOk (h : Inv w) (hk : w.parties k = p) : PhaseOk w p := hk ▸ h.phase k

/-- Only the party moves. -/
theorem Inv.setPhase (h : Inv w) (hp : PhaseOk w p) : Inv (w.setPhase k p) := by
  have hl : Later w (w.setPhase k p) := Later.of_fields id id id id id
  exact h.quiet hl rfl (PhaseOk.later hl hp) rfl rfl rfl

/-- The same under a new delivery id. -/
theorem Inv.mintPhase (h : Inv w) (hp : PhaseOk w p) : Inv (w.mint.setPhase k p) := by
  have hl : Later w (w.mint.setPhase k p) := Later.of_fields id id id id id
  exact h.quiet hl rfl (PhaseOk.later hl hp) rfl rfl rfl

/-- The outbox row changes and stays a row the sweep finds. -/
theorem Inv.setRow {f : OutboxRow → OutboxRow}
    (hf : ∀ r, r.stale = true → (f r).stale = true) (h : Inv w) :
    Inv { w with row := w.row.map f } where
  safe := by
    intro ho
    rcases h.safe ho with hc | hs
    · exact .inl hc
    · obtain ⟨r, hr, hstale⟩ := findStale_isSome.mp hs
      exact .inr (findStale_isSome.mpr ⟨f r, by rw [hr]; rfl, hf r hstale⟩)
  phase := by
    intro k
    exact PhaseOk.later (Later.of_fields id id id id id) (h.phase k)
  completed := h.completed

/-- Queue jobs change, and none is completed by it. -/
theorem Inv.setJobs {jobs : Nat → Option Job} (h : Inv w)
    (hjobs : ∀ j job, jobs j = some job → job.state = .completed →
      (∃ job', w.jobs j = some job' ∧ job'.state = .completed)
        ∨ Answered w) : Inv { w with jobs } where
  safe := h.safe
  phase := by
    intro k
    exact PhaseOk.later (Later.of_fields id id id id id) (h.phase k)
  completed := by
    intro j job hj hc
    rcases hjobs j job hj hc with ⟨job', hj', hc'⟩ | ha
    · exact h.completed j job' hj' hc'
    · exact ha

/-- One job's entry in the queue changes. -/
theorem Inv.updateJob {e : Option Job} (h : Inv w)
    (he : ∀ job, e = some job → job.state = .completed → Answered w) :
    Inv { w with jobs := Function.update w.jobs j e } := by
  apply h.setJobs
  intro j' job hj' hc
  by_cases hj : j' = j
  · subst hj
    rw [Function.update_self] at hj'
    exact .inr (he job hj' hc)
  · rw [Function.update_of_ne hj] at hj'
    exact .inl ⟨job, hj', hc⟩

theorem Inv.setJob {state : JobState} (h : Inv w)
    (hs : state = .completed → Answered w) : Inv (w.setJob j state) := by
  apply h.updateJob
  intro job hjob hc
  obtain ⟨job', -, rfl⟩ := Option.map_eq_some_iff.1 hjob
  exact hs hc

/-- The outcomes that retire a delivery are certified. -/
theorem phaseOk_finish {t : Task} {outcome : WebhookDeliveryOutcome}
    (h : outcome ≠ .enqueued → outcome ≠ .unrecorded → Certified w) :
    PhaseOk w (World.finish t outcome) := by
  unfold World.finish
  split
  next => trivial
  next => trivial
  next hu he => exact ⟨h he hu, trivial⟩
  next => exact ⟨h (by decide) (by decide), trivial⟩
  next => exact ⟨h (by decide) (by decide), trivial⟩
  next => trivial
  next => exact ⟨h (by decide) (by decide), trivial⟩
  next => trivial
  next => trivial

end OpenWA.Webhook

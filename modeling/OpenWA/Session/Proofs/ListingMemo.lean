/-
What the pages of a walk share: the session's entry is that of its latest
load, which began after its last drop, and only its own timer may remove it.
-/
import OpenWA.Lib.Update
import OpenWA.Session.ListingMemo

namespace OpenWA.Session.ListingMemo

open Function (update update_self update_of_ne)

variable {w : World} {sessionId : Text} {offset : Option Int} {load ttlMs : Nat}

/-- What is known of the entry of a session. -/
structure Kept (w : World) (sessionId : Text) (entry : Entry) : Prop where
  made : entry.load < w.next
  session : w.session entry.load = sessionId
  drops : entry.drops = w.drops sessionId
  latest : ∀ r ∈ w.reads, r.sessionId = sessionId → r.entry.load ≤ entry.load
  pending : w.pending entry.load = true ↔ entry.expiresAt = none
  timed : w.evictor entry.load = entry.expiresAt

/-- A read and one before it. -/
def Read.Follows (r r' : Read) : Prop :=
  (r'.sessionId = r.sessionId → r'.entry.load ≤ r.entry.load) ∧
    (r.offset.getD 0 ≤ 0 → r'.entry.load < r.entry.load)

/-- The list a read answers is its session's, its load began after the last
drop before the read, and it had not expired. -/
def World.Fresh (w : World) (r : Read) : Prop :=
  r.entry.load < w.next ∧ w.session r.entry.load = r.sessionId ∧ r.entry.drops = r.drops ∧
    ∀ t, r.entry.expiresAt = some t → r.time < t

/-- Entries, timers and answers belong to each other. -/
structure Inv (w : World) : Prop where
  kept : ∀ s entry, w.entries s = some entry → Kept w s entry
  timer : ∀ load, w.evictor load ≠ none →
    ∃ entry, w.entries (w.session load) = some entry ∧ entry.load = load
  fresh : ∀ r ∈ w.reads, w.Fresh r
  order : w.reads.Pairwise Read.Follows

attribute [local grind cases] Kept Inv
attribute [local grind =] Function.update_apply

theorem Inv.new : Inv World.new := by
  constructor <;> simp [World.new]

theorem Inv.answer (h : Inv w) {entry : Entry} (hin : w.entries sessionId = some entry)
    (hlive : ∀ t, entry.expiresAt = some t → w.now < t)
    (hfirst : offset.getD 0 ≤ 0 → ∀ r ∈ w.reads, r.entry.load < entry.load) :
    Inv (w.answer sessionId offset entry) := by
  have hk := h.kept _ _ hin
  refine ⟨fun s e he => ?_, h.timer, ?_, ?_⟩
  · have hk' := h.kept s e he
    refine { hk' with latest := ?_ }
    grind [World.answer]
  · exact List.forall_mem_cons.mpr ⟨⟨hk.made, hk.session, hk.drops, hlive⟩, h.fresh⟩
  · exact List.pairwise_cons.mpr ⟨fun r hr => ⟨hk.latest r hr, fun ho => hfirst ho r hr⟩, h.order⟩

/-- A session's entry leaves the map with its timer. -/
theorem Inv.remove (h : Inv w) {evictor : Nat → Option Nat}
    (hsub : ∀ l, evictor l = w.evictor l ∨ evictor l = none ∧ w.session l = sessionId)
    (hout : ∀ entry, w.entries sessionId = some entry → evictor entry.load = none) :
    Inv { w with entries := update w.entries sessionId none, evictor := evictor } := by
  refine ⟨fun s e he => ?_, by grind, h.fresh, h.order⟩
  dsimp only at he
  constructor <;> grind

theorem Inv.clearEvictor (h : Inv w) (sessionId : Text) :
    Inv { w.clearEvictor sessionId with
      entries := update (w.clearEvictor sessionId).entries sessionId none } := by
  unfold World.clearEvictor
  split
  next entry hin =>
    have hk := h.kept _ _ hin
    exact h.remove (by grind) (by grind)
  next hnone => exact h.remove (fun _ => .inl rfl) (by grind)

theorem Inv.install (h : Inv { w with entries := update w.entries sessionId none }) :
    Inv (w.install sessionId) := by
  unfold World.install
  refine ⟨fun s e he => ?_, ?_, ?_, h.order⟩
  · rcases of_update he with ⟨rfl, hnew⟩ | ⟨hne, he⟩
    · cases hnew
      constructor <;> grind [World.Fresh]
    · have hk := h.kept s e ((update_of_ne hne ..).trans he)
      constructor <;> grind
  · grind
  · grind [World.Fresh]

theorem Inv.read (h : Inv w) : Inv (w.read sessionId offset) := by
  unfold World.read
  split
  next entry hentry =>
    obtain ⟨hin, hlive⟩ := Option.filter_eq_some_iff.mp hentry
    simp only [Bool.and_eq_true, decide_eq_true_eq, Option.all_eq_true] at hlive
    exact h.answer hin hlive.2 fun ho => absurd ho (by omega)
  next =>
    have hclear := h.clearEvictor sessionId
    exact hclear.install.answer (update_self ..) (by simp) fun _ r hr => (hclear.fresh r hr).1

/-- The callbacks of a load whose entry is not in the map. -/
theorem Inv.done (h : Inv w)
    (hout : ∀ entry, w.entries (w.session load) = some entry → entry.load ≠ load) :
    Inv { w with pending := update w.pending load false } := by
  refine ⟨fun s e he => ?_, h.timer, h.fresh, h.order⟩
  have hk := h.kept s e he
  exact { hk with pending := by grind }

theorem Inv.handle (h : Inv w) {resolved : Bool} : Leads Inv (w.handle ttlMs load resolved) := by
  unfold World.handle
  refine .guard fun hpending => ?_
  dsimp only
  split
  next entry hin =>
    have hk := h.kept _ _ hin
    split
    · exact h.done (by grind)
    · split
      · refine ⟨fun s e he => ?_, ?_, h.fresh, h.order⟩
        · dsimp only at he
          constructor <;> grind
        · grind
      · exact (h.remove (fun _ => .inl rfl) (by grind)).done (by grind)
  next => exact h.done (by grind)

/-- Every step keeps the invariant. -/
theorem Inv.step (h : Inv w) (a : Act) : Leads Inv ((memo ttlMs).step a w) := by
  cases a with
  | tick ms => exact ⟨fun s e he => { h.kept s e he with }, h.timer, h.fresh, h.order⟩
  | read sessionId offset => exact h.read
  | drop sessionId =>
    have hclear := h.clearEvictor sessionId
    refine ⟨fun s e he => ?_, hclear.timer, hclear.fresh, hclear.order⟩
    have hk := hclear.kept s e he
    refine { hk with drops := hk.drops.trans (update_of_ne ?_ ..).symm }
    rintro rfl
    cases (update_self ..).symm.trans he
  | handle load resolved => exact h.handle
  | evict load =>
    refine .guard fun hdue => ?_
    have hset : w.evictor load ≠ none := by grind
    exact h.remove (by grind) (by grind)

-- ======== the result

/-- No page answers a list of another session, one whose load began before a
drop, or one that has expired. A later read of a session never answers an
older list, and one that starts a walk answers a new one. Of the lists that
were loaded only the latest is kept, with its timer, and no other timer is set. -/
theorem listing_memo (hr : (memo ttlMs).Reach World.new w) :
    (∀ r ∈ w.reads, w.Fresh r) ∧ w.reads.Pairwise Read.Follows ∧
    (∀ s entry, w.entries s = some entry → Kept w s entry) ∧
    ∀ load, w.evictor load ≠ none →
      ∃ entry, w.entries (w.session load) = some entry ∧ entry.load = load := by
  have h : Inv w := hr.leads Inv.new fun a _ h => h.step a
  exact ⟨h.fresh, h.order, h.kept, h.timer⟩

/-- Two pages share a list; the page after a drop has one of its own. -/
theorem listing_memo_walk : ∃ w, (memo listingMemoTtlMs).Reach World.new w ∧
    w.reads.map (·.entry.load) = [1, 0, 0] ∧ w.reads.Pairwise Read.Follows := by
  obtain ⟨w, hr, hw⟩ := Machine.exists_reach_of_run (M := memo listingMemoTtlMs) World.new
    [.read ['s'] none, .handle 0 true, .tick 4999, .read ['s'] (some 1000), .drop ['s'],
      .read ['s'] (some 2000)]
    (fun w => decide (w.reads.map (·.entry.load) = [1, 0, 0])) (by decide +kernel)
  exact ⟨w, hr, of_decide_eq_true hw, (listing_memo hr).2.1⟩

end OpenWA.Session.ListingMemo

/-
What a step of the lid store does, said once.

# The kinds of step

A step is a quiet one, and then at most one move of a write or a warm-up
(`Does`). A quiet step begins no write and touches no warm-up: operations go
on, rows are set, a write settles (`Quiet`). An edit of the store leaves the
unsettled writes and the warm-ups alone and writes to the mirror what its
`Call` does (`Edits`); an operation that goes on keeps the record it holds,
its role and answers that agree with the store (`Passes`). `does_step` goes
through the branches of the code, and every invariant of the store is kept
by the quiet steps and by each move.
-/
import OpenWA.Identity.LidDirectory
import OpenWA.Identity.Proofs.LidMoves

namespace OpenWA.Lid

open Function (update update_self update_of_ne)

/-- The answer gives the lid no phone but this one. -/
def Answer.agrees (lid phone : Nat) : Answer → Prop
  | .nothing => True
  | .phone x p => x = lid → p = none ∨ p = some phone
  | .phones out => out lid = none ∨ out lid = some phone
  | .lids out => ∀ p, lid ∈ out p → p = phone

/-- So do the answers a lookup has gathered. -/
def Phase.agrees (lid phone : Nat) : Phase → Prop
  | .findingPhones out _ _ => out lid = none ∨ out lid = some phone
  | .foundPhones out _ _ _ => out lid = none ∨ out lid = some phone
  | .phonesRefused out => out lid = none ∨ out lid = some phone
  | .findingLids _ out _ _ => ∀ p, lid ∈ out p → p = phone
  | .foundLids _ out _ _ => ∀ p, lid ∈ out p → p = phone
  | .done a => a.agrees lid phone
  | _ => True

/-- The store holds a phone for a lid whose row may be behind. -/
structure Store.Fences (s : Store) (lid phone : Nat) : Prop where
  unstored : s.unstored lid = true
  cached : s.cached lid = some (some phone)

-- ======== the kinds

/-- The store changes, but for its writes and warm-ups, and the mirror as
the call says. -/
structure Edits (c : Call) (s s' : Store) : Prop extends Tame s s' where
  mirror : ∀ lid, s'.cached lid = (s.calls c).cached lid
  sound : ∀ cap, s.Sound cap → s'.Sound cap

/-- An operation goes on with the record it holds and agreeing answers. -/
structure Passes (F : Prop) (s : Store) (p p' : Phase) : Prop where
  write : p'.write = p.write
  goes : ∀ s', Goes F s' p p'
  agrees : ∀ lid phone, s.Fences lid phone → p.agrees lid phone → p'.agrees lid phone

/-- An operation moves on: a write is held until it settles, and a lookup
gathers answers that agree with the store. -/
structure Turn (s : Store) (p p' : Phase) : Prop where
  write : ∀ x, p.write = some x → p'.write = some x ∨ p' = .done .nothing
  agrees : ∀ lid phone, s.Fences lid phone → p.agrees lid phone → p'.agrees lid phone

/-- A step with its call, `F` as in `Goes`. -/
structure Quiet (F : Prop) (c : Call) (w w' : World) : Prop where
  calm : Calmly F w w'
  opens : Open w → Open w'
  mirror : ∀ lid, w'.store.cached lid = (w.store.calls c).cached lid
  sound : ∀ cap, w.store.Sound cap → w'.store.Sound cap
  turn : ∀ i, Turn w.store (w.phase i) (w'.phase i)

/-- A write begins, or a warm-up moves. -/
inductive Moves (w : World) : World → Prop
  | stays : Moves w w
  | begins {j lid : Nat} {operation : Operation} {actual : Bool} {p : Phase}
      (hu : (w.phase j).isUnused = true)
      (hw : p.write = some (lid, (w.store.beginWrite lid operation actual).1))
      (hwarms : p.warms = none)
      (hreports : ∀ x, p.reports = some x → x = lid ∧ (w.store.cached lid).isSome = true)
      (hagrees : ∀ lid phone, p.agrees lid phone) :
      Moves w ((w.setStore (w.store.beginWrite lid operation actual).2).setPhase j p)
  /-- A lookup that misses starts a warm-up. -/
  | warms {spare lid : Nat} (hu : (w.phase spare).isUnused = true)
      (hp : w.store.pendingLookups lid = false) :
      Moves w ((w.setStore
        { w.store with pendingLookups := update w.store.pendingLookups lid true }).setPhase
          spare (.warming lid (w.store.unsettledWrites lid).isSome))
  | reads {j lid : Nat} {inFlight : Bool} (hp : w.phase j = .warming lid inFlight) :
      Moves w (w.setPhase j (.warmed lid inFlight (w.table.get lid)))
  | refuses {j lid : Nat} {inFlight : Bool} (hp : w.phase j = .warming lid inFlight) :
      Moves w (w.setPhase j (.warmRefused lid))
  /-- A warm-up ends with what it found, or without an effect. -/
  | ends {j lid : Nat} (hp : (w.phase j).warms = some lid) :
      Moves w ((w.setStore { w.store with
        pendingLookups := update w.store.pendingLookups lid false
        racedLookups := update w.store.racedLookups lid false }).setPhase j (.done .nothing))
  /-- A warm-up that was not raced found no row. -/
  | notes {j lid : Nat} (hp : w.phase j = .warmed lid false none)
      (hraced : w.store.racedLookups lid = false) (hc : w.store.cached lid = none) :
      Moves w ((w.setStore { w.store.noteAbsent lid with
        pendingLookups := update (w.store.noteAbsent lid).pendingLookups lid false
        racedLookups := update (w.store.noteAbsent lid).racedLookups lid false }).setPhase j
          (.done .nothing))

/-- What a step does. -/
inductive Does (F : Prop) (c : Call) (w w' : World) : Prop
  | intro (v : World) (quiet : Quiet F c w v) (moves : Moves v w')

-- ======== the edits

variable {F : Prop} {c : Call} {a : Act} {w w' : World} {s s' : Store} {p p' : Phase}
  {j lid spare : Nat} {phone session : Option Nat}

theorem Edits.refl (s : Store) : Edits .none s s := ⟨.refl s, fun _ => rfl, fun _ => id⟩

theorem Edits.trans {s'' : Store} (h : Edits c s s') (h' : Edits .none s' s'') : Edits c s s'' :=
  ⟨h.toTame.trans h'.toTame, fun x => (h'.mirror x).trans (h.mirror x),
    fun cap hs => h'.sound cap (h.sound cap hs)⟩

theorem Edits.ite {b : Bool} (h : b = true → Edits .none s s') :
    Edits .none s (if b = true then s' else s) := by
  split
  next hb => exact h hb
  next => exact .refl s

/-- The marks and the reporters change. -/
theorem edits_marks (unreported failedWrites : Nat → Bool) (seenBy : Nat → Option Nat)
    (seen : Nat → List Nat) (nextSeen : Nat)
    (h : s.Marked → ∀ x, unreported x = true ∨ (seenBy x).isSome = true ∨ failedWrites x = true →
      (s.cached x).isSome = true) :
    Edits .none s { s with
      unreported := unreported, failedWrites := failedWrites, seenBy := seenBy, seen := seen
      nextSeen := nextSeen } :=
  ⟨⟨⟨rfl, fun _ => rfl, rfl⟩, fun _ => id, fun _ _ => id, rfl, rfl, fun _ => id⟩, fun _ => rfl,
    fun _ hs => { hs with marks := h hs.marks }⟩

theorem edits_count (s : Store) (ref : Nat) (session : Option Nat) :
    Edits .none s (s.count ref session) := by
  unfold Store.count
  split
  · exact edits_marks _ _ _ _ _ id
  · exact .refl s

theorem edits_calls (s : Store) (c : Call) : Edits c s (s.calls c) := by
  refine ⟨?_, fun _ => rfl, fun cap => ?_⟩
  · cases c with
    | none => exact .refl s
    | index => exact tame_index _ _ _ _ _
    | drop => exact ⟨⟨rfl, fun _ => rfl, rfl⟩, calm_drop s _⟩
    | reload rows => exact tame_reloadWith s rows
  · cases c with
    | none => exact id
    | index => exact sound_index _ _ _ _ _
    | drop => exact sound_drop s _
    | reload rows => exact sound_reloadWith rows

theorem edits_hit (h : s.cached lid = some phone) :
    Edits .none s { s with lidToPhone := s.place lid phone } := by
  refine ⟨⟨⟨rfl, fun _ => rfl, rfl⟩, calm_hit s h⟩, get_place_hit s h, fun cap hs => ?_⟩
  have hsize : (s.place lid phone).size ≤ s.lidToPhone.size := by
    rw [Store.place, Record.size_set, Record.get_delete_self]
    exact List.length_filter_lt_length_iff_exists.mpr ⟨_, Record.mem_of_get h, by simp⟩
  refine ⟨fun x hx => ?_, hs.cap_eq, fun hpos => hsize.trans (hs.size_le hpos)⟩
  exact (congrArg Option.isSome (get_place_hit s h x)).trans (hs.marks x hx)

/-- Recorded absences are forgotten. -/
theorem edits_absent {absent : List Nat}
    (h : ∀ x, absent.contains x = true → s.absentFromTable.contains x = true) :
    Edits .none s { s with absentFromTable := absent } :=
  ⟨⟨⟨rfl, fun _ => rfl, rfl⟩, h, fun _ _ => id, rfl, rfl, fun _ => id⟩, fun _ => rfl,
    fun _ hs => { hs with }⟩

-- ======== the answers

section Answers

variable {phone : Nat} (h : s.Fences lid phone)
include h

theorem agrees_rowPhone (row : Row) :
    s.rowPhone lid row = none ∨ s.rowPhone lid row = some phone := by
  unfold Store.rowPhone
  rw [h.cached, h.unstored]
  split
  · exact .inl rfl
  · dsimp only
    split
    · exact .inl rfl
    next hsame =>
      right
      by_contra hne
      simp [Ne.symm hne] at hsame

theorem agrees_mirrored : s.mirrored lid = none ∨ s.mirrored lid = some phone := by
  unfold Store.mirrored
  rw [h.cached]
  split
  · exact .inl rfl
  · exact .inr rfl

theorem agrees_lidsForPhone {p : Nat} (hp : lid ∈ s.lidsForPhone p) : p = phone := by
  obtain ⟨⟨x, y⟩, he, hx⟩ := List.mem_map.mp hp
  obtain ⟨hentry, hcond⟩ := List.mem_filter.mp he
  have hget : s.cached x = some y := Record.get_of_mem hentry
  have hy : y = some p := of_decide_eq_true (Bool.and_eq_true_iff.mp hcond).1
  rw [show x = lid from hx, h.cached, hy] at hget
  exact (Option.some.inj (Option.some.inj hget)).symm

end Answers

section

variable {phone : Nat} (h : w.store.Fences lid phone)
include h

theorem agrees_answerPhones {out : Nat → Option Nat}
    (hout : out lid = none ∨ out lid = some phone) (batch : List Nat) (rows : Nat → Option Row) :
    w.answerPhones out batch rows lid = none ∨ w.answerPhones out batch rows lid = some phone := by
  unfold World.answerPhones
  split
  · split
    · exact agrees_rowPhone h _
    · exact .inl rfl
  · exact hout

theorem agrees_answerLids {out : Nat → List Nat} (hout : ∀ p, lid ∈ out p → p = phone)
    (rows : List (Nat × Row)) : ∀ p, lid ∈ w.answerLids out rows p → p = phone := by
  intro p hp
  rcases List.mem_append.mp hp with hold | hnew
  · exact hout p hold
  · obtain ⟨⟨x, row⟩, he, hx⟩ := List.mem_map.mp hnew
    obtain ⟨-, hcond⟩ := List.mem_filter.mp he
    have hrow : w.store.rowPhone x row = some p :=
      of_decide_eq_true (Bool.and_eq_true_iff.mp hcond).2
    rw [show x = lid from hx] at hrow
    rcases agrees_rowPhone h row with hnone | hsome
    · rw [hnone] at hrow
      cases hrow
    · rw [hsome] at hrow
      exact (Option.some.inj hrow).symm

end

-- ======== the steps

theorem eq_unused (h : p.isUnused = true) : p = .unused := by
  cases p <;> first | rfl | cases h

/-- An operation that has no role, or is gone. -/
theorem Passes.quiet (hw : p'.write = p.write) (ha : p'.warms = none)
    (hr : p'.reports = none) (ho : p.offers = none)
    (h : ∀ lid phone, s.Fences lid phone → p.agrees lid phone → p'.agrees lid phone) :
    Passes F s p p' := ⟨hw, fun _ => .quiet ha hr ho, h⟩

theorem Passes.same (hw : p'.write = p.write) (ha : p'.warms = none)
    (hr : p'.reports = p.reports) (ho : p'.offers = p.offers)
    (h : ∀ lid phone, p.agrees lid phone → p'.agrees lid phone) : Passes F s p p' :=
  ⟨hw, fun _ => .same ha hr ho, fun lid phone _ => h lid phone⟩

theorem Turn.ends (s : Store) (p : Phase) : Turn s p (.done .nothing) :=
  ⟨fun _ _ => .inr rfl, fun _ _ _ _ => trivial⟩

theorem turn_update {phase : Nat → Phase} (h : Turn s (phase j) p) (i : Nat) :
    Turn s (phase i) (update phase j p i) := by
  by_cases hi : i = j
  · rw [hi, update_self]
    exact h
  · rw [update_of_ne hi]
    exact ⟨fun _ => .inl, fun _ _ _ => id⟩

/-- The rows are as they were. -/
theorem Quiet.same (hs : w'.store = w.store) (ht : w'.table = w.table) (hp : w'.phase = w.phase) :
    Quiet F .none w w' where
  calm := .of_eq hs ht hp
  opens := fun h => h.same (hs ▸ .refl _) fun _ => by rw [hp]
  mirror := fun _ => by rw [hs]; rfl
  sound := fun _ h => hs ▸ h
  turn := fun _ => hp ▸ ⟨fun _ => .inl, fun _ _ _ => id⟩

theorem Quiet.edits (hs : Edits c w.store s) : Quiet F c w (w.setStore s) where
  calm := .setStore hs.calm
  opens := fun h => h.setStore hs.writes
  mirror := hs.mirror
  sound := hs.sound
  turn := fun _ => ⟨fun _ => .inl, fun _ _ _ => id⟩

theorem Passes.turn (h : Passes F s p p') : Turn s p p' :=
  ⟨fun _ hx => .inl (h.write.trans hx), h.agrees⟩

theorem Quiet.goes (hp : w.phase j = p) (hs : Edits c w.store s) (h : Passes F w.store p p') :
    Quiet F c w ((w.setStore s).setPhase j p') where
  calm := .goes hs.calm (hp ▸ h.goes _)
  opens := fun ho => ho.moves hs.writes (hp ▸ h.write)
  mirror := hs.mirror
  sound := hs.sound
  turn := turn_update (hp ▸ h.turn)

/-- A statement of a write sets the row of its lid. -/
theorem Quiet.writes {ref : Nat} {row : Row} (hp : w.phase j = p) (hw : p.write = some (lid, ref))
    (h : Passes F w.store p p')
    (hrow : row.phone.isSome = true →
      (∃ old, w.table.get lid = some old ∧ old.phone.isSome = true) ∨
        p'.offers = some lid ∨ p.reports = some lid) :
    Quiet F .none w ((w.setRow lid row).setPhase j p') where
  calm := by subst hp; exact .writes (h.goes _) hw hrow
  opens := fun ho => ho.setRow.goes (hp ▸ h.write)
  mirror := fun _ => rfl
  sound := fun _ hs => hs
  turn := turn_update (hp ▸ h.turn)

theorem Quiet.releases {f : Row → Row} (hf : ∀ row, (f row).phone = row.phone)
    (hp : ∃ session, w.phase j = .releasing session) :
    Quiet F .none w (World.setPhase { w with
      table := w.table.entries.foldl (fun t e => t.set e.1 (f e.2)) w.table } j
        (.done .nothing)) where
  calm := calmly_releases hf hp
  opens := fun h => h.same (.refl _) (write_setPhase (w := w)
    (by obtain ⟨session, hp⟩ := hp; rw [hp]; rfl))
  mirror := fun _ => rfl
  sound := fun _ hs => hs
  turn := turn_update (.ends _ _)

theorem Quiet.settles {ref : Nat} (hp : w.phase j = p) (hw : p.write = some (lid, ref))
    (hs : Edits c w.store s) (h : Goes F (s.endWrite lid ref) p (.done .nothing)) :
    Quiet F c w ((w.setStore s).settle j lid ref) where
  calm := .goes (hs.calm.trans (calm_endWrite _ _ _)) (hp ▸ h)
  opens := fun ho => Open.settle (ho.setStore hs.writes) (hp ▸ hw)
  mirror := fun x =>
    (congrArg (Record.get · x) (lidToPhone_endWrite _ _ _)).trans (hs.mirror x)
  sound := by
    intro cap hsound
    have hafter := hs.sound cap hsound
    change (s.endWrite lid ref).Sound cap
    unfold Store.endWrite
    dsimp only
    repeat' split
    all_goals exact { hafter with }
  turn := turn_update (.ends _ _)

theorem Does.quiet (h : Quiet F c w w') : Does F c w w' := ⟨w', h, .stays⟩

theorem Does.move (h : Moves w w') : Does F .none w w' := ⟨w, .same rfl rfl rfl, h⟩

theorem Does.begins {operation : Operation} {actual : Bool} (hu : (w.phase j).isUnused = true)
    (hs : Edits c w.store s) (hw : p.write = some (lid, (s.beginWrite lid operation actual).1))
    (hwarms : p.warms = none)
    (hreports : ∀ x, p.reports = some x → x = lid ∧ (s.cached lid).isSome = true)
    (hagrees : ∀ lid phone, p.agrees lid phone) :
    Does F c w ((w.setStore (s.beginWrite lid operation actual).2).setPhase j p) :=
  ⟨w.setStore s, .edits hs, .begins hu hw hwarms hreports hagrees⟩

theorem Does.ends (hp : (w.phase j).warms = some lid) (hs : Edits c w.store s) :
    Does F c w ((w.setStore { s with
      pendingLookups := update s.pendingLookups lid false
      racedLookups := update s.racedLookups lid false }).setPhase j (.done .nothing)) :=
  ⟨w.setStore s, .edits hs, .ends hp⟩

theorem Does.pass (hp : w.phase j = p) (h : Passes F w.store p p') :
    Does F .none w (w.setPhase j p') := .quiet (.goes hp (.refl w.store) h)

theorem does_exec : Leads (Does F .none w) (w.exec j) := by
  unfold World.exec
  split <;> try dsimp only
  case h_1 r hp =>
    have hpass : Passes F w.store (.storing r) (.stored r) := .same rfl rfl rfl rfl fun _ _ => id
    unfold World.store?
    repeat' split
    all_goals first
      | exact .quiet (.writes hp rfl hpass fun _ => .inr (.inr rfl))
      | exact .pass hp hpass
  case h_3 r hp | h_4 r hp =>
    repeat' split
    all_goals first
      | exact .pass hp (.quiet rfl rfl rfl rfl fun _ _ _ => id)
      | exact .quiet (.writes hp rfl (.quiet rfl rfl rfl rfl fun _ _ _ => id)
          fun hphone => by cases hphone)
  case h_5 o hp =>
    split
    · exact .quiet (.writes hp rfl (.quiet rfl rfl rfl rfl fun _ _ _ => id)
        fun _ => .inr (.inl rfl))
    · exact .pass hp (.quiet rfl rfl rfl rfl fun _ _ _ => id)
  case h_6 o hp =>
    split
    next => exact .pass hp (.same rfl rfl rfl rfl fun _ _ => id)
    next row hrow =>
      split
      · exact .quiet (.writes hp rfl (.same rfl rfl rfl rfl fun _ _ => id)
          fun hphone => .inl ⟨row, hrow, hphone⟩)
      · exact .pass hp (.same rfl rfl rfl rfl fun _ _ => id)
  case h_10 x inFlight hp => exact .move (.reads hp)
  case h_12 session hp =>
    refine .quiet (.releases (f := fun row => if row.sessionId = some session then
      { row with sessionId := none } else row) ?_ ⟨session, hp⟩)
    intro row
    split <;> rfl
  all_goals rename_i hp
  all_goals first
    | exact .pass hp (.quiet rfl rfl rfl rfl fun _ _ _ => id)
    | exact .pass hp (.same rfl rfl rfl rfl fun _ _ => id)
    | trivial

theorem does_fail : Leads (Does (Finishes (.fail j) w) .none w) (w.fail j) := by
  unfold World.fail
  split
  case h_6 o hp =>
    refine .pass hp ⟨rfl, fun _ => ⟨rfl, ?_, ?_⟩, fun _ _ _ => id⟩
    · intro lid h
      cases h
    · intro hf
      exact absurd hp (hf j o rfl)
  all_goals rename_i hp
  all_goals first
    | exact .pass hp (.quiet rfl rfl rfl rfl fun _ _ _ => id)
    | exact .pass hp (.same rfl rfl rfl rfl fun _ _ => id)
    | exact .pass hp (.quiet rfl rfl rfl rfl fun _ _ _ _ => trivial)
    | exact .move (.refuses hp)
    | trivial

theorem does_conclude {r : Report} {operation : Option Operation} {reported : Bool}
    (hp : w.phase j = p) (hw : p.write = some (r.lid, r.writing)) (hoffers : p.offers = none) :
    Does F .none w (w.conclude j r operation reported) := by
  refine .quiet (.settles hp hw ?_ (.quiet rfl rfl hoffers))
  have hlatest : ∀ b : Bool, Edits .none w.store (if b = true then
        { w.store with
          failedWrites := update w.store.failedWrites r.lid false
          unreported := update w.store.unreported r.lid false }
      else w.store) := by
    refine fun b => .ite fun _ => edits_marks _ _ _ _ _ fun hm x hx => hm x ?_
    grind [Function.update_apply]
  split
  · split
    · exact (hlatest _).trans (edits_count _ _ _)
    · exact hlatest _
  · exact hlatest _

theorem does_getCached (hu : (w.phase spare).isUnused = true) :
    Does F .none w (w.getCached spare lid) := by
  unfold World.getCached
  split
  next phone hc => exact .quiet (.edits (edits_hit hc))
  next =>
    unfold World.warmFromTable
    dsimp only
    split
    next => exact .move .stays
    next hmiss =>
      rw [Bool.not_eq_true, Bool.or_eq_false_iff] at hmiss
      exact .move (.warms hu hmiss.1)

/-- A refused read is answered, and the mirror used. -/
theorem does_phoneRefused (hp : w.phase j = .phoneRefused lid)
    (hu : (w.phase spare).isUnused = true) :
    Does F .none w
      ((w.setPhase j (.done (.phone lid (w.store.mirrored lid)))).getCached spare lid) := by
  have hpass : Passes F w.store (.phoneRefused lid)
      (.done (.phone lid (w.store.mirrored lid))) := by
    refine .quiet rfl rfl rfl rfl ?_
    intro x phone hf _ hx
    rw [hx]
    exact agrees_mirrored hf
  unfold World.getCached
  split
  next phone hc => exact .quiet (.goes hp (edits_hit hc) hpass)
  next =>
    unfold World.warmFromTable
    dsimp only
    split
    next => exact .pass hp hpass
    next hmiss =>
      rw [Bool.not_eq_true, Bool.or_eq_false_iff] at hmiss
      refine ⟨_, .goes hp (.refl w.store) hpass, .warms ?_ hmiss.1⟩
      have hne : spare ≠ j := by
        rintro rfl
        rw [hp] at hu
        cases hu
      exact (congrArg Phase.isUnused (update_of_ne hne _ _)).trans hu

theorem does_reply : Leads (Does F (w.call (.reply j spare)) w) (w.reply j spare) := by
  -- a write without a role settles
  have hsettles : ∀ {c : Call} {p : Phase} {s : Store} {lid ref : Nat}, w.phase j = p →
      p.write = some (lid, ref) → p.offers = none → Edits c w.store s →
      Does F c w ((w.setStore s).settle j lid ref) :=
    fun hp hw ho hs => .quiet (.settles hp hw hs (.quiet rfl rfl ho))
  unfold World.call World.reply
  dsimp only
  cases hp : w.phase j <;> dsimp only
  case stored r =>
    repeat' split
    · exact hsettles hp rfl rfl (.refl w.store)
    · exact .pass hp (.same rfl rfl rfl rfl fun _ _ => id)
    · exact does_conclude hp rfl rfl
  case checked r operation row => exact does_conclude hp rfl rfl
  case cleared r affected =>
    split
    · exact hsettles hp rfl rfl (edits_calls w.store (.drop r.lid))
    · exact hsettles hp rfl rfl (.refl w.store)
  case refused r => exact hsettles hp rfl rfl (.refl w.store)
  case revoked o affected =>
    refine .quiet (.settles hp rfl ?_ ⟨rfl, ?_, ?_⟩)
    · refine (Edits.ite fun h => edits_marks _ _ _ _ _ fun hm x hx => ?_).trans (edits_absent ?_)
      · have := hm x
        grind [Function.update_apply]
      · exact fun x hx => (contains_filter_ne.mp hx).1
    · intro lid h
      cases h
    · -- the absence of its lid goes with it
      intro _ lid hlid
      right
      rw [Bool.eq_false_iff]
      intro habs
      have hbefore := (calm_endWrite _ o.lid o.writing).absent lid habs
      exact (contains_filter_ne.mp hbefore).2 (Option.some.inj hlid).symm
  case offerRefused o =>
    refine hsettles hp rfl rfl (.ite fun h => edits_marks _ _ _ _ _ fun hm x hx => hm x ?_)
    grind [Function.update_apply]
  case foundPhone x row =>
    refine .pass hp (.quiet rfl rfl rfl rfl ?_)
    intro lid phone hf _ hx
    cases row with
    | none => exact .inl rfl
    | some row =>
      rw [hx]
      exact agrees_rowPhone hf row
  case phoneRefused x =>
    split
    next =>
      refine .pass hp (.quiet rfl rfl rfl rfl ?_)
      intro lid phone hf _ hx
      rw [hx]
      exact agrees_mirrored hf
    next => exact Leads.guard fun hu => does_phoneRefused hp hu
  case foundPhones out batch rest rows =>
    cases rest <;> exact .pass hp (.quiet rfl rfl rfl rfl
      fun _ _ hf hout => agrees_answerPhones hf hout batch rows)
  case foundLids phones out rest rows =>
    cases rest <;> exact .pass hp (.quiet rfl rfl rfl rfl
      fun _ _ hf hout => agrees_answerLids hf hout rows)
  case lidsRefused phones =>
    refine .pass hp (.quiet rfl rfl rfl rfl ?_)
    intro lid phone hf _ p hlid
    dsimp only at hlid
    split at hlid
    · exact agrees_lidsForPhone hf hlid
    · cases hlid
  case warmed x inFlight row =>
    cases row with
    | none =>
      dsimp only
      split
      next hnotes =>
        rw [Bool.and_eq_true, Bool.not_eq_true', Bool.or_eq_false_iff] at hnotes
        obtain ⟨⟨rfl, hraced⟩, hmiss⟩ := hnotes
        exact .move (.notes hp hraced (Option.isNone_iff_eq_none.mp hmiss))
      next => exact .move (.ends (by rw [hp]; rfl))
    | some row =>
      refine .ends (congrArg Phase.warms hp) ?_
      dsimp only
      split
      · exact edits_calls w.store (.index x row.phone row.sessionId row.isReported)
      · exact .refl w.store
  case warmRefused x => exact .move (.ends (by rw [hp]; rfl))
  case reloaded rows =>
    exact .quiet (.goes hp (edits_calls w.store (.reload rows))
      (.quiet rfl rfl rfl rfl fun _ _ _ => id))
  all_goals first
    | exact .pass hp (.quiet rfl rfl rfl rfl fun _ _ _ => id)
    | exact .pass hp (.same rfl rfl rfl rfl fun _ _ => id)
    | trivial

/-- The mirror has the phone a report gives. -/
theorem cached_remember (w : World) (lid phone : Nat) (session : Option Nat) :
    Store.cached (if (!w.seen lid (some phone) session && true) = true then
      w.store.index lid (some phone) none true else w.store) lid = some (some phone) := by
  split
  · exact cached_index _ _ _ _ _
  next hseen =>
    rw [Bool.and_true, Bool.not_eq_true, Bool.not_eq_false'] at hseen
    exact cached_of_seen hseen

theorem does_remember (hu : (w.phase j).isUnused = true) :
    Does F (w.call (.remember j lid phone session)) w (w.remember j lid phone session) := by
  cases phone with
  | none =>
    refine .begins hu ?_ rfl rfl ?_ fun _ _ => trivial
    · change Edits (if (!w.seen lid none session && false) = true then _ else _) w.store
        (if (!w.seen lid none session && false) = true then _ else w.store)
      rw [Bool.and_false]
      exact .refl w.store
    · intro x hx
      cases hx
  | some phone =>
    have hindex : Edits (w.call (.remember j lid (some phone) session)) w.store
        (if (!w.seen lid (some phone) session && true) = true then
          w.store.index lid (some phone) none true else w.store) := by
      change Edits (if (!w.seen lid (some phone) session && true) = true then _ else _) _ _
      split
      · exact edits_calls w.store (.index lid (some phone) none true)
      · exact .refl w.store
    refine .begins hu (hindex.trans (edits_marks _ _ _ _ _ fun hm x hx => ?_)) rfl rfl ?_
      fun _ _ => trivial
    · by_cases hxl : x = lid
      · subst hxl
        exact congrArg Option.isSome (cached_remember w x phone session)
      · exact hm x (hx.imp_right (Or.imp_right (update_of_ne hxl _ _).symm.trans))
    · intro x hx
      refine ⟨(Option.some.inj hx).symm, ?_⟩
      exact congrArg Option.isSome (cached_remember w lid phone session)

/-- What every step does, in the terms above. -/
theorem does_step : Leads (Does (Finishes a w) (w.call a) w) (system.step a w) := by
  -- a call begins, without a write and without answers
  have hstarts : ∀ {j : Nat} {s : Store} {p : Phase}, (w.phase j).isUnused = true →
      Edits .none w.store s → p.write = none → p.warms = none → p.reports = none →
      (∀ lid phone, w.store.Fences lid phone → p.agrees lid phone) →
      Does (Finishes a w) .none w ((w.setStore s).setPhase j p) :=
    fun hu hs hw hb hr h =>
      .quiet (.goes (eq_unused hu) hs (.quiet hw hb hr rfl fun l p hf _ => h l p hf))
  cases a with
  | tick | link => exact .quiet (.same rfl rfl rfl)
  | remember j lid phone session => exact Leads.guard fun hu => does_remember hu
  | rememberIfUnknown j lid phone session =>
    refine Leads.guard fun hu => ?_
    refine .begins hu (.ite fun h => edits_marks _ _ _ _ _ fun hm x hx => ?_) rfl rfl ?_
      fun _ _ => trivial
    · by_cases hxl : x = lid
      · rw [hxl]
        cases hmiss : w.store.cached lid with
        | none =>
          rw [hmiss] at h
          cases h
        | some known => rfl
      · simp only [update_of_ne hxl] at hx
        exact hm x hx
    · intro x hx
      cases hx
  | findPhoneForLid j lid =>
    exact Leads.guard fun hu => hstarts hu (.refl _) rfl rfl rfl fun _ _ _ => trivial
  | phonesForLidsPersisted j lids =>
    refine Leads.guard fun hu => ?_
    have hout : ∀ lid phone, w.store.Fences lid phone →
        (if lids.contains lid then w.store.mirrored lid else none) = none ∨
          (if lids.contains lid then w.store.mirrored lid else none) = some phone := by
      intro lid phone hf
      split
      · exact agrees_mirrored hf
      · exact .inl rfl
    unfold World.phonesForLidsPersisted
    cases chunk 500 lids.length lids <;> exact hstarts hu (.refl _) rfl rfl rfl hout
  | lidsForPhonesPersisted j phones =>
    refine Leads.guard fun hu => ?_
    unfold World.lidsForPhonesPersisted
    cases chunk 500 phones.length phones <;>
      exact hstarts hu (.refl _) rfl rfl rfl fun _ _ _ _ hlid => by cases hlid
  | getCached j lid => exact Leads.guard fun hu => does_getCached hu
  | reload j =>
    refine Leads.guard fun hu => hstarts hu (edits_absent ?_) rfl rfl rfl fun _ _ _ => trivial
    intro x hx
    cases hx
  | releaseSession j session =>
    refine Leads.guard fun hu => hstarts hu (edits_marks _ _ _ _ _ fun hm x hx => hm x ?_) rfl rfl
      rfl fun _ _ _ => trivial
    exact hx.imp_right (Or.imp_left fun h => by cases h)
  | exec j => exact does_exec
  | fail j => exact does_fail
  | reply j spare => exact does_reply

-- ======== what every step keeps

theorem Open.move (h : Open w) (hm : Moves w w') : Open w' := by
  cases hm with
  | stays => exact h
  | begins hu hw => exact h.begins (.refl _) (write_of_isUnused hu) hw
  | warms hu => exact h.moves ⟨rfl, fun _ => rfl, rfl⟩ (write_of_isUnused hu).symm
  | reads hp | refuses hp => exact h.goes (by rw [hp]; rfl)
  | ends hp => exact h.moves ((SameWrites.refl _).lookups _ _) (write_of_warms hp).symm
  | notes hp => exact h.moves ((sameWrites_noteAbsent _ _).lookups _ _) (by rw [hp]; rfl)

/-- Every step keeps the writes counted. -/
theorem Open.step (a : Act) (h : Open w) : Leads Open (system.step a w) :=
  does_step.imp fun _ ⟨_, hq, hm⟩ => (hq.opens h).move hm

theorem cached_of_moves (hm : Moves w w') (lid : Nat) :
    w'.store.cached lid = w.store.cached lid := by
  cases hm with
  | notes => exact congrArg (Record.get · lid) (lidToPhone_noteAbsent w.store _)
  | stays | begins | warms | reads | refuses | ends => rfl

theorem sound_of_moves {cap : Nat} (h : w.store.Sound cap) (hm : Moves w w') :
    w'.store.Sound cap := by
  cases hm with
  | @notes _ lid =>
    have hnotes : (w.store.noteAbsent lid).Sound cap := by
      unfold Store.noteAbsent
      split
      · exact h
      · exact { h with }
    exact { hnotes with }
  | stays | begins | warms | reads | refuses | ends => exact { h with }

/-- What an operation turns into: only one that neither writes nor is done
moves, and it has no answers. -/
theorem phase_of_moves (hm : Moves w w') (i : Nat) : w'.phase i = w.phase i ∨
    (w.phase i).write = none ∧ w.phase i ≠ .done .nothing ∧
      ∀ lid phone, (w'.phase i).agrees lid phone := by
  have hset : ∀ {v : World} {j : Nat} {p : Phase}, v.phase = update w.phase j p →
      (w.phase j).write = none → w.phase j ≠ .done .nothing →
      (∀ lid phone, p.agrees lid phone) → v.phase i = w.phase i ∨
        (w.phase i).write = none ∧ w.phase i ≠ .done .nothing ∧
          ∀ lid phone, (v.phase i).agrees lid phone := by
    intro v j p hv hw hd ha
    rw [hv]
    by_cases hi : i = j
    · rw [hi, update_self]
      exact .inr ⟨hw, hd, ha⟩
    · exact .inl (update_of_ne hi _ _)
  cases hm with
  | stays => exact .inl rfl
  | begins hu hw hwarms hreports hagrees =>
    exact hset rfl (write_of_isUnused hu) (by rw [eq_unused hu]; simp) hagrees
  | warms hu =>
    exact hset rfl (write_of_isUnused hu) (by rw [eq_unused hu]; simp) fun _ _ => trivial
  | reads hp | refuses hp | notes hp =>
    exact hset rfl (by rw [hp]; rfl) (by rw [hp]; simp) fun _ _ => trivial
  | ends hp =>
    refine hset rfl (write_of_warms hp) (fun hd => ?_) fun _ _ => trivial
    rw [hd] at hp
    cases hp

end OpenWA.Lid

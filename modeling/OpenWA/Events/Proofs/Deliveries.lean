/-
The deliveries of a run: what the chain, the lookups and the inbox say of
each other.

# The layers

- `Grows`: lookups are only added and answered once, so what was read of an
  answered lookup stays true.
- `Kept`: every chained delivery holds an emitted event and a lookup of that
  event's chat, also when the lookup is shared through the memo; the
  deliveries are chained in the order of emission.
- `Filed`: the inbox is what the deliveries whose turn has come have sent,
  each once and in order under each session.
-/
import OpenWA.Events.Proofs.Match

namespace OpenWA.Events

open Text Security List Option

-- ======== the events

/-- The events the fence is stated for: no `%` in the name, no line break in
the session id, an `@` in the chat id. -/
structure Proper (e : Emission) : Prop where
  event : '%' ∉ e.event
  session : '\n' ∉ e.sessionId
  chat : ∀ {id}, e.chat = some id → '@' ∈ id

variable {e : Emission} {j : Nat} {job : DeliveryJob}

theorem Emission.mem_chatEvents {id : Text} (h : e.chat = some id) : e.event ∈ chatEvents := by
  unfold Emission.chat at h
  split at h
  next hmem => exact contains_iff_mem.mp hmem
  next => cases h

theorem memoKey_inj {s s' c c' : Text} (hs : '\n' ∉ s) (hs' : '\n' ∉ s')
    (h : memoKey s c = memoKey s' c') : c = c' := (append_cons_inj hs hs' h).2

-- ======== the lookups

/-- Lookups are added, and answered once. -/
def Grows (w w' : World) : Prop :=
  ∀ {l : Nat} {lookup : Lookup}, w.lookups[l]? = some lookup →
    ∃ lookup' : Lookup, w'.lookups[l]? = some lookup'
      ∧ lookup'.sessionId = lookup.sessionId ∧ lookup'.chatId = lookup.chatId
      ∧ (lookup.answer ≠ none → lookup'.answer = lookup.answer)

theorem Grows.refl (w : World) : Grows w w := fun h => ⟨_, h, rfl, rfl, fun _ => rfl⟩

variable {before : Lookup} {sessionId : Text} {i : Nat} {l : Nat} {w : World}

/-- A lookup replaced by one with the same question grows. -/
theorem grows_set {w' : World} (after : Lookup) (hl : w.lookups[l]? = some before)
    (hw' : w'.lookups = w.lookups.set l after) (hsession : after.sessionId = before.sessionId)
    (hchat : after.chatId = before.chatId)
    (hanswer : before.answer ≠ none → after.answer = before.answer) : Grows w w' := by
  intro i lookup hi
  by_cases hil : l = i
  · subst hil
    rw [hl] at hi
    cases hi
    have hlt := (List.getElem?_eq_some_iff.mp hl).1
    refine ⟨after, ?_, hsession, hchat, hanswer⟩
    rw [hw', getElem?_set_self hlt]
  · refine ⟨lookup, ?_, rfl, rfl, fun _ => rfl⟩
    rw [hw', getElem?_set_ne hil]
    exact hi

/-- The memo leads to lookups of its keys, asked for proper sessions. -/
structure Asked (w : World) : Prop where
  session : ∀ {l : Nat} {lookup : Lookup}, w.lookups[l]? = some lookup → '\n' ∉ lookup.sessionId
  memo : ∀ {key : Text} {entry : MemoEntry}, w.chatIdsMemo.get key = some entry →
    ∃ lookup : Lookup, w.lookups[entry.lookup]? = some lookup
      ∧ key = memoKey lookup.sessionId lookup.chatId

/-- A memo that lost entries leads where the old one did. -/
theorem get_of_get_delete {V : Type} {r : Record Text V} {k k' : Text} {v : V}
    (h : (r.delete k).get k' = some v) : r.get k' = some v := by
  by_cases hk : k' = k
  · rw [hk, Record.get_delete_self] at h
    cases h
  · rwa [Record.get_delete_of_ne r hk] at h

theorem Asked.memo_of_grows {w' : World} (h : Asked w) (hgrows : Grows w w') {key : Text}
    {entry : MemoEntry} (hget : w.chatIdsMemo.get key = some entry) :
    ∃ lookup : Lookup, w'.lookups[entry.lookup]? = some lookup
      ∧ key = memoKey lookup.sessionId lookup.chatId := by
  obtain ⟨lookup, hlookup, hkey⟩ := h.memo hget
  obtain ⟨lookup', hlookup', hs, hc, -⟩ := hgrows hlookup
  exact ⟨lookup', hlookup', by rw [hs, hc]; exact hkey⟩

theorem Asked.of_grows {w' : World} (h : Asked w) (hgrows : Grows w w')
    (hsession : ∀ {l : Nat} {lookup : Lookup}, w'.lookups[l]? = some lookup →
      '\n' ∉ lookup.sessionId)
    (hmemo : ∀ {key : Text} {entry : MemoEntry}, w'.chatIdsMemo.get key = some entry →
      w.chatIdsMemo.get key = some entry) : Asked w' :=
  ⟨hsession, fun hget => h.memo_of_grows hgrows (hmemo hget)⟩

/-- What `ask` leaves. -/
theorem ask_spec (h : Asked w) (hs : '\n' ∉ sessionId) (chatId : Text) :
    Grows w (w.ask sessionId chatId).2 ∧ Asked (w.ask sessionId chatId).2
      ∧ (w.ask sessionId chatId).2.lookups[(w.ask sessionId chatId).1]?
        = some { sessionId := sessionId, chatId := chatId, answer := none, noted := false } := by
  have hgrows : Grows w (w.ask sessionId chatId).2 := by
    intro l lookup hl
    exact ⟨lookup, getElem?_concat.mpr (.inl hl), rfl, rfl, fun _ => rfl⟩
  have hnew : (w.ask sessionId chatId).2.lookups[(w.ask sessionId chatId).1]?
      = some { sessionId := sessionId, chatId := chatId, answer := none, noted := false } :=
    getElem?_concat_length
  refine ⟨hgrows, ⟨?_, ?_⟩, hnew⟩
  · intro l lookup hl
    rcases getElem?_concat.mp hl with hl | ⟨-, rfl⟩
    · exact h.session hl
    · exact hs
  · intro key entry hget
    -- the new entry, or one the memo had
    have hcases : (key = memoKey sessionId chatId ∧ entry.lookup = w.lookups.length)
        ∨ w.chatIdsMemo.get key = some entry := by
      have hset : ∀ {k : Text} {m : MemoEntry},
          ((w.chatIdsMemo.delete (memoKey sessionId chatId)).set (memoKey sessionId chatId)
            { lookup := w.lookups.length, expiresAt := w.now + chatIdsMemoTtlMs }).get k = some m →
          (k = memoKey sessionId chatId ∧ m.lookup = w.lookups.length)
            ∨ w.chatIdsMemo.get k = some m := by
        intro k m hk
        by_cases hkey : k = memoKey sessionId chatId
        · subst hkey
          rw [Record.get_set_self] at hk
          cases hk
          exact .inl ⟨rfl, rfl⟩
        · rw [Record.get_set_of_ne _ _ hkey] at hk
          exact .inr (get_of_get_delete hk)
      unfold World.ask at hget
      dsimp only at hget
      split at hget
      · split at hget
        · exact hset hget
        · exact hset (get_of_get_delete hget)
      · exact hset hget
    rcases hcases with ⟨rfl, hlookup⟩ | hold
    · exact ⟨_, by rw [hlookup]; exact hnew, rfl⟩
    · exact h.memo_of_grows hgrows hold

/-- `chatIds` gives a lookup of the chat, new or shared. -/
theorem chatIds_spec (h : Asked w) (hs : '\n' ∉ sessionId) (chatId : Text) :
    Grows w (w.chatIds sessionId chatId).2 ∧ Asked (w.chatIds sessionId chatId).2
      ∧ ∃ lookup : Lookup,
        (w.chatIds sessionId chatId).2.lookups[(w.chatIds sessionId chatId).1]? = some lookup
          ∧ lookup.chatId = chatId := by
  obtain ⟨hgrows, hasked, hnew⟩ := ask_spec h hs chatId
  unfold World.chatIds
  split
  next memoized hget =>
    split
    next =>
      obtain ⟨lookup, hlookup, hkey⟩ := h.memo hget
      exact ⟨Grows.refl w, h, lookup, hlookup, (memoKey_inj hs (h.session hlookup) hkey).symm⟩
    next => exact ⟨hgrows, hasked, _, hnew, rfl⟩
  next => exact ⟨hgrows, hasked, _, hnew, rfl⟩

/-- `chatIds` touches the lookups and the memo only. -/
theorem chatIds_frame (w : World) (sessionId chatId : Text) :
    ∃ l lookups memo, w.chatIds sessionId chatId
      = (l, { w with lookups := lookups, chatIdsMemo := memo }) := by
  unfold World.chatIds
  split
  · split <;> exact ⟨_, _, _, rfl⟩
  · exact ⟨_, _, _, rfl⟩

-- ======== the deliveries

/-- A delivery in the chain of its session. -/
abbrev DeliveryJob := Job Text Delivery

/-- Each delivery holds an event and a lookup of its chat. -/
structure Kept (w : World) : Prop where
  chain : w.deliveries.Ok
  proper : ∀ {i : Nat} {e : Emission}, w.emitted[i]? = some e → Proper e
  job : ∀ {j : Nat} {job : DeliveryJob}, w.deliveries.jobs[j]? = some job →
    w.emitted[job.payload.emission]? = some job.payload.message
      ∧ job.key = job.payload.message.sessionId
      ∧ ∃ lookup : Lookup, w.lookups[job.payload.lookup]? = some lookup
        ∧ job.payload.message.chat = some lookup.chatId
        ∧ (job.phase ≠ .waiting → lookup.answer ≠ none)
  mono : ∀ {i j : Nat} {a b : DeliveryJob}, i < j → w.deliveries.jobs[i]? = some a →
    w.deliveries.jobs[j]? = some b → a.payload.emission < b.payload.emission

/-- The delivery sends its event to the client. -/
def Sends (S : Setting) (w : World) (job : DeliveryJob) : Prop :=
  ∃ lookup : Lookup, w.lookups[job.payload.lookup]? = some lookup ∧ lookup.answer = some true
    ∧ reaches (chatRooms job.payload.message (idsForFilter S.table lookup.chatId)) none S.rooms
      = true

/-- The inbox is what was sent, once each, in order under each session. -/
structure Filed (S : Setting) (w : World) : Prop where
  inbox : ∀ {i : Nat}, i ∈ w.inbox ↔ ∃ (j : Nat) (job : DeliveryJob),
    w.deliveries.jobs[j]? = some job ∧ job.payload.emission = i ∧ job.phase ≠ .waiting
      ∧ Sends S w job
  sorted : w.inbox.Pairwise fun i i' => i ≠ i' ∧ ∀ {e e' : Emission}, w.emitted[i]? = some e →
    w.emitted[i']? = some e' → e.sessionId = e'.sessionId → i < i'

/-- What every run keeps. -/
structure Inv (S : Setting) (w : World) : Prop where
  asked : Asked w
  kept : Kept w
  filed : Filed S w

theorem Inv.init (S : Setting) : Inv S World.init := by
  refine ⟨⟨?_, ?_⟩, ⟨Chain.Ok.empty, ?_, ?_, ?_⟩, ⟨?_, List.Pairwise.nil⟩⟩
  case refine_5 =>
    intro i j a b _ hi
    cases hi
  case refine_6 =>
    intro i
    constructor
    · intro hi
      cases hi
    · rintro ⟨j, job, hj, -⟩
      cases hj
  all_goals
    intro i x hi
    cases hi

variable {S : Setting} {w w' : World}

section

variable (h : Kept w) (hgrows : Grows w w') (hj : w.deliveries.jobs[j]? = some job)
include h hgrows hj

/-- The lookup of a delivery is kept, with its answer once the turn has come. -/
theorem Kept.lookup_of_grows :
    ∃ lookup : Lookup, w'.lookups[job.payload.lookup]? = some lookup
      ∧ job.payload.message.chat = some lookup.chatId
      ∧ (job.phase ≠ .waiting → lookup.answer ≠ none) := by
  obtain ⟨-, -, lookup, hlookup, hchat, hanswer⟩ := h.job hj
  obtain ⟨lookup', hlookup', -, hchat', hsame⟩ := hgrows hlookup
  refine ⟨lookup', hlookup', ?_, ?_⟩
  · rw [hchat']
    exact hchat
  · intro hphase
    rw [hsame (hanswer hphase)]
    exact hanswer hphase

/-- Once its turn has come, a delivery sends or does not, for good. -/
theorem Kept.sends_iff (hphase : job.phase ≠ .waiting) : Sends S w' job ↔ Sends S w job := by
  obtain ⟨-, -, lookup, hlookup, -, hanswer⟩ := h.job hj
  obtain ⟨lookup', hlookup', -, hchat, hsame⟩ := hgrows hlookup
  unfold Sends
  rw [hlookup, hlookup']
  constructor
  all_goals
    rintro ⟨found, ⟨⟩, hok, hreach⟩
    refine ⟨_, rfl, ?_, ?_⟩
  · rwa [← hsame (hanswer hphase)]
  · rwa [← hchat]
  · rwa [hsame (hanswer hphase)]
  · rwa [hchat]

end

variable {now : Nat} {lookups : List Lookup} {memo : Record Text MemoEntry}

/-- A step that only asks, answers or notes lookups keeps everything. -/
theorem Inv.of_grows (h : Inv S w)
    (hasked : Asked { w with now := now, lookups := lookups, chatIdsMemo := memo })
    (hgrows : Grows w { w with now := now, lookups := lookups, chatIdsMemo := memo }) :
    Inv S { w with now := now, lookups := lookups, chatIdsMemo := memo } where
  asked := hasked
  kept :=
    { h.kept with
      job := by
        intro j job hj
        obtain ⟨hplace, hkey, -⟩ := h.kept.job hj
        exact ⟨hplace, hkey, h.kept.lookup_of_grows hgrows hj⟩ }
  filed :=
    { h.filed with
      inbox := by
        refine h.filed.inbox.trans (exists_congr fun j => exists_congr fun job =>
          and_congr_right fun hj => and_congr_right fun _ => and_congr_right fun hphase => ?_)
        exact (h.kept.sends_iff hgrows hj hphase).symm }

-- ======== the steps

/-- A lookup answered or noted, and entries of the memo that go. -/
theorem Inv.set_lookup (h : Inv S w) (after : Lookup) (hl : w.lookups[l]? = some before)
    (hsession : after.sessionId = before.sessionId) (hchat : after.chatId = before.chatId)
    (hanswer : before.answer ≠ none → after.answer = before.answer)
    (hmemo : ∀ {key : Text} {entry : MemoEntry}, memo.get key = some entry →
      w.chatIdsMemo.get key = some entry) :
    Inv S { w with lookups := w.lookups.set l after, chatIdsMemo := memo } := by
  have hgrows : Grows w { w with lookups := w.lookups.set l after, chatIdsMemo := memo } :=
    grows_set after hl rfl hsession hchat hanswer
  refine h.of_grows (h.asked.of_grows hgrows ?_ hmemo) hgrows
  intro i found hi
  rw [getElem?_set] at hi
  repeat' split at hi
  · cases hi
    rw [hsession]
    exact h.asked.session hl
  · cases hi
  · exact h.asked.session hi

theorem Inv.answer (h : Inv S w) {ok : Bool} (hs : w.answer l ok = some w') : Inv S w' := by
  obtain ⟨lookup, hlookup, hs⟩ := bind_eq_some_iff.mp hs
  obtain ⟨hopen, ⟨⟩⟩ := ite_none_left_eq_some.mp hs
  refine h.set_lookup { lookup with answer := some ok } hlookup rfl rfl ?_ fun hget => hget
  exact fun hsome => absurd (ne_none_iff_isSome.mp hsome) hopen

theorem Inv.note (h : Inv S w) (hs : w.note S l = some w') : Inv S w' := by
  obtain ⟨lookup, hlookup, hs⟩ := bind_eq_some_iff.mp hs
  obtain ⟨ok, hok, hs⟩ := bind_eq_some_iff.mp hs
  obtain ⟨-, hs⟩ := ite_none_left_eq_some.mp hs
  dsimp only at hs
  repeat' split at hs
  -- whatever the memo forgets, the lookups are the noted ones
  all_goals
    cases hs
    refine h.set_lookup { lookup with noted := true } hlookup rfl rfl (fun _ => rfl) ?_
  case isFalse.isTrue => exact get_of_get_delete
  all_goals exact fun hget => hget

/-- The early return of `emitToRooms` is not taken: the client is connected. -/
theorem Setting.awaited (S : Setting) :
    (!S.isWsRedisEnabled
      && !S.connected.any (fun key => isChatScopeRestricted key.allowedChats)) = false := by
  rcases S.present with hredis | hkey
  · rw [hredis]
    rfl
  · have hany : S.connected.any (fun key => isChatScopeRestricted key.allowedChats) = true :=
      any_eq_true.mpr ⟨S.key, hkey, S.restricted⟩
    rw [hany, Bool.not_true, Bool.and_false]

/-- One more event changes nothing for those before it. -/
theorem Inv.extend (h : Inv S w) (he : Proper e) :
    Inv S { w with emitted := w.emitted ++ [e] } where
  asked := { h.asked with }
  kept :=
    { h.kept with
      proper := by
        intro i a ha
        rcases getElem?_concat.mp ha with ha | ⟨-, rfl⟩
        · exact h.kept.proper ha
        · exact he
      job := by
        intro j job hj
        obtain ⟨hold, hrest⟩ := h.kept.job hj
        exact ⟨getElem?_concat.mpr (.inl hold), hrest⟩ }
  filed :=
    { h.filed with
      sorted := by
        have hold : ∀ {i : Nat} {a : Emission}, i ∈ w.inbox → (w.emitted ++ [e])[i]? = some a →
            w.emitted[i]? = some a := by
          intro i a hi ha
          obtain ⟨j, job, hj, rfl, -⟩ := h.filed.inbox.mp hi
          have hlt := (List.getElem?_eq_some_iff.mp (h.kept.job hj).1).1
          rwa [getElem?_append_left hlt] at ha
        refine List.Pairwise.imp_of_mem ?_ h.filed.sorted
        intro i i' hi hi' ⟨hne, hlt⟩
        exact ⟨hne, fun ha ha' hsession => hlt (hold hi ha) (hold hi' ha') hsession⟩ }

/-- The delivery of an event later than those of the others is chained. -/
theorem Inv.push (h : Inv S w) {lookup : Lookup} (hlookup : w.lookups[l]? = some lookup)
    (he : w.emitted[i]? = some e) (hchat : e.chat = some lookup.chatId)
    (hlater : ∀ {j : Nat} {job : DeliveryJob}, w.deliveries.jobs[j]? = some job →
      job.payload.emission < i) :
    Inv S { w with deliveries := w.deliveries.push e.sessionId ⟨i, e, l⟩ } where
  asked := { h.asked with }
  kept :=
    { h.kept with
      chain := h.kept.chain.push _ _
      job := by
        intro j job hj
        rcases Chain.getElem?_push.mp hj with hj | ⟨-, rfl⟩
        · exact h.kept.job hj
        · exact ⟨he, rfl, lookup, hlookup, hchat, fun hphase => absurd rfl hphase⟩
      mono := by
        intro i j a b hij hi hj
        rcases Chain.getElem?_push.mp hi with hi | ⟨rfl, -⟩
        · rcases Chain.getElem?_push.mp hj with hj | ⟨-, rfl⟩
          · exact h.kept.mono hij hi hj
          · exact hlater hi
        · rcases Chain.getElem?_push.mp hj with hj | ⟨rfl, -⟩
          · have hlt := (List.getElem?_eq_some_iff.mp hj).1
            omega
          · omega }
  filed :=
    { h.filed with
      inbox := by
        refine h.filed.inbox.trans ?_
        constructor
        · rintro ⟨j, job, hj, hrest⟩
          exact ⟨j, job, Chain.getElem?_push.mpr (.inl hj), hrest⟩
        · rintro ⟨j, job, hj, hi, hphase, hsends⟩
          rcases Chain.getElem?_push.mp hj with hj | ⟨-, rfl⟩
          · exact ⟨j, job, hj, hi, hphase, hsends⟩
          · exact absurd rfl hphase }

/-- The first broadcast only extends the history. -/
theorem broadcast_eq (he : Proper e) :
    w.broadcast S e = { w with emitted := w.emitted ++ [e] } := by
  unfold World.broadcast
  rw [reaches_plainRooms he.event]
  rfl

theorem Inv.emit (h : Inv S w) (he : Proper e) : Inv S (w.emitToRooms S e) := by
  have hext := h.extend he
  unfold World.emitToRooms
  rw [broadcast_eq he]
  split
  next => exact hext
  next chatId hchat =>
    rw [if_neg (by rw [S.awaited]; exact Bool.false_ne_true)]
    obtain ⟨hgrows, hasked, lookup, hlookup, rfl⟩ := chatIds_spec hext.asked he.session chatId
    obtain ⟨l, lookups, memo, heq⟩ :=
      chatIds_frame { w with emitted := w.emitted ++ [e] } e.sessionId lookup.chatId
    rw [heq] at hgrows hasked hlookup ⊢
    refine (hext.of_grows hasked hgrows).push hlookup getElem?_concat_length hchat ?_
    intro j job hj
    exact (List.getElem?_eq_some_iff.mp (h.kept.job hj).1).1

variable {phase : Phase}

/-- A delivery whose lookup has settled may change its phase. -/
theorem Kept.setPhase (h : Kept w) (hj : w.deliveries.jobs[j]? = some job)
    (hanswered : ∀ {lookup : Lookup}, w.lookups[job.payload.lookup]? = some lookup →
      lookup.answer ≠ none)
    (hjobs : w'.deliveries.jobs = (w.deliveries.setPhase j phase).jobs) (hchain : w'.deliveries.Ok)
    (hemitted : w'.emitted = w.emitted) (hlookups : w'.lookups = w.lookups) : Kept w' where
  chain := hchain
  proper := by
    rw [hemitted]
    exact h.proper
  job := by
    intro i after hi
    rw [hjobs] at hi
    obtain ⟨before, hbefore, rfl⟩ := Chain.getElem?_setPhase hi
    obtain ⟨hplace, hkey, lookup, hlookup, hchat, hanswer⟩ := h.job hbefore
    rw [hemitted, hlookups]
    refine ⟨hplace, hkey, lookup, hlookup, hchat, ?_⟩
    by_cases hij : j = i
    · subst hij
      rw [hj] at hbefore
      cases hbefore
      exact fun _ => hanswered hlookup
    · rw [if_neg hij]
      exact hanswer
  mono := by
    intro i i' a b hlt hi hi'
    rw [hjobs] at hi hi'
    obtain ⟨a, ha, rfl⟩ := Chain.getElem?_setPhase hi
    obtain ⟨b, hb, rfl⟩ := Chain.getElem?_setPhase hi'
    have hlater := h.mono hlt ha hb
    exact hlater

/-- An event in the inbox was sent by a delivery of its session before the
one whose turn it is. -/
theorem Inv.before_turn (h : Inv S w) (hj : w.deliveries.jobs[j]? = some job)
    (hphase : job.phase = .waiting) (hi : i ∈ w.inbox) :
    i ≠ job.payload.emission ∧ ∀ {e e' : Emission}, w.emitted[i]? = some e →
      w.emitted[job.payload.emission]? = some e' → e.sessionId = e'.sessionId →
      i < job.payload.emission := by
  obtain ⟨j', other, hj', rfl, hother, -⟩ := h.filed.inbox.mp hi
  rcases Nat.lt_trichotomy j' j with hlt | heq | hgt
  · have hmono := h.kept.mono hlt hj' hj
    exact ⟨by omega, fun _ _ _ => hmono⟩
  · subst heq
    rw [hj] at hj'
    cases hj'
    exact absurd hphase hother
  · have hmono := h.kept.mono hgt hj hj'
    refine ⟨by omega, ?_⟩
    intro e e' he he' hsession
    -- a later delivery of the session has not had its turn yet
    obtain ⟨hplace, hkey, -⟩ := h.kept.job hj
    obtain ⟨hplace', hkey', -⟩ := h.kept.job hj'
    rw [hplace] at he'
    rw [hplace'] at he
    cases he
    cases he'
    have hsettled := h.kept.chain.order hgt hj hj' (by rw [hkey, hkey', hsession]) hother
    rw [hphase] at hsettled
    cases hsettled

/-- What is sent once a delivery has had its turn. -/
theorem Filed.turned (h : Filed S w) (hj : w.deliveries.jobs[j]? = some job)
    (hphase : phase ≠ .waiting) : (∃ (j' : Nat) (other : DeliveryJob),
      (w.deliveries.setPhase j phase).jobs[j']? = some other
        ∧ other.payload.emission = i ∧ other.phase ≠ .waiting ∧ Sends S w other)
      ↔ i ∈ w.inbox ∨ (i = job.payload.emission ∧ Sends S w job) := by
  constructor
  · rintro ⟨j', other, hother, rfl, hturn, hsent⟩
    obtain ⟨before, hbefore, rfl⟩ := Chain.getElem?_setPhase hother
    by_cases hjj' : j = j'
    · subst hjj'
      rw [hj] at hbefore
      cases hbefore
      exact .inr ⟨rfl, hsent⟩
    · rw [if_neg hjj'] at hturn
      exact .inl (h.inbox.mpr ⟨j', before, hbefore, rfl, hturn, hsent⟩)
  · rintro (hi | ⟨rfl, hsent⟩)
    · obtain ⟨j', other, hother, rfl, hturn, hsent⟩ := h.inbox.mp hi
      refine ⟨j', _, Chain.setPhase_of_getElem? hother, rfl, ?_, hsent⟩
      split
      · exact hphase
      · exact hturn
    · refine ⟨j, _, Chain.setPhase_of_getElem? hj, rfl, ?_, hsent⟩
      rw [if_pos rfl]
      exact hphase

theorem Inv.deliver (h : Inv S w) (hs : w.deliver S j = some w') : Inv S w' := by
  obtain ⟨job, hj, hs⟩ := bind_eq_some_iff.mp hs
  obtain ⟨lookup, hlookup, hs⟩ := bind_eq_some_iff.mp hs
  obtain ⟨ok, hok, hs⟩ := bind_eq_some_iff.mp hs
  split at hs
  next hturn =>
    obtain ⟨hphase, hfree⟩ := hturn
    have hsends : Sends S w job ↔ (ok && reaches (chatRooms job.payload.message
        (idsForFilter S.table lookup.chatId)) none S.rooms) = true := by
      rw [Bool.and_eq_true]
      constructor
      · rintro ⟨found, hfound, hyes, hreach⟩
        rw [hlookup] at hfound
        cases hfound
        rw [hok] at hyes
        exact ⟨some.inj hyes, hreach⟩
      · rintro ⟨rfl, hreach⟩
        exact ⟨lookup, hlookup, hok, hreach⟩
    have hkept : ∀ {v : World}, v.deliveries = w.deliveries.setPhase j .running →
        v.emitted = w.emitted → v.lookups = w.lookups → Kept v := by
      intro v hdeliveries hemitted hlookups
      refine h.kept.setPhase hj ?_ (by rw [hdeliveries]) ?_ hemitted hlookups
      · intro found hfound
        rw [hlookup] at hfound
        cases hfound
        rw [hok]
        exact some_ne_none ok
      · rw [hdeliveries]
        exact h.kept.chain.begin hj hphase hfree
    cases hs
    refine ⟨⟨h.asked.session, h.asked.memo⟩, hkept rfl rfl rfl, ⟨?_, ?_⟩⟩
    · intro i
      -- the deliveries whose turn has come: those before, and this one
      refine Iff.trans ?_ (h.filed.turned hj Phase.noConfusion).symm
      rw [hsends]
      split
      next hsent => rw [mem_append, mem_singleton, and_iff_left hsent]
      next hsent => exact ⟨.inl, fun hi => hi.resolve_right fun hnew => hsent hnew.2⟩
    · dsimp only
      split
      next =>
        refine pairwise_append.mpr ⟨h.filed.sorted, pairwise_singleton _ _, ?_⟩
        intro i hi i' hi'
        rw [mem_singleton.mp hi']
        exact h.before_turn hj hphase hi
      next => exact h.filed.sorted
  next => cases hs

theorem Inv.finish (h : Inv S w) (hs : w.finish j = some w') : Inv S w' := by
  obtain ⟨job, hj, hs⟩ := bind_eq_some_iff.mp hs
  split at hs
  next hphase =>
    have hrunning : job.phase ≠ .waiting := by
      rw [hphase]
      exact Phase.noConfusion
    have hjobs : ((w.deliveries.setPhase j .settled).reclaim job.key j).jobs
        = (w.deliveries.setPhase j .settled).jobs := by
      unfold Chain.reclaim
      split <;> rfl
    have hsettled : (w.deliveries.setPhase j .settled).jobs[j]?
        = some { job with phase := if j = j then .settled else job.phase } :=
      Chain.setPhase_of_getElem? hj
    have hchain := (h.kept.chain.settle hj hphase).reclaim hsettled (if_pos rfl)
    cases hs
    refine ⟨⟨h.asked.session, h.asked.memo⟩, ?_, ⟨?_, h.filed.sorted⟩⟩
    · refine h.kept.setPhase hj ?_ hjobs hchain rfl rfl
      intro lookup hlookup
      obtain ⟨-, -, found, hfound, -, hanswer⟩ := h.kept.job hj
      rw [hlookup] at hfound
      cases hfound
      exact hanswer hrunning
    · intro i
      rw [hjobs]
      refine Iff.trans (or_iff_left_of_imp ?_).symm (h.filed.turned hj Phase.noConfusion).symm
      rintro ⟨rfl, hsent⟩
      exact h.filed.inbox.mpr ⟨j, job, hj, rfl, hrunning, hsent⟩
  next => cases hs

-- ======== the runs

/-- The emissions of a run are proper. -/
def EmitsProper (a : Action) (_ : World) : Prop := ∀ e, a = .emit e → Proper e

/-- Every step keeps the deliveries sound. -/
theorem Inv.step (h : Inv S w) {a : Action} (hproper : EmitsProper a w)
    (hs : (gateway S).step a w = some w') : Inv S w' := by
  cases a with
  | emit e =>
    cases hs
    exact h.emit (hproper e rfl)
  | answer l ok => exact h.answer hs
  | note l => exact h.note hs
  | deliver j => exact h.deliver hs
  | finish j => exact h.finish hs
  | tick ms =>
    cases hs
    exact h.of_grows { h.asked with } (Grows.refl w)

theorem Inv.reach (hr : ((gateway S).restrict EmitsProper).Reach World.init w) : Inv S w := by
  refine hr.invariant (Inv.init S) ?_
  intro a t t' h hs
  obtain ⟨hproper, hs⟩ := Machine.restrict_step.mp hs
  exact h.step hproper hs

end OpenWA.Events

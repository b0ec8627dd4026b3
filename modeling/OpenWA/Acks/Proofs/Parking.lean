/-
Parking the acks of a message in flight and applying the furthest of them,
against applying each to its row.

# Where they agree

One chat's acks fold as the row itself does: the first status is kept, and
only `delivered` gives way, to `read` (`furthest_eq`). Across chats the
furthest is taken in the order the chats came, so the first status of all
still decides, and a `read` counts if its own chat kept it. A chat that began with
`failed` has lost the `read` that came after it; if all chats with a `read` did,
and the first status of all was `delivered`, the row would be at `read` and
the parked acks leave it at `delivered` (`Overshadowed`).
-/
import OpenWA.Acks.Projector

namespace OpenWA.Acks

open MessageStatus List Record

/-- A status an ack can bring. -/
def MessageStatus.upgrades : MessageStatus → Bool
  | .delivered => true
  | .read => true
  | .failed => true
  | .pending => false
  | .sent => false

theorem upgrades_of_some {status : DeliveryStatus} {target : MessageStatus}
    (h : deliveryStatusToMessageStatus status = some target) : target.upgrades = true := by
  cases status
  case pending | sent => cases h
  all_goals
    rw [← Option.some.inj h]
    rfl

-- ======== the furthest

/-- The furthest of the statuses, in their order. -/
def furthestOf (l : List MessageStatus) : Option MessageStatus :=
  l.foldl (fun furthest s => some (further furthest s)) none

theorem foldl_further (l : List MessageStatus) (kept : MessageStatus) :
    l.foldl (fun furthest s => some (further furthest s)) (some kept)
      = some (l.foldl advance kept) := by
  induction l generalizing kept with
  | nil => rfl
  | cons s l ih => exact ih (kept.advance s)

theorem furthestOf_cons (s : MessageStatus) (l : List MessageStatus) :
    furthestOf (s :: l) = some (l.foldl advance s) := foldl_further l s

variable {s : MessageStatus} {l : List MessageStatus} {acks : Receipts} {foreign : Text → Bool}

/-- `read` and `failed` stay. -/
theorem foldl_advance_of_final (l : List MessageStatus) (h : ∀ t, s.advance t = s) :
    l.foldl advance s = s := by
  induction l with
  | nil => rfl
  | cons t l ih =>
    rw [foldl_cons, h t]
    exact ih

theorem read_final (t : MessageStatus) : read.advance t = read := by cases t <;> rfl

theorem failed_final (t : MessageStatus) : failed.advance t = failed := by cases t <;> rfl

/-- `delivered` gives way to `read` only. -/
theorem foldl_advance_delivered (l : List MessageStatus) :
    l.foldl advance delivered = if read ∈ l then read else delivered := by
  induction l with
  | nil => rfl
  | cons t l ih =>
    rw [foldl_cons]
    by_cases ht : t = read
    · rw [ht, if_pos mem_cons_self]
      exact foldl_advance_of_final l read_final
    · have hstays : delivered.advance t = delivered := by
        cases t
        case read => exact absurd rfl ht
        all_goals rfl
      rw [hstays, ih]
      simp [Ne.symm ht]

theorem advance_sent (hs : s.upgrades = true) : sent.advance s = s := by
  cases s
  case pending | sent => cases hs
  all_goals rfl

/-- The furthest: `failed` if it came first, else `read` if there is one. -/
theorem furthestOf_formula (hs : s.upgrades = true) :
    furthestOf (s :: l)
      = some (if s = failed then failed else if read ∈ s :: l then read else delivered) := by
  rw [furthestOf_cons]
  cases s
  case pending | sent => cases hs
  case delivered => simp [foldl_advance_delivered]
  case read => simp [foldl_advance_of_final l read_final]
  case failed => simp [foldl_advance_of_final l failed_final]

theorem upgrades_furthestOf (hl : ∀ t ∈ l, t.upgrades = true) (h : furthestOf l = some s) :
    s.upgrades = true := by
  cases l with
  | nil => cases h
  | cons t l =>
    rw [furthestOf_formula (hl t mem_cons_self)] at h
    rw [← Option.some.inj h]
    repeat' split
    all_goals rfl

/-- `read` is kept if there is one and the first is not `failed`. -/
theorem furthestOf_eq_read (hl : ∀ s ∈ l, s.upgrades = true) :
    furthestOf l = some read ↔ read ∈ l ∧ l.head? ≠ some failed := by
  cases l with
  | nil => simp [furthestOf]
  | cons s l =>
    rw [furthestOf_formula (hl s mem_cons_self), head?_cons]
    by_cases hs : s = failed
    · simp [hs]
    · by_cases hr : read ∈ s :: l
      · rw [if_neg hs, if_pos hr]
        simp [hr, hs]
      · rw [if_neg hs, if_neg hr]
        simp [hr]

-- ======== the parking

/-- Acks that bring a status, with the chat their receipt named. -/
abbrev Receipts := List (Option Text × MessageStatus)

/-- The statuses of one chat's acks. -/
def Receipts.under (acks : Receipts) (chat : Option Text) : List MessageStatus :=
  (acks.filter fun e => e.1 = chat).map Prod.snd

/-- The acks of a sequence that bring a status. -/
def upgrading (acks : List (Option Text × DeliveryStatus)) : Receipts :=
  acks.filterMap fun e => (deliveryStatusToMessageStatus e.2).map fun target => (e.1, target)

/-- The receipts parked one after the other. -/
def parkAll (acks : Receipts) : ParkedAcks := acks.foldl (fun parked e => parked.park e.1 e.2) empty

namespace ParkedAcks

variable (parked : ParkedAcks) (chat : Option Text) (status : MessageStatus)

theorem get_park_self :
    (parked.park chat status).get chat = some (further (parked.get chat) status) := by
  unfold park
  cases hget : parked.get chat with
  | none => exact get_set_self parked chat status
  | some kept =>
    change get (if kept.advancesTo status = true then parked.set chat status
      else parked) chat = some (if kept.advancesTo status = true then status else kept)
    split
    · exact get_set_self parked chat status
    · exact hget

theorem get_park_of_ne {other : Option Text} (h : other ≠ chat) :
    (parked.park chat status).get other = parked.get other := by
  unfold park
  split
  · exact get_set_of_ne parked status h
  · split
    · exact get_set_of_ne parked status h
    · rfl

/-- Parking an ack leaves the first chat first. -/
theorem head_park {first : Option Text} (h : (parked.entries.map Prod.fst).head? = some first) :
    ((parked.park chat status).entries.map Prod.fst).head? = some first := by
  have hset : ((parked.set chat status).entries.map Prod.fst).head? = some first := by
    obtain ⟨l, hl⟩ := keys_set parked chat status
    rw [hl, head?_append, h]
    rfl
  unfold park
  split
  · exact hset
  · split
    · exact hset
    · exact h

end ParkedAcks

/-- What is parked for a chat is the furthest of its acks. -/
theorem get_foldl_park (acks : Receipts) (parked : ParkedAcks) (chat : Option Text) :
    (acks.foldl (fun parked e => parked.park e.1 e.2) parked).get chat
      = (acks.under chat).foldl (fun furthest s => some (further furthest s))
          (parked.get chat) := by
  induction acks generalizing parked with
  | nil => rfl
  | cons e acks ih =>
    obtain ⟨chat', status⟩ := e
    rw [foldl_cons, ih]
    unfold Receipts.under
    by_cases hc : chat' = chat
    · rw [filter_cons_of_pos (by simpa using hc), map_cons, foldl_cons, hc,
        ParkedAcks.get_park_self]
    · rw [filter_cons_of_neg (by simpa using hc), ParkedAcks.get_park_of_ne _ _ _ (Ne.symm hc)]

/-- For each chat the furthest of its acks is kept. -/
theorem get_parkAll (acks : Receipts) (chat : Option Text) :
    (parkAll acks).get chat = furthestOf (acks.under chat) := get_foldl_park acks empty chat

variable {parked : ParkedAcks}

theorem head_foldl_park (acks : Receipts) {first : Option Text}
    (h : (parked.entries.map Prod.fst).head? = some first) :
    ((acks.foldl (fun parked e => parked.park e.1 e.2) parked).entries.map Prod.fst).head?
      = some first := by
  induction acks generalizing parked with
  | nil => exact h
  | cons e acks ih => exact ih (parked.head_park e.1 e.2 h)

/-- The chat of the first ack is the first. -/
theorem head_parkAll (chat : Option Text) (status : MessageStatus) (acks : Receipts) :
    ((parkAll ((chat, status) :: acks)).entries.map Prod.fst).head? = some chat := by
  refine head_foldl_park acks ?_
  rfl

theorem upgrades_of_get (h : ∀ e ∈ acks, e.2.upgrades = true) (chat : Option Text) :
    ∀ s ∈ acks.under chat, s.upgrades = true := by
  intro s hs
  obtain ⟨e, he, rfl⟩ := mem_map.mp hs
  exact h e (mem_filter.mp he).1

variable {chat : Option Text}

theorem mem_under : s ∈ acks.under chat ↔ (chat, s) ∈ acks := by
  unfold Receipts.under
  simp

/-- Every chat that brought a `read` began with `failed`, and the first
status of all is `delivered`. -/
structure Overshadowed (acks : Receipts) : Prop where
  first : (acks.map Prod.snd).head? = some delivered
  reads : ∃ chat, (chat, read) ∈ acks
  failed : ∀ chat, (chat, read) ∈ acks → (acks.under chat).head? = some .failed

/-- A `read` is kept if a chat that brought one did not begin with `failed`. -/
theorem read_kept_iff (hup : ∀ e ∈ acks, e.2.upgrades = true) :
    read ∈ (parkAll acks).entries.map Prod.snd ↔
      ∃ chat, (chat, read) ∈ acks ∧ (acks.under chat).head? ≠ some .failed := by
  have hkept : ∀ chat, (parkAll acks).get chat = some read ↔
      (chat, read) ∈ acks ∧ (acks.under chat).head? ≠ some .failed := by
    intro chat
    rw [get_parkAll, furthestOf_eq_read (upgrades_of_get hup chat), mem_under]
  constructor
  · intro h
    obtain ⟨e, he, hread⟩ := mem_map.mp h
    exact ⟨e.1, (hkept e.1).mp (by rw [Record.get_of_mem he, hread])⟩
  · intro h
    obtain ⟨chat, hchat⟩ := h
    exact mem_map.mpr ⟨(chat, read), mem_of_get ((hkept chat).mpr hchat), rfl⟩

-- ======== both ways

/-- The row once the furthest parked ack is applied to it. -/
def parkedStatus (foreign : Text → Bool) (acks : Receipts) : MessageStatus :=
  match furthestParkedAck foreign (parkAll acks) with
  | none => sent
  | some target => sent.advance target

/-- The row once every ack is applied to it in turn. -/
def directStatus (acks : Receipts) : MessageStatus := acks.foldl (fun row e => row.advance e.2) sent

/-- Without a foreign chat the furthest is that of all kept statuses. -/
theorem furthestParkedAck_eq
    (h : ∀ e ∈ parked.entries, e.1.any foreign = false) :
    furthestParkedAck foreign parked = furthestOf (parked.entries.map Prod.snd) := by
  unfold furthestParkedAck furthestOf
  rw [foldl_map]
  refine foldl_ext _ _ none ?_
  intro furthest e he
  rw [h e he]
  rfl

/-- A kept status is one of its chat's acks. -/
theorem chat_of_kept (h : (parkAll acks).get chat = some s) : ∃ e ∈ acks, e.1 = chat := by
  rw [get_parkAll] at h
  cases hunder : acks.under chat with
  | nil =>
    rw [hunder] at h
    cases h
  | cons t l =>
    have hmem : t ∈ acks.under chat := by
      rw [hunder]
      exact mem_cons_self
    exact ⟨(chat, t), mem_under.mp hmem, rfl⟩

/-- The kept statuses begin with that of the first ack's chat. -/
theorem values_parkAll (chat : Option Text) (status : MessageStatus) (acks : Receipts) :
    ∃ rest, (parkAll ((chat, status) :: acks)).entries.map Prod.snd
      = (acks.under chat).foldl advance status :: rest := by
  have hhead := head_parkAll chat status acks
  have hget := get_parkAll ((chat, status) :: acks) chat
  cases hentries : (parkAll ((chat, status) :: acks)).entries with
  | nil =>
    rw [hentries] at hhead
    cases hhead
  | cons e rest =>
    obtain ⟨chat', kept⟩ := e
    rw [hentries] at hhead
    have hchat : chat' = chat := Option.some.inj hhead
    have hmem : (chat, kept) ∈ (parkAll ((chat, status) :: acks)).entries := by
      rw [hentries, hchat]
      exact mem_cons_self
    have hunder : Receipts.under ((chat, status) :: acks) chat = status :: acks.under chat := by
      unfold Receipts.under
      rw [filter_cons_of_pos (by simp), map_cons]
    rw [Record.get_of_mem hmem, hunder, furthestOf_cons] at hget
    refine ⟨rest.map Prod.snd, ?_⟩
    rw [map_cons, Option.some.inj hget]

/-- The furthest parked status, by the first ack and the kept ones. -/
theorem furthest_parkAll {status : MessageStatus}
    (hup : ∀ e ∈ (chat, status) :: acks, e.2.upgrades = true)
    (hforeign : ∀ e ∈ (chat, status) :: acks, e.1.any foreign = false) :
    furthestParkedAck foreign (parkAll ((chat, status) :: acks))
      = some (if status = failed then failed
          else if read ∈ (parkAll ((chat, status) :: acks)).entries.map Prod.snd then read
          else delivered) := by
  have hstatus : status.upgrades = true := hup (chat, status) mem_cons_self
  obtain ⟨rest, hrest⟩ := values_parkAll chat status acks
  -- the first kept status is `failed` if the first ack is
  have hfirst : furthestOf (status :: acks.under chat)
      = some ((acks.under chat).foldl advance status) := furthestOf_cons _ _
  have hfailed : (acks.under chat).foldl advance status = failed ↔ status = failed := by
    rw [furthestOf_formula hstatus] at hfirst
    rw [← Option.some.inj hfirst]
    by_cases hs : status = failed
    · simp [hs]
    · rw [if_neg hs]
      split <;> simp [hs]
  have hkept : ((acks.under chat).foldl advance status).upgrades = true := by
    refine upgrades_furthestOf ?_ hfirst
    intro t ht
    rcases mem_cons.mp ht with heq | hmem
    · rw [heq]
      exact hstatus
    · exact hup _ (mem_cons_of_mem _ (mem_under.mp hmem))
  rw [furthestParkedAck_eq, hrest, furthestOf_formula hkept, ← hrest]
  · simp only [hfailed]
  · intro e he
    obtain ⟨e', he', hchat⟩ := chat_of_kept (get_of_mem he)
    rw [← hchat]
    exact hforeign e' he'

/-- **Parking against applying.** The furthest parked ack gives the row the
status that all acks applied in turn give it, unless the acks are
overshadowed. -/
theorem parkedStatus_spec (hup : ∀ e ∈ acks, e.2.upgrades = true)
    (hforeign : ∀ e ∈ acks, e.1.any foreign = false) :
    (¬ Overshadowed acks → parkedStatus foreign acks = directStatus acks) ∧
    (Overshadowed acks → parkedStatus foreign acks = delivered ∧ directStatus acks = read) := by
  cases acks with
  | nil =>
    refine ⟨fun _ => rfl, ?_⟩
    intro h
    cases h.first
  | cons e acks =>
    obtain ⟨chat, status⟩ := e
    have hstatus : status.upgrades = true := hup (chat, status) mem_cons_self
    have hread := read_kept_iff hup
    have hparked := furthest_parkAll hup hforeign
    have hdirect : directStatus ((chat, status) :: acks) = if status = failed then failed
          else if read ∈ status :: acks.map Prod.snd then read else delivered := by
      have hfold : directStatus ((chat, status) :: acks)
          = (acks.map Prod.snd).foldl advance (sent.advance status) := by
        unfold directStatus
        rw [foldl_cons, foldl_map]
      have hformula := furthestOf_formula (l := acks.map Prod.snd) hstatus
      rw [furthestOf_cons] at hformula
      rw [hfold, advance_sent hstatus]
      exact Option.some.inj hformula
    have hparkedStatus : parkedStatus foreign ((chat, status) :: acks)
        = if status = failed then failed
          else if read ∈ (parkAll ((chat, status) :: acks)).entries.map Prod.snd then read
          else delivered := by
      unfold parkedStatus
      rw [hparked]
      refine advance_sent ?_
      repeat' split
      all_goals rfl
    -- a `read` of the sequence, with its chat
    have hmem : read ∈ status :: acks.map Prod.snd ↔ ∃ c, (c, read) ∈ (chat, status) :: acks := by
      have hmap : status :: acks.map Prod.snd = ((chat, status) :: acks).map Prod.snd := rfl
      rw [hmap, mem_map]
      constructor
      · intro h
        obtain ⟨e, he, hstatus⟩ := h
        exact ⟨e.1, hstatus ▸ he⟩
      · intro h
        obtain ⟨c, hc⟩ := h
        exact ⟨(c, read), hc, rfl⟩
    rw [hparkedStatus, hdirect]
    constructor
    · intro hnot
      by_cases hs : status = failed
      · rw [if_pos hs, if_pos hs]
      · rw [if_neg hs, if_neg hs]
        refine if_congr ?_ rfl rfl
        rw [hread, hmem]
        refine ⟨fun h => h.imp fun _ => And.left, ?_⟩
        intro hreads
        by_contra hnone
        have hall : ∀ c, (c, read) ∈ (chat, status) :: acks →
            (Receipts.under ((chat, status) :: acks) c).head? = some .failed := by
          intro c hc
          by_contra hfirst
          exact hnone ⟨c, hc, hfirst⟩
        refine hnot ⟨?_, hreads, hall⟩
        cases status
        case delivered => rfl
        case failed => exact absurd rfl hs
        case read =>
          have hhead := hall chat mem_cons_self
          unfold Receipts.under at hhead
          rw [filter_cons_of_pos (by simp)] at hhead
          cases hhead
        all_goals cases hstatus
    · intro h
      have hs : status = delivered := Option.some.inj h.first
      have hnot : ¬ status = failed := by
        rw [hs]
        exact fun heq => by cases heq
      rw [if_neg hnot, if_neg hnot, if_pos (hmem.mpr h.reads), if_neg]
      · exact ⟨rfl, rfl⟩
      · intro hkept
        obtain ⟨c, hc, hfirst⟩ := hread.mp hkept
        exact hfirst (h.failed c hc)

end OpenWA.Acks

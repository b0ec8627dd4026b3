/-
The reconciler's walk reads every stranded delivery it can read.

# The argument

A page is a segment of the stale rows in their order, whatever the table
holds besides them: it starts where the cursor's row stands (`page_eq`), and
behind a cursor whose row is gone it is empty, as at the end. What the sweep
leaves as its cursor is the last row of the page, read or not
(`Access.finds`), so the walk is a cursor going round the list of stale
rows (`Round`), and each row is met within the turns that takes.

A row that holds `null` is the exception: the read drops it without a word
to the caller, so it cannot be the cursor, and behind a page of such rows
the walk gets nowhere (`null_row_stops_walk`).
-/
import Mathlib.Data.Prod.Lex
import OpenWA.Lib.Round
import OpenWA.Webhook.Sweep

namespace OpenWA.Webhook

variable {Id : Type*} [LinearOrder Id]

-- ======== the order

namespace OutboxEvent

variable {r r' r'' : OutboxEvent Id}

/-- What the rows are ordered by. -/
def key (r : OutboxEvent Id) : ℕ ×ₗ Id := toLex (r.createdAt, r.id)

theorem before_iff : r.before r' = true ↔ r.key < r'.key := by
  simp [before, key, Prod.Lex.toLex_lt_toLex]

theorem not_before_iff : r'.before r = false ↔ r.key ≤ r'.key := by
  rw [← Bool.not_eq_true, before_iff, not_lt]

theorem before_trans (h : r.before r' = true) (h' : r'.before r'' = true) :
    r.before r'' = true := before_iff.mpr ((before_iff.mp h).trans (before_iff.mp h'))

theorem not_before_self : r.before r = false := not_before_iff.mpr le_rfl

theorem before_asymm (h : r.before r' = true) : r'.before r = false :=
  not_before_iff.mpr (before_iff.mp h).le

/-- Rows with different ids are in order one way or the other. -/
theorem before_of_not_before (h : r'.before r = false) (hid : r.id ≠ r'.id) :
    r.before r' = true := by
  refine before_iff.mpr (lt_of_le_of_ne (not_before_iff.mp h) fun heq => hid ?_)
  exact congrArg (fun k : ℕ ×ₗ Id => (ofLex k).2) heq

end OutboxEvent

open OutboxEvent List

variable {r : OutboxEvent Id} {rows : List (OutboxEvent Id)}

theorem mem_inOrder : r ∈ inOrder rows ↔ r ∈ rows := by
  exact mem_insertionSort _

theorem perm_inOrder (rows : List (OutboxEvent Id)) : (inOrder rows).Perm rows := by
  exact perm_insertionSort _ rows

/-- Rows with different ids come out in strict order. -/
theorem pairwise_inOrder
    (h : (rows.map OutboxEvent.id).Nodup) :
    (inOrder rows).Pairwise fun r r' => r.before r' = true := by
  have htotal : Std.Total fun r r' : OutboxEvent Id => r'.before r = false :=
    ⟨fun r r' => (le_total r.key r'.key).imp not_before_iff.mpr not_before_iff.mpr⟩
  have htrans : IsTrans (OutboxEvent Id) fun r r' => r'.before r = false :=
    ⟨fun _ _ _ h h' => not_before_iff.mpr ((not_before_iff.mp h).trans (not_before_iff.mp h'))⟩
  have hsorted : (inOrder rows).Pairwise fun r r' => r'.before r = false :=
    pairwise_insertionSort _ rows
  have hids : (inOrder rows).Pairwise fun r r' => r.id ≠ r'.id := by
    have hnodup : ((inOrder rows).map OutboxEvent.id).Nodup :=
      ((perm_inOrder rows).map OutboxEvent.id).nodup_iff.mpr h
    exact pairwise_map.mp hnodup
  exact (hsorted.and hids).imp fun hand => before_of_not_before hand.1 hand.2

-- ======== the pages

namespace Access

variable (a : Access Id)

/-- The stale rows, in the order they are read. -/
def staleRows : List (OutboxEvent Id) := inOrder (a.table.filter a.pending)

omit [LinearOrder Id] in
theorem nodup_filter_ids (f : OutboxEvent Id → Bool) :
    ((a.table.filter f).map OutboxEvent.id).Nodup :=
  List.Nodup.sublist (filter_sublist.map OutboxEvent.id) a.unique

theorem pairwise_staleRows : a.staleRows.Pairwise fun r r' => r.before r' = true :=
  pairwise_inOrder (a.nodup_filter_ids a.pending)

theorem mem_staleRows : r ∈ a.staleRows ↔ r ∈ a.table ∧ a.pending r = true := by
  unfold staleRows
  rw [mem_inOrder, mem_filter]

/-- A page is taken from the stale rows behind the cursor. -/
theorem page_eq (limit : Nat) (afterId : Option Id) :
    a.page limit afterId = (a.staleRows.filter (a.behind afterId)).take limit := by
  unfold page
  congr 1
  have hperm : (inOrder (a.table.filter fun r => a.pending r && a.behind afterId r)).Perm
      (a.staleRows.filter (a.behind afterId)) := by
    refine (perm_inOrder _).trans ?_
    have hfilter : (a.table.filter fun r => a.pending r && a.behind afterId r)
        = (a.table.filter a.pending).filter (a.behind afterId) := by
      rw [filter_filter]
      exact filter_congr fun r _ => Bool.and_comm _ _
    rw [hfilter]
    exact (perm_inOrder _).symm.filter _
  refine hperm.eq_of_pairwise ?_ (pairwise_inOrder (a.nodup_filter_ids _))
    (a.pairwise_staleRows.filter _)
  intro r r' _ _ h h'
  rw [before_asymm h] at h'
  cases h'

end Access

variable {l : List (OutboxEvent Id)}

/-- In an ordered list, what is behind a row is an end of the list. -/
theorem filter_before_eq_drop
    (h : l.Pairwise fun r r' => r.before r' = true) (c : OutboxEvent Id) :
    ∃ p, p ≤ l.length ∧ l.filter (c.before ·) = l.drop p := by
  induction l with
  | nil => exact ⟨0, Nat.le_refl 0, rfl⟩
  | cons r l ih =>
    obtain ⟨hfirst, hrest⟩ := pairwise_cons.mp h
    cases hc : c.before r with
    | true =>
      refine ⟨0, Nat.zero_le _, ?_⟩
      rw [drop_zero, filter_eq_self]
      intro r' hr'
      rcases mem_cons.mp hr' with heq | hmem
      · rw [heq]
        exact hc
      · exact before_trans hc (hfirst r' hmem)
    | false =>
      obtain ⟨p, hp, hfilter⟩ := ih hrest
      refine ⟨p + 1, Nat.succ_le_succ hp, ?_⟩
      rw [filter_cons_of_neg (by rw [hc]; exact Bool.false_ne_true), hfilter]
      rfl

variable {i p : Nat}

/-- Behind a row of the list are the rows after it. -/
theorem filter_before_getElem
    (h : l.Pairwise fun r r' => r.before r' = true) (hi : i < l.length) :
    l.filter (l[i].before ·) = l.drop (i + 1) := by
  induction l generalizing i with
  | nil => cases hi
  | cons r l ih =>
    obtain ⟨hfirst, hrest⟩ := pairwise_cons.mp h
    cases i with
    | zero =>
      change (r :: l).filter (r.before ·) = l
      rw [filter_cons_of_neg (by rw [not_before_self]; exact Bool.false_ne_true), filter_eq_self]
      exact hfirst
    | succ i =>
      have hlt : i < l.length := Nat.lt_of_succ_lt_succ hi
      change (r :: l).filter (l[i].before ·) = l.drop (i + 1)
      have hnot : l[i].before r = false := before_asymm (hfirst _ (l.getElem_mem hlt))
      rw [filter_cons_of_neg (by rw [hnot]; exact Bool.false_ne_true)]
      exact ih hrest hlt

/-- The row of an id is the only one. -/
theorem find_id
    (h : (l.map OutboxEvent.id).Nodup) (hr : r ∈ l) : l.find? (fun c => c.id = r.id) = some r := by
  cases hc : l.find? (fun c => c.id = r.id) with
  | none => exact absurd (decide_eq_true rfl) (find?_eq_none.mp hc r hr)
  | some c =>
    have hid : c.id = r.id := by simpa using find?_some hc
    exact congrArg some (inj_on_of_nodup_map h (mem_of_find?_eq_some hc) hr hid)

/-- `p` stale rows are not behind the cursor. -/
def Access.At (a : Access Id) (cursor : Option Id) (p : Nat) : Prop :=
  a.staleRows.filter (a.behind cursor) = a.staleRows.drop p

namespace Access

variable {a : Access Id}

theorem at_none : a.At none 0 := by
  unfold At
  rw [drop_zero, filter_eq_self]
  exact fun _ _ => rfl

/-- Where the cursor's row is in the table, the rows after it are behind. -/
theorem at_some_iff {id : Id} {c : OutboxEvent Id}
    (h : a.table.find? (fun c => c.id = id) = some c) :
    a.At (some id) p ↔ a.staleRows.filter (c.before ·) = a.staleRows.drop p := by
  have hbehind : a.behind (some id) = (c.before ·) := by
    funext r
    unfold behind
    dsimp only
    rw [h]
  unfold At
  rw [hbehind]

/-- A cursor is somewhere; one whose row is gone is at the end. -/
theorem exists_at (a : Access Id) (cursor : Option Id) :
    ∃ p, p ≤ a.staleRows.length ∧ a.At cursor p := by
  cases cursor with
  | none => exact ⟨0, Nat.zero_le _, at_none⟩
  | some id =>
    cases hfind : a.table.find? fun c => c.id = id with
    | none =>
      refine ⟨a.staleRows.length, Nat.le_refl _, ?_⟩
      unfold At
      rw [drop_length, filter_eq_nil_iff]
      intro r _
      unfold behind
      dsimp only
      rw [hfind]
      exact Bool.false_ne_true
    | some c =>
      obtain ⟨p, hp, hdrop⟩ := filter_before_eq_drop a.pairwise_staleRows c
      exact ⟨p, hp, (at_some_iff hfind).mpr hdrop⟩

/-- After a page the cursor is at the row behind its last one. -/
theorem at_getElem (hi : i < a.staleRows.length) : a.At (some a.staleRows[i].id) (i + 1) := by
  have hmem := (a.mem_staleRows.mp (a.staleRows.getElem_mem hi)).1
  exact (at_some_iff (find_id a.unique hmem)).mpr (filter_before_getElem a.pairwise_staleRows hi)

end Access

-- ======== the reads

omit [LinearOrder Id] in
theorem id_of_replayable {d : ReplayableDelivery Id} (h : r.replayable = some d) : d.id = r.id := by
  obtain ⟨payload, -, rfl⟩ := Option.map_eq_some_iff.mp h
  rfl

omit [LinearOrder Id] in
/-- A stale row that does not hold `null` is a delivery to replay. -/
theorem exists_replayable (h : r.stale = true) (hnull : r.holdsNull = false) :
    ∃ d, r.replayable = some d := by
  obtain ⟨text, htext⟩ := Option.isSome_iff_exists.mp (Bool.and_eq_true_iff.mp h).2
  unfold OutboxEvent.holdsNull at hnull
  unfold OutboxEvent.replayable
  rw [htext, Option.any_some] at hnull
  rw [htext, Option.filter_some, if_pos (by rw [hnull]; rfl)]
  exact ⟨_, rfl⟩

omit [LinearOrder Id] in
/-- The deliveries of stale rows, row by row. -/
theorem map_id_replayable (h : ∀ r ∈ l, r.stale = true) (hnull : ∀ r ∈ l, r.holdsNull = false) :
    (l.filterMap OutboxEvent.replayable).map ReplayableDelivery.id = l.map OutboxEvent.id := by
  induction l with
  | nil => rfl
  | cons r l ih =>
    obtain ⟨d, hd⟩ := exists_replayable (h r mem_cons_self) (hnull r mem_cons_self)
    rw [filterMap_cons_some hd, map_cons, map_cons, id_of_replayable hd,
      ih (fun r' hr' => h r' (mem_cons_of_mem r hr')) fun r' hr' => hnull r' (mem_cons_of_mem r hr')]

/-- What a read of a page gives: at most its rows, those among them that can
be read, and a last id that is the page's, unless a row holds `null`. -/
structure Access.Finds (a : Access Id) (page : List (OutboxEvent Id))
    (found : List (ReplayableDelivery Id) × Option Id) : Prop where
  length : found.1.length ≤ page.length
  cursor : (∀ r ∈ page, r.holdsNull = false) →
    found.2.or (found.1.getLast?.map ReplayableDelivery.id) = page.getLast?.map OutboxEvent.id
  reads : ∀ r ∈ page, r.holdsNull = false → a.fetch r.id = .row r → ∃ d ∈ found.1, d.id = r.id

variable {found : List (ReplayableDelivery Id) × Option Id} {cursor : Option Id} {a : Access Id}

/-- What a read gives, of a whole page or row by row. -/
theorem Access.finds {limit : Nat}
    (h : a.findStale limit cursor = some found) : a.Finds (a.page limit cursor) found := by
  have hstale : ∀ r ∈ a.page limit cursor, r.stale = true := by
    intro r hr
    rw [a.page_eq] at hr
    have hmem := (mem_filter.mp (mem_of_mem_take hr)).1
    exact (Bool.and_eq_true_iff.mp (a.mem_staleRows.mp hmem).2).1
  have hdelivers : ∀ {l : List (OutboxEvent Id)} {r : OutboxEvent Id}, r ∈ l →
      r.stale = true → r.holdsNull = false →
      ∃ d ∈ l.filterMap OutboxEvent.replayable, d.id = r.id := by
    intro l r hr hs hnull
    obtain ⟨d, hd⟩ := exists_replayable hs hnull
    exact ⟨d, mem_filterMap.mpr ⟨r, hr, hd⟩, id_of_replayable hd⟩
  unfold findStale at h
  dsimp only at h
  split at h
  next =>
    rw [← Option.some.inj h]
    refine ⟨length_filterMap_le _ _, fun hnull => ?_,
      fun r hr hnull _ => hdelivers hr (hstale r hr) hnull⟩
    change Option.map ReplayableDelivery.id _ = _
    rw [← getLast?_map, map_id_replayable hstale hnull, getLast?_map]
  next =>
    split at h
    next => cases h
    next =>
      rw [← Option.some.inj h]
      refine ⟨?_, fun _ => ?_, ?_⟩
      · exact (length_filterMap_le _ _).trans (length_filterMap_le _ _)
      · dsimp only
        cases hpage : a.page limit cursor with
        | nil => rfl
        | cons r l =>
          rfl
      · intro r hr hnull hfetch
        refine hdelivers (mem_filterMap.mpr ⟨r, hr, ?_⟩) (hstale r hr) hnull
        rw [hfetch]
        rfl

omit [LinearOrder Id] in
/-- The read of an empty page gives nothing, not even a last id. -/
theorem Access.Finds.of_nil (h : a.Finds [] found) :
    (found.1.isEmpty && found.2.isNone) = true := by
  have hcursor := h.cursor fun r hr => by cases hr
  rw [Bool.and_eq_true, List.isEmpty_iff, Option.isNone_iff_eq_none]
  exact ⟨eq_nil_of_length_eq_zero (Nat.le_zero.mp h.length), (Option.or_eq_none_iff.mp hcursor).1⟩

omit [LinearOrder Id] in
/-- Nothing is read, not even a last id, of an empty page only, unless a row
holds `null`. -/
theorem Access.Finds.eq_nil {page : List (OutboxEvent Id)} (h : a.Finds page found)
    (hfound : (found.1.isEmpty && found.2.isNone) = true)
    (hnull : ∀ r ∈ page, r.holdsNull = false) : page = [] := by
  have hcursor := h.cursor hnull
  rw [Bool.and_eq_true, List.isEmpty_iff, Option.isNone_iff_eq_none] at hfound
  rw [hfound.1, hfound.2] at hcursor
  exact getLast?_eq_none_iff.mp (Option.map_eq_none_iff.mp hcursor.symm)

-- ======== the sweeps

omit [LinearOrder Id] in
/-- The loop keeps the cursor and the number of rows read, and if it is not
cut short it visits the rows in turn. -/
theorem visitRows_spec (visit : ReplayableDelivery Id → Visit)
    (rows : List (ReplayableDelivery Id)) (s : Swept Id) :
    (visitRows visit rows s).cursor = s.cursor ∧
      (visitRows visit rows s).stats.scanned = s.stats.scanned ∧
      ((visitRows visit rows s).finished = true →
        (visitRows visit rows s).visited = s.visited ++ rows) := by
  induction rows generalizing s with
  | nil => exact ⟨rfl, rfl, fun _ => (append_nil _).symm⟩
  | cons row rows ih =>
    unfold visitRows
    -- the row is visited and the loop goes on with the rest
    have hnext : ∀ t : Swept Id, t.cursor = s.cursor → t.stats.scanned = s.stats.scanned →
        t.visited = s.visited ++ [row] →
        (visitRows visit rows t).cursor = s.cursor ∧
          (visitRows visit rows t).stats.scanned = s.stats.scanned ∧
          ((visitRows visit rows t).finished = true →
            (visitRows visit rows t).visited = s.visited ++ row :: rows) := by
      intro t hcursor hscanned hvisited
      obtain ⟨hc, hn, hv⟩ := ih t
      refine ⟨hc.trans hcursor, hn.trans hscanned, fun hf => ?_⟩
      rw [hv hf, hvisited, append_assoc]
      rfl
    split
    · exact ⟨rfl, rfl, fun hf => by cases hf⟩
    all_goals exact hnext _ rfl rfl rfl

omit [LinearOrder Id] in
/-- A page is visited in order until something stops it. -/
theorem scan_spec (visit : ReplayableDelivery Id → Visit)
    (found : List (ReplayableDelivery Id) × Option Id) :
    (scan visit found).cursor = found.2.or (found.1.getLast?.map ReplayableDelivery.id) ∧
      (scan visit found).stats.scanned = found.1.length ∧
      ((scan visit found).finished = true → (scan visit found).visited = found.1) :=
  visitRows_spec visit found.1 _

/-- A sweep is cut short by a read that fails, or scans what it found in a
page, behind its cursor or, when there is nothing, from the start. -/
theorem sweep_cases (b : Nat) (cursor : Option Id) (pass : Pass Id) :
    (∃ c, sweep b cursor pass = Swept.cut c) ∨
    ∃ (a : Access Id) (start : Option Id) (found : List (ReplayableDelivery Id) × Option Id),
      a.Finds (a.page b start) found ∧ sweep b cursor pass = scan pass.visit found ∧
      (a = pass.first ∧ start = cursor ∧ (cursor.isSome → a.page b start ≠ []) ∨
        a = pass.second ∧ start = none ∧ cursor.isSome ∧
          ((∀ r ∈ pass.first.page b cursor, r.holdsNull = false) →
            pass.first.page b cursor = [])) := by
  unfold sweep
  split
  next => exact .inl ⟨_, rfl⟩
  next found hfound =>
    have hfinds := Access.finds hfound
    split
    next hempty =>
      obtain ⟨hpage, hcursor⟩ := Bool.and_eq_true_iff.mp hempty
      split
      next => exact .inl ⟨_, rfl⟩
      next found' hfound' =>
        exact .inr ⟨pass.second, none, found', Access.finds hfound', rfl,
          .inr ⟨rfl, rfl, hcursor, hfinds.eq_nil hpage⟩⟩
    next hsome =>
      refine .inr ⟨pass.first, cursor, found, hfinds, rfl, .inl ⟨rfl, rfl, ?_⟩⟩
      intro hcursor hpage
      rw [hpage] at hfinds
      exact hsome (Bool.and_eq_true_iff.mpr ⟨hfinds.of_nil, hcursor⟩)

section Segments

variable {β : Type*} {l : List β} {q b : Nat}

theorem getLast_segment (hb : 0 < b) (hq : q < l.length) :
    ∃ i, ∃ hi : i < l.length, i + 1 = min (q + b) l.length ∧
      ((l.drop q).take b).getLast? = some l[i] := by
  have hi : min (q + b) l.length - 1 < l.length := by omega
  refine ⟨min (q + b) l.length - 1, hi, by omega, ?_⟩
  have hindex : q + (min b (l.length - q) - 1) = min (q + b) l.length - 1 := by omega
  rw [getLast?_eq_getElem?, length_take, length_drop,
    getElem?_take_of_lt (by omega), getElem?_drop, hindex, getElem?_eq_getElem hi]

theorem getElem_mem_segment (hi : i < l.length) (hle : q ≤ i) (hlt : i < q + b) :
    l[i] ∈ (l.drop q).take b := by
  refine mem_iff_getElem?.mpr ⟨i - q, ?_⟩
  have hindex : q + (i - q) = i := by omega
  rw [getElem?_take_of_lt (by omega), getElem?_drop, hindex, getElem?_eq_getElem hi]

end Segments

/-- Both reads of the sweep find the row and can read it. -/
def Pass.reads (pass : Pass Id) (r : OutboxEvent Id) : Prop :=
  pass.first.fetch r.id = .row r ∧ pass.second.fetch r.id = .row r

/-- The stale rows both reads of the sweep meet. -/
def Pass.meets (pass : Pass Id) (stale : List (OutboxEvent Id)) : Prop :=
  pass.first.staleRows = stale ∧ pass.second.staleRows = stale

variable {b : Nat} {stale : List (OutboxEvent Id)} {cursor : Option Id} {pass : Pass Id}

/-- A sweep that is not cut short scans the segment its turn reads. -/
theorem sweep_scans (hb : 0 < b) (hne : 0 < stale.length) (hmeets : pass.meets stale)
    (hnull : ∀ r ∈ stale, r.holdsNull = false) (hp : p ≤ stale.length)
    (hat : pass.first.At cursor p) (hf : (sweep b cursor pass).finished = true) :
    Round.start stale.length p < stale.length ∧
    Round.next stale.length b p = min (Round.start stale.length p + b) stale.length ∧
    ∃ (a : Access Id) (found : List (ReplayableDelivery Id) × Option Id),
      sweep b cursor pass = scan pass.visit found ∧
      a.Finds ((stale.drop (Round.start stale.length p)).take b) found ∧
      ∀ r, pass.reads r → a.fetch r.id = .row r := by
  obtain ⟨c, hcut⟩ | ⟨a, start, found, hfinds, hscan, hfrom⟩ := sweep_cases b cursor pass
  · rw [hcut] at hf
    cases hf
  have hfirst : pass.first.page b cursor = (stale.drop p).take b := by
    rw [pass.first.page_eq, hat, hmeets.1]
  unfold Round.start Round.next
  rcases hfrom with ⟨ha, hstart, hsome⟩ | ⟨ha, hstart, -, hempty⟩
  · have hlt : p < stale.length := by
      cases cursor with
      | none =>
        have hat₀ : pass.first.At none 0 := Access.at_none
        unfold Access.At at hat hat₀
        rw [hat, hmeets.1] at hat₀
        have hlength := congrArg length hat₀
        rw [length_drop, drop_zero] at hlength
        omega
      | some id =>
        refine Nat.lt_of_not_ge fun hge => hsome rfl ?_
        rw [ha, hstart, hfirst, drop_eq_nil_of_le hge, take_nil]
    rw [if_pos hlt, if_pos hlt]
    rw [ha, hstart, hfirst] at hfinds
    exact ⟨hlt, rfl, pass.first, found, hscan, hfinds, fun r hr => hr.1⟩
  · have hend : ¬ p < stale.length := by
      intro hlt
      rw [hfirst] at hempty
      have hsegment := hempty fun r hr => hnull r (mem_of_mem_drop (mem_of_mem_take hr))
      rcases take_eq_nil_iff.mp hsegment with hzero | hdrop
      · omega
      · rw [drop_eq_nil_iff] at hdrop
        omega
    have hat₀ : pass.second.At none 0 := Access.at_none
    rw [if_neg hend, if_neg hend, Nat.zero_add]
    rw [ha, hstart, pass.second.page_eq, hat₀, hmeets.2] at hfinds
    exact ⟨hne, rfl, pass.second, found, hscan, hfinds, fun r hr => hr.2⟩

/-- One sweep is one turn of the cursor round the stale rows. -/
theorem sweep_turns (hb : 0 < b) (hne : 0 < stale.length) (hmeets : pass.meets stale)
    (hnull : ∀ r ∈ stale, r.holdsNull = false) (hp : p ≤ stale.length)
    (hat : pass.first.At cursor p) (hf : (sweep b cursor pass).finished = true) :
    (∃ i, ∃ hi : i < stale.length, i + 1 = Round.next stale.length b p ∧
      (sweep b cursor pass).cursor = some stale[i].id) ∧
    ∀ i (hi : i < stale.length), Round.start stale.length p ≤ i →
      i < Round.start stale.length p + b → pass.reads stale[i] →
      ∃ d ∈ (sweep b cursor pass).visited, d.id = stale[i].id := by
  obtain ⟨hlt, hnext, a, found, hscan, hfinds, hreads⟩ :=
    sweep_scans hb hne hmeets hnull hp hat hf
  obtain ⟨hlast, -, hvisited⟩ := scan_spec pass.visit found
  rw [hscan] at hf ⊢
  constructor
  · obtain ⟨i, hi, heq, hget⟩ := getLast_segment hb hlt
    refine ⟨i, hi, heq.trans hnext.symm, ?_⟩
    have hsegment := hfinds.cursor fun r hr => hnull r (mem_of_mem_drop (mem_of_mem_take hr))
    rw [hlast, hsegment, hget]
    rfl
  · intro i hi hle hlt' hr
    rw [hvisited hf]
    exact hfinds.reads stale[i] (getElem_mem_segment hi hle hlt') (hnull _ (getElem_mem hi))
      (hreads _ hr)

/-- No sweep reads more than a page. -/
theorem scanned_le (b : Nat) (cursor : Option Id) (pass : Pass Id) :
    (sweep b cursor pass).stats.scanned ≤ b := by
  obtain ⟨c, hcut⟩ | ⟨a, start, found, hfinds, hscan, -⟩ := sweep_cases b cursor pass
  · rw [hcut]
    exact Nat.zero_le b
  · rw [hscan, (scan_spec pass.visit found).2.1]
    exact hfinds.length.trans (length_take_le _ _)

/-- A row is met by the time the turns to it are taken. -/
theorem visited_of_turns (hb : 0 < b) {passes : List (Pass Id)} (hi : i < stale.length)
    (hp : p ≤ stale.length) (hmeets : ∀ pass ∈ passes, pass.meets stale)
    (hnull : ∀ r ∈ stale, r.holdsNull = false) (hat : ∀ pass ∈ passes.head?, pass.first.At cursor p)
    (hf : ∀ s ∈ sweeps b cursor passes, s.finished = true)
    (hreads : ∀ pass ∈ passes, pass.reads stale[i])
    (hturns : Round.turns stale.length b p i ≤ passes.length) :
    ∃ s ∈ sweeps b cursor passes, ∃ d ∈ s.visited, d.id = stale[i].id := by
  induction passes generalizing cursor p with
  | nil =>
    have hpos : 0 < Round.turns stale.length b p i := Round.turns_pos
    simp only [length_nil] at hturns
    omega
  | cons pass passes ih =>
    have hmeet := hmeets pass mem_cons_self
    obtain ⟨⟨k, hk, hnext, hcursor⟩, hread⟩ :=
      sweep_turns hb (Nat.lt_of_le_of_lt (Nat.zero_le i) hi) hmeet hnull hp (hat pass rfl)
        (hf _ mem_cons_self)
    rcases Round.reads_or_nearer hb hi hp with ⟨hle, hlt⟩ | hnear
    · obtain ⟨d, hd, hid⟩ := hread i hi hle hlt (hreads pass mem_cons_self)
      exact ⟨_, mem_cons_self, d, hd, hid⟩
    · -- the cursor is a row of the list now, so the next sweep starts behind it
      have hnextat : ∀ pass' ∈ passes.head?,
          pass'.first.At (sweep b cursor pass).cursor (Round.next stale.length b p) := by
        intro pass' hpass'
        have hmeet' := (hmeets pass' (mem_cons_of_mem pass (mem_of_mem_head? hpass'))).1
        rw [hcursor, ← hnext]
        subst hmeet'
        exact Access.at_getElem hk
      simp only [length_cons] at hturns
      obtain ⟨s, hs, hvisited⟩ := ih Round.next_le
        (fun pass' h' => hmeets pass' (mem_cons_of_mem pass h')) hnextat
        (fun s hs => hf s (mem_cons_of_mem _ hs))
        (fun pass' h' => hreads pass' (mem_cons_of_mem pass h')) (by omega)
      exact ⟨s, mem_cons_of_mem _ hs, hvisited⟩

/-- **The reconciler visits every stale row.** While the `n` stale rows stay
the same and none of them holds `null`, `n / b` sweeps (rounded up) and one
more, none of them cut short, visit every one of them that can be read,
wherever the cursor starts and whatever pages and rows cannot be read. No
sweep reads more than `b`, whatever the rows hold. -/
theorem reconciler_visits_every_row (hb : 1 ≤ b) {passes : List (Pass Id)}
    (hmeets : ∀ pass ∈ passes, pass.meets stale)
    (hf : ∀ s ∈ sweeps b cursor passes, s.finished = true)
    (hlength : passes.length = (stale.length + b - 1) / b + 1) :
    ((∀ r ∈ stale, r.holdsNull = false) → ∀ r ∈ stale, (∀ pass ∈ passes, pass.reads r) →
      ∃ s ∈ sweeps b cursor passes, ∃ d ∈ s.visited, d.id = r.id) ∧
    ∀ s ∈ sweeps b cursor passes, s.stats.scanned ≤ b := by
  constructor
  · intro hnull r hr hreads
    obtain ⟨i, hi, rfl⟩ := mem_iff_getElem.mp hr
    cases passes with
    | nil => exact absurd hlength (Nat.succ_ne_zero _).symm
    | cons pass rest =>
      obtain ⟨p, hp, hat⟩ := pass.first.exists_at cursor
      rw [(hmeets pass mem_cons_self).1] at hp
      refine visited_of_turns hb hi hp hmeets hnull ?_ hf hreads ?_
      · intro pass' hpass'
        rw [← Option.some.inj hpass']
        exact hat
      · rw [hlength]
        exact Round.turns_le hi hp
  · clear hmeets hf hlength
    induction passes generalizing cursor with
    | nil =>
      intro s hs
      cases hs
    | cons pass passes ih =>
      intro s hs
      rcases mem_cons.mp hs with heq | hmem
      · rw [heq]
        exact scanned_le b cursor pass
      · exact ih s hmem

/-- A stranded delivery with a stored payload. -/
def strandedRow (id : Nat) (payload : Text) : OutboxEvent Nat where
  state := .pending
  payload := some payload
  attempts := 0
  deliveryId := id
  id := id
  webhookId := "hook".toList
  sessionId := "session".toList
  event := "message.received".toList
  idempotencyKey := "key".toList
  createdAt := 5

/-- Rows 1, 2 and 3, two at a time, the payload of row 2 unreadable and the
cursor on a row that is gone: row 3 is visited within three sweeps. -/
theorem reconciler_visits_every_row_unreadable :
    ∃ passes : List (Pass Nat), passes.length = 3 ∧
      ∃ s ∈ sweeps 2 (some 9) passes, ∃ d ∈ s.visited, d.id = 3 := by
  let object : Text := "\x7b\x7d".toList
  let stale := [strandedRow 1 object, strandedRow 2 [], strandedRow 3 object]
  let access : Access Nat :=
    { table := [strandedRow 3 object, strandedRow 1 object, strandedRow 2 []]
      unique := by decide
      olderThan := 9, pageFails := false, idsFail := false
      fetch := fun id => if id = 2 then .unreadable else .row (strandedRow id object) }
  let pass : Pass Nat := { first := access, second := access, visit := fun _ => .replayed }
  have hpasses : ∀ {P : Pass Nat → Prop}, P pass → ∀ q ∈ [pass, pass, pass], P q := by
    intro P hP q hq
    have heq : q = pass := by simpa using hq
    rw [heq]
    exact hP
  have hfinished : ∀ s ∈ sweeps 2 (some 9) [pass, pass, pass], s.finished = true := by
    decide +kernel
  have hvisits := reconciler_visits_every_row (by decide)
    (hpasses (P := fun q => q.meets stale) ⟨rfl, rfl⟩) hfinished (by decide)
  exact ⟨[pass, pass, pass], rfl, hvisits.1 (by decide) (strandedRow 3 object) (by simp [stale])
    (hpasses (P := fun q => q.reads (strandedRow 3 object)) ⟨rfl, rfl⟩)⟩

/-- Row 1 holds `null` and row 2 can be read, one row at a time: every sweep
reads row 1, drops it and starts over, and row 2 is never visited. -/
theorem null_row_stops_walk : ∃ (pass : Pass Nat) (stale : List (OutboxEvent Nat)),
    pass.meets stale ∧ ∃ r ∈ stale, r.holdsNull = false ∧ pass.reads r ∧
      ∀ n, ∀ s ∈ sweeps 1 none (List.replicate n pass), s.finished = true ∧ s.visited = [] := by
  let rows := [strandedRow 1 "null".toList, strandedRow 2 "\x7b\x7d".toList]
  let access : Access Nat :=
    { table := rows
      unique := by decide
      olderThan := 9, pageFails := false, idsFail := false
      fetch := fun id => ((rows.find? fun r => r.id = id).map Fetched.row).getD .gone }
  let pass : Pass Nat := { first := access, second := access, visit := fun _ => .replayed }
  refine ⟨pass, rows, ⟨rfl, rfl⟩, strandedRow 2 _, mem_cons_of_mem _ mem_cons_self,
    by decide, ⟨rfl, rfl⟩, fun n => ?_⟩
  have hsweep : (sweep 1 none pass).cursor = none ∧ (sweep 1 none pass).finished = true
      ∧ (sweep 1 none pass).visited = [] := ⟨rfl, rfl, rfl⟩
  induction n with
  | zero =>
    intro s hs
    cases hs
  | succ n ih =>
    intro s hs
    simp only [replicate_succ, sweeps, hsweep.1] at hs
    rcases mem_cons.mp hs with heq | hmem
    · rw [heq]
      exact hsweep.2
    · exact ih s hmem

end OpenWA.Webhook

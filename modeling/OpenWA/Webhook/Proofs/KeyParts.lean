/-
How a key comes apart: at the first `_` behind a part without one, and at
the last `_` before one. And what the hashed text says of the data.
-/
import OpenWA.Webhook.IdempotencyKey

namespace OpenWA.Webhook.Key

open List

-- ======== the joints

theorem join_cons_cons (a b : Text) (l : List Text) :
    join (a :: b :: l) = a ++ '_' :: join (b :: l) := by
  unfold join
  rfl

theorem join_singleton (a : Text) : join [a] = a := intercalate_singleton

variable {l : List Text} {a' x y : Text} {value : Option Json} {data data' : Data} {v : Json}

theorem join_snoc (hl : l ≠ []) (z : Text) : join (l ++ [z]) = join l ++ '_' :: z := by
  induction l with
  | nil => exact absurd rfl hl
  | cons a l ih =>
    cases l with
    | nil =>
      rw [join_singleton]
      change join (a :: z :: []) = _
      rw [join_cons_cons, join_singleton]
    | cons b l =>
      have hrest := ih (cons_ne_nil b l)
      change join (a :: b :: (l ++ [z])) = _
      rw [join_cons_cons, join_cons_cons, append_assoc, cons_append]
      change a ++ '_' :: join (b :: l ++ [z]) = _
      rw [hrest]

/-- A text with a plain beginning comes apart at the first `_`. -/
theorem plain_append_inj {a : Text} (ha : Plain a) (ha' : Plain a')
    (h : a ++ '_' :: x = a' ++ '_' :: y) : a = a' ∧ x = y := by
  induction a generalizing a' with
  | nil =>
    cases a' with
    | nil =>
      injection h with _ h
      exact ⟨rfl, h⟩
    | cons c rest =>
      injection h with hc _
      exact absurd (hc ▸ mem_cons_self) ha'
  | cons c rest ih =>
    cases a' with
    | nil =>
      injection h with hc _
      exact absurd (hc ▸ mem_cons_self) ha
    | cons c' rest' =>
      injection h with hc h
      obtain ⟨hrest, hxy⟩ := ih (fun hm => ha (mem_cons_of_mem _ hm))
        (fun hm => ha' (mem_cons_of_mem _ hm)) h
      exact ⟨by rw [hc, hrest], hxy⟩

/-- A text with a plain end comes apart at the last `_`. -/
theorem append_plain_inj {a : Text} (ha : Plain a) (ha' : Plain a')
    (h : x ++ '_' :: a = y ++ '_' :: a') : x = y ∧ a = a' := by
  have hrev := congrArg reverse h
  simp only [reverse_append, reverse_cons, append_assoc, cons_append, nil_append] at hrev
  have hplain : ∀ {s : Text}, Plain s → Plain s.reverse := by
    intro s hs hm
    exact hs (mem_reverse.mp hm)
  obtain ⟨hend, hbegin⟩ := plain_append_inj (hplain ha) (hplain ha') hrev
  exact ⟨reverse_injective hbegin, reverse_injective hend⟩

/-- Plain parts are what their join splits into. -/
theorem join_inj {l' : List Text} (hl : ∀ p ∈ l, Plain p) (hl' : ∀ p ∈ l', Plain p) (hne : l ≠ [])
    (hne' : l' ≠ []) (h : join l = join l') : l = l' := by
  have hsplit := congrArg (splitOn '_') h
  unfold join at hsplit
  rwa [splitOn_intercalate '_' hl hne, splitOn_intercalate '_' hl' hne'] at hsplit

-- ======== the parts

theorem Uuid.plain (u : Uuid) : Plain u.text := by
  intro hm
  exact absurd (u.chars '_' hm) (by decide)

theorem Uuid.ext_text {u u' : Uuid} (h : u.text = u'.text) : u = u' := by
  obtain ⟨text, length_text, chars⟩ := u
  obtain ⟨text', length_text', chars'⟩ := u'
  obtain rfl : text = text' := h
  rfl

theorem Digest.plain (digest : Digest) (s : Text) : Plain (digest.hash s) := by
  intro hm
  exact absurd (digest.hex_hash s '_' hm) (by decide)

theorem JsNumber.plain (n : JsNumber) : Plain n.text := by
  intro hm
  exact absurd (n.chars '_' hm) (by decide)

theorem occurrenceParts_uuid (u : Uuid) : occurrenceParts (some u.text) = [u.text] := by
  cases htext : u.text with
  | nil =>
    have hlen := u.length_text
    rw [htext] at hlen
    cases hlen
  | cons c rest => rfl

theorem PlainText.someText (h : PlainText value) : SomeText value := by
  obtain ⟨s, hs, -⟩ := h
  exact ⟨s, hs⟩

theorem PlainText.plain (h : PlainText value) (fallback : Text) : Plain (toStr value fallback) := by
  obtain ⟨s, rfl, hs⟩ := h
  exact hs

/-- Texts are told apart by `toStr`. -/
theorem eq_of_toStr {a b : Option Json} {fallback : Text} (ha : SomeText a)
    (hb : SomeText b) (h : toStr a fallback = toStr b fallback) : a = b := by
  obtain ⟨s, rfl⟩ := ha
  obtain ⟨t, rfl⟩ := hb
  obtain rfl : s = t := h
  rfl

theorem sessionId_payload (d : Dispatch) :
    toStr (d.payload.get "sessionId".toList) unknown = d.session.text := by
  unfold Dispatch.payload
  rw [Record.get_set_self]
  rfl

-- ======== the hashed text

theorem get_ofEntries (data : Data) (k : Text) :
    Json.Fields.get (ofEntries data.entries) k = data.get k := by
  unfold Record.get
  induction data.entries with
  | nil => rfl
  | cons e l ih =>
    rw [ofEntries, Json.Fields.get, ih, Record.lookup_cons_eq_ite]

theorem mem_sortedKeys (data : Data) (k : Text) :
    k ∈ sortedKeys data ↔ k ∈ data.entries.map Prod.fst := (perm_insertionSort _ _).mem_iff

/-- What the serialised text keeps under a name: the value, pruned. -/
theorem get_serialised (data : Data) (k : Text) :
    Json.Fields.get
        (Json.Fields.select (Json.pruneFields (sortedKeys data) (ofEntries data.entries))
          (sortedKeys data)) k = (data.get k).map (Json.prune (sortedKeys data)) := by
  rw [Json.get_select, Json.get_pruneFields, get_ofEntries]
  by_cases hk : k ∈ sortedKeys data
  · rw [if_pos hk]
  · rw [if_neg hk]
    rw [mem_sortedKeys] at hk
    rw [Record.get_of_notMem hk]
    rfl

/-- Data with one serialised text have the same pruned values. -/
theorem get_of_serialise (h : serialise data = serialise data') (k : Text) :
    (data.get k).map (Json.prune (sortedKeys data))
      = (data'.get k).map (Json.prune (sortedKeys data')) := by
  have hobj := Json.render_injective h
  injection hobj with hfields
  rw [← get_serialised, ← get_serialised, hfields]

/-- Data with the same names and pruned values have one serialised text. -/
theorem serialise_congr (hkeys : sortedKeys data = sortedKeys data')
    (h : ∀ k, (data.get k).map (Json.prune (sortedKeys data))
      = (data'.get k).map (Json.prune (sortedKeys data))) : serialise data = serialise data' := by
  refine congrArg (fun fields => Json.render (.obj fields)) ?_
  rw [← hkeys]
  refine Json.select_congr fun k _ => ?_
  rw [Json.get_pruneFields, Json.get_pruneFields, get_ofEntries, get_ofEntries]
  exact h k

/-- They agree under every name whose value holds no object. -/
theorem get_eq_of_serialise (h : serialise data = serialise data') {k : Text}
    (hv : data.get k = some v) (hfree : v.objectFree = true) : data'.get k = some v := by
  have hk := get_of_serialise h k
  rw [hv] at hk
  cases hv' : data'.get k with
  | none =>
    rw [hv'] at hk
    cases hk
  | some v' =>
    rw [hv'] at hk
    rw [Json.eq_of_prune hfree (Option.some.inj hk)]

/-- A hashed member that holds no object. -/
theorem member_of_serialise {name : String} {v' : Json} (hfree : v.objectFree = true)
    (h : serialise (member name (some v)) = serialise (member name (some v'))) : v = v' := by
  have hget := get_eq_of_serialise h (k := name.toList) (Record.get_single_self _ v) hfree
  change (Record.single name.toList v').get name.toList = some v at hget
  rw [Record.get_single_self] at hget
  exact (Option.some.inj hget).symm

end OpenWA.Webhook.Key

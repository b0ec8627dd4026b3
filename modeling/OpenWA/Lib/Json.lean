/-
JSON values, their text, and the allow-list of `JSON.stringify`.

# The text determines the value

`render` is `JSON.stringify` without a replacer. A value's text says where
it ends: literals, texts, arrays and objects by themselves, a number
because what follows a value is never a character of a number (`Stops`).
So two values with one text are one value, also when more text follows
(`render_append_inj`), and a hash of the text is a hash of the value.

# The allow-list

Given a list of names, `JSON.stringify` keeps only the members under these
names, in the order of the list, in every object at every depth: `prune`.
-/
import Mathlib.Data.List.Sort
import Mathlib.Tactic.IntervalCases
import OpenWA.Lib.Text

namespace OpenWA

open List

/-- Characters of a number's text. -/
def isNumberChar (c : Char) : Bool := c.isDigit || c = '-' || c = '+' || c = '.' || c = 'e'

/-- A finite number, as the text `String` gives it: one number, one text. -/
structure JsNumber where
  text : Text
  nonempty : text ≠ []
  chars : ∀ c ∈ text, isNumberChar c = true
deriving DecidableEq

mutual

/-- A JSON value. -/
inductive Json
  | null
  | bool (b : Bool)
  | num (n : JsNumber)
  | str (s : Text)
  | arr (items : Items)
  | obj (fields : Fields)

/-- The items of an array. -/
inductive Items
  | nil
  | cons (item : Json) (rest : Items)

/-- The members of an object, in order. -/
inductive Fields
  | nil
  | cons (key : Text) (value : Json) (rest : Fields)

end

variable {x y : Text} {v v' : Json}

namespace Json

-- ======== the text

/-- A digit in hexadecimal, in lower case. -/
def hexChar (n : Nat) : Char :=
  if n < 10 then Char.ofNat (48 + n) else Char.ofNat (87 + n)

/-- A character within quotes. -/
def escapeChar (c : Char) : Text :=
  if c = '"' then ['\\', '"']
  else if c = '\\' then ['\\', '\\']
  else if c.toNat = 8 then ['\\', 'b']
  else if c.toNat = 9 then ['\\', 't']
  else if c.toNat = 10 then ['\\', 'n']
  else if c.toNat = 12 then ['\\', 'f']
  else if c.toNat = 13 then ['\\', 'r']
  else if c.toNat < 32 then
    ['\\', 'u', '0', '0', hexChar (c.toNat / 16), hexChar (c.toNat % 16)]
  else [c]

/-- The text with what JSON escapes. -/
def escape (s : Text) : Text := s.flatMap escapeChar

/-- The text of a string. -/
def quote (s : Text) : Text := '"' :: (escape s ++ ['"'])

mutual

/-- `JSON.stringify(value)`. -/
def render : Json → Text
  | .null => "null".toList
  | .bool true => "true".toList
  | .bool false => "false".toList
  | .num n => n.text
  | .str s => quote s
  | .arr .nil => ['[', ']']
  | .arr (.cons item rest) => '[' :: (render item ++ renderItems rest)
  | .obj .nil => ['\x7b', '\x7d']
  | .obj (.cons key value rest) =>
    '\x7b' :: (quote key ++ ':' :: (render value ++ renderFields rest))

/-- The items after the first. -/
def renderItems : Items → Text
  | .nil => [']']
  | .cons item rest => ',' :: (render item ++ renderItems rest)

/-- The members after the first. -/
def renderFields : Fields → Text
  | .nil => ['\x7d']
  | .cons key value rest =>
    ',' :: (quote key ++ ':' :: (render value ++ renderFields rest))

end

-- ======== the allow-list

/-- The member under a name. -/
def Fields.get : Fields → Text → Option Json
  | .nil, _ => none
  | .cons key value rest, k => if k = key then some value else Fields.get rest k

/-- The members under the names of a list, in its order. -/
def Fields.select (fields : Fields) : List Text → Fields
  | [] => .nil
  | k :: keys =>
    match Fields.get fields k with
    | some value => .cons k value (Fields.select fields keys)
    | none => Fields.select fields keys

mutual

/-- `JSON.stringify` with a list of names keeps only these members. -/
def prune (allow : List Text) : Json → Json
  | .null => .null
  | .bool b => .bool b
  | .num n => .num n
  | .str s => .str s
  | .arr items => .arr (pruneItems allow items)
  | .obj fields => .obj (Fields.select (pruneFields allow fields) allow)

/-- The items, each pruned. -/
def pruneItems (allow : List Text) : Items → Items
  | .nil => .nil
  | .cons item rest => .cons (prune allow item) (pruneItems allow rest)

/-- The members, each pruned. -/
def pruneFields (allow : List Text) : Fields → Fields
  | .nil => .nil
  | .cons key value rest =>
    .cons key (prune allow value) (pruneFields allow rest)

end

mutual

/-- No object at any depth. -/
def objectFree : Json → Bool
  | .arr items => objectFreeItems items
  | .obj _ => false
  | _ => true

/-- No item holds an object. -/
def objectFreeItems : Items → Bool
  | .nil => true
  | .cons item rest => objectFree item && objectFreeItems rest

end

-- ======== characters

/-- The first character of an escaped text, and what follows it. -/
def readChar : Text → Option (Char × Text)
  | '\\' :: 'u' :: '0' :: '0' :: a :: b :: rest =>
    let digit (c : Char) : Nat :=
      if c.isDigit then c.toNat - 48 else c.toNat - 87
    some (Char.ofNat (16 * digit a + digit b), rest)
  | '\\' :: 'b' :: rest => some (Char.ofNat 8, rest)
  | '\\' :: 't' :: rest => some (Char.ofNat 9, rest)
  | '\\' :: 'n' :: rest => some (Char.ofNat 10, rest)
  | '\\' :: 'f' :: rest => some (Char.ofNat 12, rest)
  | '\\' :: 'r' :: rest => some (Char.ofNat 13, rest)
  | '\\' :: c :: rest => some (c, rest)
  | '"' :: _ => none
  | c :: rest => some (c, rest)
  | [] => none

theorem readChar_control {k : Nat} (hk : k < 32) (x : Text) :
    readChar (escapeChar (Char.ofNat k) ++ x) = some (Char.ofNat k, x) := by
  interval_cases k <;> rfl

/-- An escaped character is read back. -/
theorem readChar_escapeChar (c : Char) (x : Text) : readChar (escapeChar c ++ x) = some (c, x) := by
  by_cases hq : c = '"'
  · rw [hq]
    rfl
  by_cases hb : c = '\\'
  · rw [hb]
    rfl
  by_cases hc : c.toNat < 32
  · have := readChar_control hc x
    rwa [Char.ofNat_toNat] at this
  · have hplain : escapeChar c = [c] := by
      unfold escapeChar
      rw [if_neg hq, if_neg hb, if_neg (by omega), if_neg (by omega),
        if_neg (by omega), if_neg (by omega), if_neg (by omega), if_neg hc]
    unfold readChar
    split <;> simp_all

/-- Escaped texts with a closing quote come apart in one way. -/
theorem escape_append_inj {s t : Text} (h : escape s ++ '"' :: x = escape t ++ '"' :: y) :
    s = t ∧ x = y := by
  induction s generalizing t with
  | nil =>
    cases t with
    | nil =>
      injection h with _ hxy
      exact ⟨rfl, hxy⟩
    | cons d t =>
      have hread := readChar_escapeChar d (escape t ++ '"' :: y)
      rw [← append_assoc] at hread
      change readChar (escape (d :: t) ++ '"' :: y) = _ at hread
      rw [← h] at hread
      cases hread
  | cons c s ih =>
    have hread := readChar_escapeChar c (escape s ++ '"' :: x)
    rw [← append_assoc] at hread
    change readChar (escape (c :: s) ++ '"' :: x) = _ at hread
    rw [h] at hread
    cases t with
    | nil => cases hread
    | cons d t =>
      have hread' := readChar_escapeChar d (escape t ++ '"' :: y)
      rw [← append_assoc] at hread'
      change readChar (escape (d :: t) ++ '"' :: y) = _ at hread'
      rw [hread'] at hread
      injection hread with hpair
      injection hpair with hc hrest
      obtain ⟨hs, hxy⟩ := ih hrest.symm
      exact ⟨by rw [hc, hs], hxy⟩

theorem quote_append (s x : Text) : quote s ++ x = '"' :: (escape s ++ '"' :: x) := by
  unfold quote
  rw [cons_append, append_assoc]
  rfl

theorem quote_append_inj {s t : Text} (h : quote s ++ x = quote t ++ y) : s = t ∧ x = y := by
  rw [quote_append, quote_append] at h
  injection h with _ h
  exact escape_append_inj h

-- ======== numbers

/-- What may follow a value: nothing that could belong to a number. -/
def Stops (x : Text) : Prop := ∀ c ∈ x.head?, isNumberChar c = false

theorem stops_cons {c : Char} (h : isNumberChar c = false) : Stops (c :: x) := by
  intro d hd
  cases hd
  exact h

-- ======== values

/-- The kind of a value, as its first character tells it. -/
inductive Kind
  | null
  | true
  | false
  | num
  | str
  | arr
  | obj

/-- The kind of a value. -/
def kind : Json → Kind
  | .null => .null
  | .bool .true => .true
  | .bool .false => .false
  | .num _ => .num
  | .str _ => .str
  | .arr _ => .arr
  | .obj _ => .obj

/-- The kind told by the first character of a text. -/
def headKind (c : Char) : Option Kind :=
  if isNumberChar c then some .num
  else if c = 'n' then some .null
  else if c = 't' then some .true
  else if c = 'f' then some .false
  else if c = '"' then some .str
  else if c = '[' then some .arr
  else if c = '\x7b' then some .obj
  else none

/-- The first character of a text tells the kind. -/
theorem headKind_render (v : Json) (x : Text) :
    (render v ++ x).head?.bind headKind = some v.kind := by
  cases v with
  | null => rfl
  | bool b => cases b <;> rfl
  | num n =>
    unfold render
    cases hn : n.text with
    | nil => exact absurd hn n.nonempty
    | cons c rest =>
      have hc := n.chars c (by rw [hn]; exact mem_cons_self)
      change headKind c = some Kind.num
      unfold headKind
      rw [if_pos hc]
  | str s => rfl
  | arr items => cases items <;> rfl
  | obj fields => cases fields <;> rfl

/-- The values of a kind. -/
def Kind.Of (v : Json) : Kind → Prop
  | .null => v = .null
  | .true => v = .bool .true
  | .false => v = .bool .false
  | .num => ∃ n, v = .num n
  | .str => ∃ s, v = .str s
  | .arr => ∃ items, v = .arr items
  | .obj => ∃ fields, v = .obj fields

theorem of_kind (v : Json) : v.kind.Of v := by
  cases v with
  | null => rfl
  | bool b => cases b <;> rfl
  | num | str | arr | obj => exact ⟨_, rfl⟩

theorem kind_of_append (h : render v ++ x = render v' ++ y) : v.kind.Of v' := by
  have hv := headKind_render v x
  rw [h, headKind_render v' y] at hv
  exact Option.some.inj hv ▸ of_kind v'

/-- No value begins with a closing bracket. -/
theorem render_ne_close {c : Char} (hc : headKind c = none) : render v ++ x ≠ c :: y := by
  intro h
  have hv := headKind_render v x
  rw [h] at hv
  change headKind c = _ at hv
  rw [hc] at hv
  cases hv

theorem num_append_inj {n n' : JsNumber} (hx : Stops x) (hy : Stops y)
    (h : n.text ++ x = n'.text ++ y) : n = n' ∧ x = y := by
  obtain ⟨hn, hxy⟩ := Text.append_inj_of_all n.chars n'.chars hx hy h
  obtain ⟨text, nonempty, chars⟩ := n
  obtain ⟨text', nonempty', chars'⟩ := n'
  obtain rfl : text = text' := hn
  exact ⟨rfl, hxy⟩

theorem stops_renderItems (items : Items) (x : Text) : Stops (renderItems items ++ x) := by
  cases items with
  | nil | cons => exact stops_cons rfl

theorem stops_renderFields (fields : Fields) (x : Text) : Stops (renderFields fields ++ x) := by
  cases fields with
  | nil | cons => exact stops_cons rfl

theorem renderItems_append (item : Json) (rest : Items) (x : Text) :
    renderItems (.cons item rest) ++ x = ',' :: (render item ++ (renderItems rest ++ x)) := by
  change ',' :: (render item ++ renderItems rest) ++ x = _
  rw [cons_append, append_assoc]

theorem renderFields_append (key : Text) (value : Json) (rest : Fields)
    (x : Text) :
    renderFields (.cons key value rest) ++ x
      = ',' :: (quote key ++ ':' :: (render value ++ (renderFields rest ++ x))) := by
  change ',' :: (quote key ++ ':' :: (render value ++ renderFields rest)) ++ x = _
  rw [cons_append, append_assoc, cons_append, append_assoc]

/-- Behind the opening bracket an array is written as its items are behind a
comma. -/
theorem renderItems_of_arr {items items' : Items}
    (h : render (.arr items) ++ x = render (.arr items') ++ y) :
    renderItems items ++ x = renderItems items' ++ y := by
  cases items <;> cases items' <;> injection h with _ h
  · exact absurd (h.trans (append_assoc _ _ _)).symm (render_ne_close rfl)
  · exact absurd ((append_assoc _ _ _).symm.trans h) (render_ne_close rfl)
  · exact congrArg (cons ',') h

theorem renderFields_of_obj {fields fields' : Fields}
    (h : render (.obj fields) ++ x = render (.obj fields') ++ y) :
    renderFields fields ++ x = renderFields fields' ++ y := by
  cases fields <;> cases fields' <;> injection h with _ h
  · injection h with h _
    exact absurd h (by decide)
  · injection h with h _
    exact absurd h (by decide)
  · exact congrArg (cons ',') h

mutual

/-- A value's text says where it ends. -/
theorem render_append_inj : ∀ (v v' : Json) {x y : Text}, Stops x → Stops y →
    render v ++ x = render v' ++ y → v = v' ∧ x = y
  | .null, v', x, y, _, _, h => by
      obtain rfl : v' = .null := kind_of_append h
      exact ⟨rfl, append_cancel_left h⟩
  | .bool .true, v', x, y, _, _, h | .bool .false, v', x, y, _, _, h => by
      obtain rfl : v' = .bool _ := kind_of_append h
      exact ⟨rfl, append_cancel_left h⟩
  | .num n, v', x, y, hx, hy, h => by
      obtain ⟨n', rfl⟩ := kind_of_append h
      obtain ⟨rfl, hxy⟩ := num_append_inj hx hy h
      exact ⟨rfl, hxy⟩
  | .str s, v', x, y, _, _, h => by
      obtain ⟨s', rfl⟩ := kind_of_append h
      obtain ⟨rfl, hxy⟩ := quote_append_inj h
      exact ⟨rfl, hxy⟩
  | .arr items, v', x, y, _, _, h => by
      obtain ⟨items', rfl⟩ := kind_of_append h
      obtain ⟨rfl, hxy⟩ := renderItems_append_inj items items' (renderItems_of_arr h)
      exact ⟨rfl, hxy⟩
  | .obj fields, v', x, y, _, _, h => by
      obtain ⟨fields', rfl⟩ := kind_of_append h
      obtain ⟨rfl, hxy⟩ := renderFields_append_inj fields fields' (renderFields_of_obj h)
      exact ⟨rfl, hxy⟩

theorem renderItems_append_inj : ∀ (items items' : Items) {x y : Text},
    renderItems items ++ x = renderItems items' ++ y → items = items' ∧ x = y
  | .nil, items', x, y, h => by
      cases items' with
      | nil => exact ⟨rfl, append_cancel_left h⟩
      | cons item' rest' =>
        injection h with h _
        exact absurd h (by decide)
  | .cons item rest, items', x, y, h => by
      cases items' with
      | nil =>
        injection h with h _
        exact absurd h (by decide)
      | cons item' rest' =>
        rw [renderItems_append, renderItems_append] at h
        injection h with _ h
        obtain ⟨rfl, hrest⟩ := render_append_inj item item'
          (stops_renderItems rest x) (stops_renderItems rest' y) h
        obtain ⟨rfl, hxy⟩ := renderItems_append_inj rest rest' hrest
        exact ⟨rfl, hxy⟩

theorem renderFields_append_inj : ∀ (fields fields' : Fields) {x y : Text},
    renderFields fields ++ x = renderFields fields' ++ y → fields = fields' ∧ x = y
  | .nil, fields', x, y, h => by
      cases fields' with
      | nil => exact ⟨rfl, append_cancel_left h⟩
      | cons key' value' rest' =>
        injection h with h _
        exact absurd h (by decide)
  | .cons key value rest, fields', x, y, h => by
      cases fields' with
      | nil =>
        injection h with h _
        exact absurd h (by decide)
      | cons key' value' rest' =>
        rw [renderFields_append, renderFields_append] at h
        injection h with _ h
        obtain ⟨rfl, hmember⟩ := quote_append_inj h
        injection hmember with _ hvalue
        obtain ⟨rfl, hrest⟩ := render_append_inj value value'
          (stops_renderFields rest x) (stops_renderFields rest' y) hvalue
        obtain ⟨rfl, hxy⟩ := renderFields_append_inj rest rest' hrest
        exact ⟨rfl, hxy⟩

end

/-- A text has one value. -/
theorem render_injective (h : render v = render v') : v = v' := by
  have hstop : Stops [] := by intro c hc; cases hc
  refine (render_append_inj v v' hstop hstop ?_).1
  rw [h]

-- ======== pruning

mutual

/-- A value without objects is not pruned. -/
theorem prune_of_objectFree (allow : List Text) : ∀ v : Json,
    v.objectFree = true → prune allow v = v
  | .null, _ => rfl
  | .bool _, _ => rfl
  | .num _, _ => rfl
  | .str _, _ => rfl
  | .arr items, h => by
      change Json.arr (pruneItems allow items) = _
      rw [pruneItems_of_objectFree allow items h]
  | .obj _, h => by cases h

theorem pruneItems_of_objectFree (allow : List Text) : ∀ items : Items,
    objectFreeItems items = true → pruneItems allow items = items
  | .nil, _ => rfl
  | .cons item rest, h => by
      obtain ⟨hitem, hrest⟩ := (Bool.and_eq_true _ _).mp h
      change Items.cons (prune allow item) (pruneItems allow rest) = _
      rw [prune_of_objectFree allow item hitem, pruneItems_of_objectFree allow rest hrest]

end

mutual

/-- Pruning makes no value free of objects. -/
theorem objectFree_prune (allow : List Text) : ∀ v : Json, (prune allow v).objectFree = v.objectFree
  | .null => rfl
  | .bool _ => rfl
  | .num _ => rfl
  | .str _ => rfl
  | .arr items => objectFreeItems_prune allow items
  | .obj _ => rfl

theorem objectFreeItems_prune (allow : List Text) : ∀ items : Items,
    objectFreeItems (pruneItems allow items) = objectFreeItems items
  | .nil => rfl
  | .cons item rest => by
      change ((prune allow item).objectFree && objectFreeItems (pruneItems allow rest)) = _
      rw [objectFree_prune allow item, objectFreeItems_prune allow rest]
      rfl

end

/-- Two values with one pruned form are equal when one has no object. -/
theorem eq_of_prune {allow allow' : List Text} (hv : v.objectFree = true)
    (h : prune allow v = prune allow' v') : v = v' := by
  have hv' : v'.objectFree = true := by
    rw [← objectFree_prune allow' v', ← h, objectFree_prune, hv]
  rw [← prune_of_objectFree allow v hv, h, prune_of_objectFree allow' v' hv']

-- ======== selecting

theorem get_select (fields : Fields) (keys : List Text) (k : Text) :
    Fields.get (Fields.select fields keys) k = if k ∈ keys then Fields.get fields k else none := by
  induction keys with
  | nil => rfl
  | cons k' keys ih =>
    unfold Fields.select
    cases hv : Fields.get fields k' with
    | none =>
      rw [ih]
      by_cases hk : k = k'
      · rw [hk, if_pos mem_cons_self, hv]
        split <;> rfl
      · simp only [mem_cons, hk, false_or]
    | some value =>
      change (if k = k' then some value else _) = _
      by_cases hk : k = k'
      · rw [if_pos hk, hk, if_pos mem_cons_self, hv]
      · rw [if_neg hk, ih]
        simp only [mem_cons, hk, false_or]

/-- The member of a pruned object is the member, pruned. -/
theorem get_pruneFields (allow : List Text) (k : Text) : ∀ fields : Fields,
    Fields.get (pruneFields allow fields) k = (Fields.get fields k).map (prune allow)
  | .nil => rfl
  | .cons key value rest => by
      have ih := get_pruneFields allow k rest
      rw [pruneFields, Fields.get, Fields.get]
      by_cases hk : k = key
      · rw [if_pos hk, if_pos hk]
        rfl
      · rw [if_neg hk, if_neg hk, ih]

/-- What is selected depends on the members under the names only. -/
theorem select_congr {f g : Fields} {keys : List Text}
    (h : ∀ k ∈ keys, Fields.get f k = Fields.get g k) :
    Fields.select f keys = Fields.select g keys := by
  induction keys with
  | nil => rfl
  | cons k keys ih =>
    unfold Fields.select
    rw [h k mem_cons_self, ih fun k' hk' => h k' (mem_cons_of_mem k hk')]

mutual

/-- What is pruned already is left as it is. -/
theorem prune_prune (allow : List Text) : ∀ v : Json, prune allow (prune allow v) = prune allow v
  | .null => rfl
  | .bool _ => rfl
  | .num _ => rfl
  | .str _ => rfl
  | .arr items => congrArg Json.arr (pruneItems_pruneItems allow items)
  | .obj fields => by
      refine congrArg Json.obj (select_congr fun k hk => ?_)
      rw [get_pruneFields, get_select, if_pos hk, get_pruneFields, map_prune_prune allow fields k]

theorem pruneItems_pruneItems (allow : List Text) : ∀ items : Items,
    pruneItems allow (pruneItems allow items) = pruneItems allow items
  | .nil => rfl
  | .cons item rest => by
      change Items.cons (prune allow (prune allow item)) (pruneItems allow (pruneItems allow rest))
        = _
      rw [prune_prune allow item, pruneItems_pruneItems allow rest]
      rfl

theorem map_prune_prune (allow : List Text) : ∀ (fields : Fields) (k : Text),
    ((Fields.get fields k).map (prune allow)).map (prune allow)
      = (Fields.get fields k).map (prune allow)
  | .nil, _ => rfl
  | .cons key value rest, k => by
      rw [Fields.get]
      split
      next => exact congrArg some (prune_prune allow value)
      next => exact map_prune_prune allow rest k

end

end Json

end OpenWA

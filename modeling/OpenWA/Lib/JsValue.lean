/-
JavaScript values as JSON has them, and when two of them are one JSON
value.

# Members

An object keeps its members in a list, in the order JavaScript lists them;
a JSON value has no name twice and `undefined` nowhere (`isJson`). Two JSON
values are the same when they differ in the order of members only, at any
depth, with numbers compared by their values (`Same`).

# Infinities

`JSON.parse` makes an infinity of a numeral that is too large, and
`JSON.stringify` writes it as `null` (`written`).
-/
import Mathlib.Data.List.Forall2
import OpenWA.Lib.JsNumber

namespace OpenWA

open JsString List

-- ======== values

mutual

/-- A value as JavaScript has it. -/
inductive JsValue
  | undefined
  | null
  | bool (b : Bool)
  | num (n : JsNumeral)
  | str (s : JsString)
  | arr (items : JsItems)
  | obj (fields : JsFields)

/-- The items of an array. -/
inductive JsItems
  | nil
  | cons (item : JsValue) (rest : JsItems)

/-- The members of an object, in order. -/
inductive JsFields
  | nil
  | cons (key : JsString) (value : JsValue) (rest : JsFields)

end

/-- `v === undefined`. -/
def JsValue.isUndefined : JsValue → Bool
  | .undefined => true
  | _ => false

/-- The items in order. -/
def JsItems.toList : JsItems → List JsValue
  | .nil => []
  | .cons item rest => item :: JsItems.toList rest

/-- The members in order. -/
def JsFields.toList : JsFields → List (JsString × JsValue)
  | .nil => []
  | .cons key value rest => (key, value) :: JsFields.toList rest

/-- `Object.keys`. -/
def JsFields.keys (fields : JsFields) : List JsString := fields.toList.map Prod.fst

/-- The value under a name. -/
def JsFields.get (fields : JsFields) (k : JsString) : JsValue :=
  (fields.toList.lookup k).getD .undefined

mutual

/-- No `undefined`, and no name twice in an object. -/
def JsValue.isJson : JsValue → Bool
  | .undefined => false
  | .null => true
  | .bool _ => true
  | .num _ => true
  | .str _ => true
  | .arr items => JsItems.areJson items
  | .obj fields => decide fields.keys.Nodup && JsFields.areJson fields

/-- No item is outside JSON. -/
def JsItems.areJson : JsItems → Bool
  | .nil => true
  | .cons item rest => JsValue.isJson item && JsItems.areJson rest

/-- No member is outside JSON. -/
def JsFields.areJson : JsFields → Bool
  | .nil => true
  | .cons _ value rest => JsValue.isJson value && JsFields.areJson rest

end

/-- A JSON value. -/
structure JsonValue where
  value : JsValue
  json : value.isJson = true

mutual

/-- The same JSON value, up to the order of members. -/
inductive Same : JsValue → JsValue → Prop
  | null : Same .null .null
  | bool (b : Bool) : Same (.bool b) (.bool b)
  | num {m n : JsNumeral} (h : m.value = n.value) : Same (.num m) (.num n)
  | str (s : JsString) : Same (.str s) (.str s)
  | arr {l m : JsItems} (h : SameItems l m) : Same (.arr l) (.arr m)
  | obj {f g : JsFields} (hkeys : ∀ k, k ∈ f.keys ↔ k ∈ g.keys) (h : Within f g) :
      Same (.obj f) (.obj g)

/-- The items are the same one by one. -/
inductive SameItems : JsItems → JsItems → Prop
  | nil : SameItems .nil .nil
  | cons {v w : JsValue} {l m : JsItems} (h : Same v w) (hrest : SameItems l m) :
      SameItems (.cons v l) (.cons w m)

/-- Every member of the first has the same value in the second. -/
inductive Within : JsFields → JsFields → Prop
  | nil (g : JsFields) : Within .nil g
  | cons {k : JsString} {v : JsValue} {f g : JsFields} (h : Same v (g.get k))
      (hrest : Within f g) : Within (.cons k v f) g

end

mutual

/-- The value with `null` for every infinity. -/
def JsValue.written : JsValue → JsValue
  | .num n => if n.isFinite then .num n else .null
  | .arr items => .arr (JsItems.written items)
  | .obj fields => .obj (JsFields.written fields)
  | v => v

/-- The items as they are written. -/
def JsItems.written : JsItems → JsItems
  | .nil => .nil
  | .cons item rest => .cons (JsValue.written item) (JsItems.written rest)

/-- The members as they are written. -/
def JsFields.written : JsFields → JsFields
  | .nil => .nil
  | .cons key value rest => .cons key (JsValue.written value) (JsFields.written rest)

end

-- ======== induction

/-- Induction over a value: arrays by their items, objects by the values of
their members. -/
theorem JsValue.induct {P : JsValue → Prop} (hundefined : P .undefined) (hnull : P .null)
    (hbool : ∀ b, P (.bool b)) (hnum : ∀ n, P (.num n)) (hstr : ∀ s, P (.str s))
    (harr : ∀ items : JsItems, (∀ v ∈ items.toList, P v) → P (.arr items))
    (hobj : ∀ fields : JsFields, (∀ p ∈ fields.toList, P p.2) → P (.obj fields))
    (v : JsValue) : P v := by
  refine @JsValue.rec P (fun items => ∀ v ∈ items.toList, P v)
    (fun fields => ∀ p ∈ fields.toList, P p.2) hundefined hnull hbool hnum hstr
    harr hobj ?_ ?_ ?_ ?_ v
  · intro v hv
    cases hv
  · intro item rest hitem hrest v hv
    rcases mem_cons.mp hv with rfl | hv
    · exact hitem
    · exact hrest v hv
  · intro p hp
    cases hp
  · intro key value rest hvalue hrest p hp
    rcases mem_cons.mp hp with rfl | hp
    · exact hvalue
    · exact hrest p hp

theorem JsItems.induct {P : JsItems → Prop} (hnil : P .nil)
    (hcons : ∀ item rest, P rest → P (.cons item rest)) (items : JsItems) : P items :=
  @JsItems.rec (fun _ => True) P (fun _ => True) trivial trivial (fun _ => trivial)
    (fun _ => trivial) (fun _ => trivial) (fun _ _ => trivial) (fun _ _ => trivial) hnil
    (fun item rest _ h => hcons item rest h) trivial (fun _ _ _ _ _ => trivial) items

theorem JsFields.induct {P : JsFields → Prop} (hnil : P .nil)
    (hcons : ∀ key value rest, P rest → P (.cons key value rest)) (fields : JsFields) : P fields :=
  @JsFields.rec (fun _ => True) (fun _ => True) P trivial trivial (fun _ => trivial)
    (fun _ => trivial) (fun _ => trivial) (fun _ _ => trivial) (fun _ _ => trivial) trivial
    (fun _ _ _ _ => trivial) hnil (fun key value rest _ h => hcons key value rest h) fields

-- ======== reading

theorem isJson_arr_iff (items : JsItems) :
    (JsValue.arr items).isJson = true ↔ ∀ v ∈ items.toList, v.isJson = true := by
  show JsItems.areJson items = true ↔ _
  induction items using JsItems.induct with
  | hnil => simp [JsItems.areJson, JsItems.toList]
  | hcons item rest ih => simp [JsItems.areJson, JsItems.toList, ih]

theorem isJson_obj_iff (fields : JsFields) : (JsValue.obj fields).isJson = true
    ↔ fields.keys.Nodup ∧ ∀ p ∈ fields.toList, p.2.isJson = true := by
  have hvalues : JsFields.areJson fields = true ↔ ∀ p ∈ fields.toList, p.2.isJson = true := by
    induction fields using JsFields.induct with
    | hnil => simp [JsFields.areJson, JsFields.toList]
    | hcons key value rest ih => simp [JsFields.areJson, JsFields.toList, ih]
  show (decide fields.keys.Nodup && JsFields.areJson fields) = true ↔ _
  rw [Bool.and_eq_true, decide_eq_true_iff, hvalues]

theorem sameItems_iff {l m : JsItems} : SameItems l m ↔ List.Forall₂ Same l.toList m.toList := by
  induction l using JsItems.induct generalizing m with
  | hnil =>
    constructor
    · intro h
      cases h
      exact .nil
    · intro h
      cases m with
      | nil => exact .nil
      | cons w m => cases h
  | hcons v l ih =>
    constructor
    · intro h
      cases h with
      | cons hv hrest => exact .cons hv (ih.mp hrest)
    · intro h
      cases m with
      | nil => cases h
      | cons w m =>
        cases h with
        | cons hv hrest => exact .cons hv (ih.mpr hrest)

theorem within_iff {f g : JsFields} : Within f g ↔ ∀ p ∈ f.toList, Same p.2 (g.get p.1) := by
  induction f using JsFields.induct with
  | hnil =>
    refine ⟨fun _ p hp => ?_, fun _ => .nil g⟩
    cases hp
  | hcons key value rest ih =>
    constructor
    · intro h p hp
      cases h with
      | cons hv hrest =>
        rcases mem_cons.mp hp with rfl | hp
        · exact hv
        · exact ih.mp hrest p hp
    · intro h
      refine .cons (h (key, value) mem_cons_self) (ih.mpr fun p hp => ?_)
      exact h p (mem_cons_of_mem _ hp)

/-- With distinct names a member's value is what its name gives. -/
theorem get_of_mem {fields : JsFields} (hnodup : fields.keys.Nodup) {p : JsString × JsValue}
    (hp : p ∈ fields.toList) : fields.get p.1 = p.2 := by
  unfold JsFields.get
  have hlookup : fields.toList.lookup p.1 = some p.2 := by
    unfold JsFields.keys at hnodup
    generalize fields.toList = l at hnodup hp
    induction l with
    | nil => cases hp
    | cons q rest ih =>
      obtain ⟨hq, hrest⟩ := nodup_cons.mp hnodup
      rw [show q :: rest = (q.1, q.2) :: rest from rfl, lookup_cons]
      rcases mem_cons.mp hp with rfl | hp'
      · rw [beq_self_eq_true]
      · have hne : (p.1 == q.1) = false := by
          refine beq_eq_false_iff_ne.mpr fun heq => hq ?_
          exact heq ▸ mem_map_of_mem hp'
        rw [hne]
        exact ih hrest hp'
  rw [hlookup]
  rfl

/-- What a name gives is the value of a member, or nothing. -/
theorem get_mem (fields : JsFields) (k : JsString) :
    fields.get k = .undefined ∨ ∃ p ∈ fields.toList, fields.get k = p.2 := by
  unfold JsFields.get
  cases hlookup : fields.toList.lookup k with
  | none => exact .inl rfl
  | some v =>
    obtain ⟨l₁, l₂, hl, -⟩ := lookup_eq_some_iff.mp hlookup
    refine .inr ⟨(k, v), ?_, rfl⟩
    rw [hl]
    exact mem_append_right l₁ mem_cons_self

-- ======== what is written

theorem toList_written_items (items : JsItems) :
    items.written.toList = items.toList.map JsValue.written := by
  induction items using JsItems.induct with
  | hnil => rfl
  | hcons item rest ih => exact congrArg _ ih

theorem toList_written (fields : JsFields) :
    fields.written.toList = fields.toList.map fun p => (p.1, p.2.written) := by
  induction fields using JsFields.induct with
  | hnil => rfl
  | hcons key value rest ih => exact congrArg _ ih

theorem keys_written (fields : JsFields) : fields.written.keys = fields.keys := by
  unfold JsFields.keys
  rw [toList_written, map_map]
  rfl

theorem get_written (fields : JsFields) (k : JsString) :
    fields.written.get k = (fields.get k).written := by
  induction fields using JsFields.induct with
  | hnil => rfl
  | hcons key value rest ih =>
    unfold JsFields.get at ih ⊢
    show (((key, value.written) :: rest.written.toList).lookup k).getD .undefined
      = ((((key, value) :: rest.toList).lookup k).getD .undefined).written
    rw [lookup_cons, lookup_cons]
    split
    · rfl
    · exact ih

/-- Arrays are written alike if their items are. -/
theorem same_written_arr {l m : JsItems} : Same (JsValue.arr l).written (JsValue.arr m).written
    ↔ List.Forall₂ (fun v w : JsValue => Same v.written w.written) l.toList m.toList := by
  have hitems : Same (JsValue.arr l).written (JsValue.arr m).written
      ↔ SameItems l.written m.written :=
    ⟨fun h => by cases h with | arr h => exact h, .arr⟩
  rw [hitems, sameItems_iff, toList_written_items, toList_written_items, forall₂_map_left_iff,
    forall₂_map_right_iff]

/-- Objects are written alike if they have the same names and their members
are. -/
theorem same_written_obj {f g : JsFields} : Same (JsValue.obj f).written (JsValue.obj g).written
    ↔ (∀ k, k ∈ f.keys ↔ k ∈ g.keys) ∧ ∀ p ∈ f.toList, Same p.2.written (g.get p.1).written := by
  have hfields : Same (JsValue.obj f).written (JsValue.obj g).written
      ↔ (∀ k, k ∈ f.written.keys ↔ k ∈ g.written.keys) ∧ Within f.written g.written :=
    ⟨fun h => by cases h with | obj hkeys h => exact ⟨hkeys, h⟩, fun h => .obj h.1 h.2⟩
  rw [hfields, within_iff, keys_written, keys_written, toList_written]
  simp only [forall_mem_map, get_written]

theorem exists_member {fields : JsFields} {k : JsString} (hk : k ∈ fields.keys) :
    ∃ p ∈ fields.toList, p.1 = k := mem_map.mp hk

end OpenWA

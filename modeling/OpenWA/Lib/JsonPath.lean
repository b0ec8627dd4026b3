/-
JSON objects as records that are read and written: members set and deleted,
and values at a path.

# Paths

A path is a list of names and positions. `dig` gives the value at a path,
`look` only its shape: the scalar it is, or that it is an object, or a list
of some length. Two values are the same value, whatever the order of their
members, when they look the same at every path.

# Objects

A JavaScript object has no name twice. `Fields` is a plain list of members,
so `DistinctFields` says it, at every depth.
-/
import OpenWA.Lib.Json

namespace OpenWA.Json

-- ======== the members

/-- The names of the members. -/
def Fields.keys : Fields → List Text
  | .nil => []
  | .cons key _ rest => key :: Fields.keys rest

/-- `object[k] = v`: a name that is there keeps its place. -/
def Fields.set : Fields → Text → Json → Fields
  | .nil, k, v => .cons k v .nil
  | .cons key value rest, k, v =>
    if k = key then .cons key v rest else .cons key value (Fields.set rest k v)

/-- `delete object[k]`. -/
def Fields.delete : Fields → Text → Fields
  | .nil, _ => .nil
  | .cons key value rest, k =>
    if k = key then Fields.delete rest k else .cons key value (Fields.delete rest k)

theorem get_cons (key k : Text) (value : Json) (rest : Fields) :
    Fields.get (.cons key value rest) k = if k = key then some value else Fields.get rest k := rfl

theorem get_set_self (k : Text) (v : Json) : ∀ f : Fields, Fields.get (Fields.set f k v) k = some v
  | .nil => by rw [Fields.set, get_cons, if_pos rfl]
  | .cons key value rest => by
      rw [Fields.set]
      by_cases h : k = key
      · rw [if_pos h, get_cons, if_pos h]
      · rw [if_neg h, get_cons, if_neg h, get_set_self k v rest]

variable {k x : Text} {v : Json}

theorem get_set_of_ne (v : Json) (hx : x ≠ k) :
    ∀ f : Fields, Fields.get (Fields.set f k v) x = Fields.get f x
  | .nil => by rw [Fields.set, get_cons, if_neg hx]
  | .cons key value rest => by
      rw [Fields.set]
      by_cases h : k = key
      · rw [if_pos h, get_cons, get_cons, ← h, if_neg hx, if_neg hx]
      · rw [if_neg h, get_cons, get_cons, get_set_of_ne v hx rest]

theorem get_delete_self (k : Text) : ∀ f : Fields, Fields.get (Fields.delete f k) k = none
  | .nil => rfl
  | .cons key value rest => by
      rw [Fields.delete]
      by_cases h : k = key
      · rw [if_pos h, get_delete_self k rest]
      · rw [if_neg h, get_cons, if_neg h, get_delete_self k rest]

theorem get_delete_of_ne (hx : x ≠ k) :
    ∀ f : Fields, Fields.get (Fields.delete f k) x = Fields.get f x
  | .nil => rfl
  | .cons key value rest => by
      rw [Fields.delete]
      by_cases h : k = key
      · rw [if_pos h, get_delete_of_ne hx rest, get_cons, ← h, if_neg hx]
      · rw [if_neg h, get_cons, get_cons, get_delete_of_ne hx rest]

theorem get_of_notMem : ∀ f : Fields, k ∉ Fields.keys f → Fields.get f k = none
  | .nil, _ => rfl
  | .cons key value rest, h => by
      rw [get_cons, if_neg fun heq => h (List.mem_cons.mpr (.inl heq))]
      exact get_of_notMem rest fun hk => h (List.mem_cons_of_mem key hk)

theorem mem_keys_set : ∀ f : Fields, x ∈ Fields.keys (Fields.set f k v) → x = k ∨ x ∈ Fields.keys f
  | .nil, hx => .inl (List.mem_singleton.mp hx)
  | .cons key value rest, hx => by
      rw [Fields.set] at hx
      by_cases h : k = key
      · rw [if_pos h] at hx
        exact .inr hx
      · rw [if_neg h] at hx
        rcases List.mem_cons.mp hx with hx | hx
        · exact .inr (List.mem_cons.mpr (.inl hx))
        · exact (mem_keys_set rest hx).imp id (List.mem_cons_of_mem key)

theorem mem_keys_delete : ∀ f : Fields, x ∈ Fields.keys (Fields.delete f k) → x ∈ Fields.keys f
  | .nil, hx => hx
  | .cons key value rest, hx => by
      rw [Fields.delete] at hx
      by_cases h : k = key
      · rw [if_pos h] at hx
        exact List.mem_cons_of_mem key (mem_keys_delete rest hx)
      · rw [if_neg h] at hx
        rcases List.mem_cons.mp hx with hx | hx
        · exact List.mem_cons.mpr (.inl hx)
        · exact List.mem_cons_of_mem key (mem_keys_delete rest hx)

-- ======== distinct names

mutual

/-- No object of the value has a name twice. -/
def Distinct : Json → Prop
  | .arr items => DistinctItems items
  | .obj fields => DistinctFields fields
  | _ => True

/-- No item has a name twice. -/
def DistinctItems : Items → Prop
  | .nil => True
  | .cons item rest => Distinct item ∧ DistinctItems rest

/-- No name twice, here or below. -/
def DistinctFields : Fields → Prop
  | .nil => True
  | .cons key value rest =>
    key ∉ Fields.keys rest ∧ Distinct value ∧ DistinctFields rest

end

theorem distinct_get : ∀ f : Fields, DistinctFields f → Fields.get f k = some v → Distinct v
  | .nil, _, hv => by cases hv
  | .cons key value rest, hf, hv => by
      rw [get_cons] at hv
      by_cases h : k = key
      · rw [if_pos h] at hv
        exact Option.some.inj hv ▸ hf.2.1
      · rw [if_neg h] at hv
        exact distinct_get rest hf.2.2 hv

/-- Setting a member leaves no name twice. -/
theorem distinct_set (hv : Distinct v) :
    ∀ f : Fields, DistinctFields f → DistinctFields (Fields.set f k v)
  | .nil, _ => ⟨List.not_mem_nil, hv, trivial⟩
  | .cons key value rest, hf => by
      rw [Fields.set]
      by_cases h : k = key
      · rw [if_pos h]
        exact ⟨hf.1, hv, hf.2.2⟩
      · rw [if_neg h]
        refine ⟨?_, hf.2.1, distinct_set hv rest hf.2.2⟩
        intro hmem
        rcases mem_keys_set rest hmem with hk | hk
        · exact h hk.symm
        · exact hf.1 hk

theorem distinct_delete : ∀ f : Fields, DistinctFields f → DistinctFields (Fields.delete f k)
  | .nil, hf => hf
  | .cons key value rest, hf => by
      rw [Fields.delete]
      by_cases h : k = key
      · rw [if_pos h]
        exact distinct_delete rest hf.2.2
      · rw [if_neg h]
        exact ⟨fun hmem => hf.1 (mem_keys_delete rest hmem), hf.2.1, distinct_delete rest hf.2.2⟩

-- ======== the paths

/-- A step of a path: a member or an item. -/
inductive Step
  | key (k : Text)
  | index (i : Nat)

/-- The item at a place. -/
def Items.get : Items → Nat → Option Json
  | .nil, _ => none
  | .cons item _, 0 => some item
  | .cons _ rest, i + 1 => Items.get rest i

/-- How many items there are. -/
def Items.length : Items → Nat
  | .nil => 0
  | .cons _ rest => Items.length rest + 1

/-- One step into a value. -/
def enter : Json → Step → Option Json
  | .obj fields, .key k => Fields.get fields k
  | .arr items, .index i => Items.get items i
  | _, _ => none

/-- The value at a path. -/
def dig (v : Json) : List Step → Option Json
  | [] => some v
  | s :: path => (enter v s).bind fun w => dig w path

/-- What a value is on its outside. -/
inductive Shape
  | null
  | bool (b : Bool)
  | num (n : JsNumber)
  | str (s : Text)
  | arr (length : Nat)
  | obj

/-- What a value looks like from outside. -/
def shape : Json → Shape
  | .null => .null
  | .bool b => .bool b
  | .num n => .num n
  | .str s => .str s
  | .arr items => .arr (Items.length items)
  | .obj _ => .obj

/-- What stands at a path. -/
def look (v : Json) (path : List Step) : Option Shape := (dig v path).map shape

theorem look_cons (v : Json) (s : Step) (path : List Step) :
    look v (s :: path) = (enter v s).bind fun w => look w path := by
  unfold look
  rw [dig]
  cases enter v s with
  | none | some => rfl

/-- The first step of a path into an object is the name of a member. -/
theorem dig_obj {f : Fields} {s : Step} {path : List Step} (h : dig (.obj f) (s :: path) = some v) :
    ∃ k w, s = .key k ∧ Fields.get f k = some w ∧ dig w path = some v := by
  cases s with
  | index i => cases h
  | key k =>
    obtain ⟨w, hw, hv⟩ := Option.bind_eq_some_iff.mp h
    exact ⟨k, w, rfl, hw, hv⟩

end OpenWA.Json

/-
What a merge and a stripped layer hold at a path.

# Merging

What stands at a path of the merged config stands there in the override or
in the base (`holds_deepMerge`), and what the merged config holds outside
some paths depends on the base only outside these paths (`look_deepMerge`).

# Stripping

`secretIn` says that a path leads to a declared secret or into one. The
code drops more than that (`droppedIn`): a list that holds a secret goes as
a whole. At every path a stripped config holds nothing or what the config
holds (`look_withoutSecrets`).
-/
import OpenWA.Plugins.Config

namespace OpenWA.PluginConfig

open Json Fields

-- ======== the merge

/-- `isPlainObject(v)`. -/
def isPlainObject : Json → Bool
  | .obj _ => true
  | _ => false

variable {k : Text} {v : Json}

theorem get_deepMerge_of_none :
    ∀ (f out : Fields), get f k = none → get (deepMerge false out f) k = get out k
  | .nil, _, _ => rfl
  | .cons key value rest, out, hk => by
      rw [get_cons] at hk
      by_cases h : k = key
      · rw [if_pos h] at hk
        cases hk
      · rw [if_neg h] at hk
        rw [deepMerge, get_deepMerge_of_none rest _ hk]
        exact get_set_of_ne _ h out

theorem get_deepMerge_of_some :
    ∀ (f out : Fields), DistinctFields f → get f k = some v →
      get (deepMerge false out f) k = some (mergeValue false (get out k) v)
  | .nil, _, _, hk => by cases hk
  | .cons key value rest, out, hf, hk => by
      rw [get_cons] at hk
      rw [deepMerge]
      by_cases h : k = key
      · rw [if_pos h] at hk
        rw [get_deepMerge_of_none rest _ (get_of_notMem rest (h ▸ hf.1)), h, ← Option.some.inj hk]
        exact get_set_self key _ out
      · rw [if_neg h] at hk
        rw [get_deepMerge_of_some rest _ hf.2.2 hk]
        exact congrArg (fun old => some (mergeValue false old v)) (get_set_of_ne _ h out)

/-- A value replaces what was there, unless both are objects. -/
theorem mergeValue_cases (old : Option Json) (v : Json) :
    mergeValue false old v = v ∨
      ∃ base fields, old = some (.obj base) ∧ v = .obj fields ∧
        mergeValue false old v = .obj (deepMerge false base fields) := by
  cases v with
  | obj fields =>
    unfold mergeValue
    split
    next base => exact .inr ⟨base, fields, rfl, rfl, rfl⟩
    next => exact .inl rfl
  | null | bool | num | str | arr => exact .inl rfl

/-- One value, or two objects. -/
def Alike (u v : Json) : Prop := u = v ∨ isPlainObject u = true ∧ isPlainObject v = true

theorem Alike.refl (v : Json) : Alike v v := .inl rfl

theorem Alike.trans {u w : Json} (h : Alike u v) (h' : Alike v w) : Alike u w := by
  rcases h with rfl | ⟨hu, hv⟩
  · exact h'
  · rcases h' with rfl | ⟨_, hw⟩
    · exact .inr ⟨hu, hv⟩
    · exact .inr ⟨hu, hw⟩

/-- The value stands at the path; of an object, that there is one. -/
def Holds (w : Json) (path : List Step) (v : Json) : Prop := ∃ u, dig w path = some u ∧ Alike u v

theorem holds_key {f : Fields} {w : Json} (hk : get f k = some w) {path : List Step}
    (h : Holds w path v) : Holds (.obj f) (.key k :: path) v := by
  obtain ⟨u, hu, halike⟩ := h
  refine ⟨u, ?_, halike⟩
  change (get f k).bind _ = _
  rw [hk]
  exact hu

/-- What the merged config holds comes from one of the two. -/
theorem holds_deepMerge :
    ∀ (path : List Step) (out f : Fields), DistinctFields f →
      dig (.obj (deepMerge false out f)) path = some v →
        Holds (.obj f) path v ∨ Holds (.obj out) path v
  | [], out, f, _, h => by
      cases h
      exact .inl ⟨.obj f, rfl, .inr ⟨rfl, rfl⟩⟩
  | s :: path, out, f, hf, h => by
      obtain ⟨k, w, rfl, hw, hdig⟩ := dig_obj h
      cases hk : get f k with
      | none =>
        rw [get_deepMerge_of_none f out hk] at hw
        exact .inr (holds_key hw ⟨v, hdig, Alike.refl v⟩)
      | some u =>
        rw [get_deepMerge_of_some f out hf hk] at hw
        rcases mergeValue_cases (get out k) u with heq | ⟨base, fields, hold, rfl, heq⟩
        · rw [heq] at hw
          rw [← Option.some.inj hw] at hdig
          exact .inl (holds_key hk ⟨v, hdig, Alike.refl v⟩)
        · rw [heq] at hw
          rw [← Option.some.inj hw] at hdig
          rcases holds_deepMerge path base fields (distinct_get f hf hk) hdig with hin | hin
          · exact .inl (holds_key hk hin)
          · exact .inr (holds_key hold hin)

/-- Two values look the same, except at the paths of `S`. -/
def AgreeOff (S : List Step → Prop) (v w : Json) : Prop :=
  ∀ path, ¬ S path → look v path = look w path

theorem look_key (f : Fields) (k : Text) (path : List Step) :
    look (.obj f) (.key k :: path) = (get f k).bind fun w => look w path := look_cons _ _ _

theorem look_singleton (f : Fields) (k : Text) : look (.obj f) [.key k] = (get f k).map shape := by
  rw [look_key]
  cases get f k with
  | none | some => rfl

/-- A value that looks like an object is one. -/
theorem eq_obj_of_shape (h : shape v = .obj) : ∃ f, v = .obj f := by
  cases v with
  | obj f => exact ⟨f, rfl⟩
  | null | bool | num | str | arr => cases h

theorem get_obj_of_shape {old : Option Json} (h : old.map shape = some .obj) :
    ∃ f, old = some (.obj f) := by
  obtain ⟨v, hv, hshape⟩ := Option.map_eq_some_iff.mp h
  obtain ⟨f, hf⟩ := eq_obj_of_shape hshape
  exact ⟨f, hv.trans (congrArg some hf)⟩

theorem mergeValue_of_ne {old : Option Json} (v : Json)
    (h : ¬ ∃ base, old = some (.obj base)) : mergeValue false old v = v := by
  rcases mergeValue_cases old v with heq | ⟨base, _, hbase, _, _⟩
  · exact heq
  · exact absurd ⟨base, hbase⟩ h

/-- Configs that agree off some paths stay so under one layer. -/
theorem look_deepMerge :
    ∀ (path : List Step) (S : List Step → Prop) (out₁ out₂ f : Fields),
      (∀ p q, S p → S (p ++ q)) → DistinctFields f →
      AgreeOff S (.obj out₁) (.obj out₂) → ¬ S path →
        look (.obj (deepMerge false out₁ f)) path = look (.obj (deepMerge false out₂ f)) path
  | [], _, _, _, _, _, _, _, _ => rfl
  | .index i :: path, _, _, _, _, _, _, _, _ => rfl
  | .key k :: path, S, out₁, out₂, f, hup, hf, hagree, hpath => by
      cases hk : get f k with
      | none =>
        rw [look_key, look_key, get_deepMerge_of_none f out₁ hk,
          get_deepMerge_of_none f out₂ hk, ← look_key, ← look_key]
        exact hagree _ hpath
      | some u =>
        rw [look_key, look_key, get_deepMerge_of_some f out₁ hf hk,
          get_deepMerge_of_some f out₂ hf hk]
        have hhead : (get out₁ k).map shape = (get out₂ k).map shape := by
          rw [← look_singleton, ← look_singleton]
          exact hagree _ fun hS => hpath (hup [.key k] path hS)
        -- both bases have an object there, or neither has
        by_cases hobj : ∃ base, get out₁ k = some (.obj base)
        · obtain ⟨base₁, h₁⟩ := hobj
          obtain ⟨base₂, h₂⟩ := get_obj_of_shape (hhead ▸ congrArg (Option.map shape) h₁)
          rw [h₁, h₂]
          cases u with
          | obj fields =>
            refine look_deepMerge path (fun q => S (.key k :: q)) base₁ base₂ fields
              (fun p q => hup (.key k :: p) q) (distinct_get f hf hk) ?_ hpath
            intro q hq
            have hstep := hagree (.key k :: q) hq
            rw [look_key, look_key, h₁, h₂] at hstep
            exact hstep
          | null | bool | num | str | arr => rfl
        · have h₂ : ¬ ∃ base, get out₂ k = some (.obj base) := by
            intro hbase
            obtain ⟨base, h₂⟩ := hbase
            exact hobj (get_obj_of_shape (hhead ▸ congrArg (Option.map shape) h₂))
          rw [mergeValue_of_ne u hobj, mergeValue_of_ne u h₂]

-- ======== the secrets

mutual

/-- The path leads from the field to a declared secret, or into one. -/
def secretWithin : ConfigField → List Step → Bool
  | .mk type secret items properties, path =>
    secret || (type = .object && secretIn properties path)
      || (type = .array && secretItems items path)

/-- The path leads to a secret of the items. -/
def secretItems : ItemField → List Step → Bool
  | .none, _ => false
  | .some field, .index _ :: path => secretWithin field path
  | .some _, _ => false

/-- The path leads to a secret of the object. -/
def secretIn : Properties → List Step → Bool
  | .nil, _ => false
  | .cons key field rest, .key k :: path =>
    (k = key && secretWithin field path) || secretIn rest (.key k :: path)
  | .cons _ _ _, _ => false

end

mutual

/-- The code drops what the path leads to: a secret, or a list that holds
one. -/
def droppedWithin : ConfigField → List Step → Bool
  | .mk type secret items properties, path =>
    secret || (type = .array && holdsSecret (.mk type secret items properties))
      || (type = .object && droppedIn properties path)

/-- The path leads to what is dropped with the secrets. -/
def droppedIn : Properties → List Step → Bool
  | .nil, _ => false
  | .cons key field rest, .key k :: path =>
    (k = key && droppedWithin field path) || droppedIn rest (.key k :: path)
  | .cons _ _ _, _ => false

end

mutual

/-- What a path to a secret tells: the field holds one, the code drops it,
and what is inside a secret is secret. -/
theorem secretWithin_spec :
    ∀ (field : ConfigField) (path : List Step), secretWithin field path = true →
      holdsSecret field = true ∧ droppedWithin field path = true ∧
        ∀ q, secretWithin field (path ++ q) = true
  | .mk type secret items properties, path, h => by
      simp only [secretWithin, holdsSecret, droppedWithin, Bool.or_eq_true, Bool.and_eq_true,
        decide_eq_true_eq] at h ⊢
      rcases h with (h | ⟨hobj, h⟩) | ⟨harr, h⟩
      · exact ⟨.inl (.inl h), .inl (.inl h), fun _ => .inl (.inl h)⟩
      · obtain ⟨hholds, hdrop, hin⟩ := secretIn_spec properties path h
        exact ⟨.inl (.inr hholds), .inr ⟨hobj, hdrop⟩, fun q => .inl (.inr ⟨hobj, hin q⟩)⟩
      · obtain ⟨hholds, hin⟩ := secretItems_spec items path h
        exact ⟨.inr hholds, .inl (.inr ⟨harr, .inr hholds⟩), fun q => .inr ⟨harr, hin q⟩⟩

theorem secretItems_spec :
    ∀ (items : ItemField) (path : List Step), secretItems items path = true →
      holdsSecretItems items = true ∧ ∀ q, secretItems items (path ++ q) = true
  | .none, _, h => by cases h
  | .some field, .index _ :: path, h => by
      obtain ⟨hholds, -, hin⟩ := secretWithin_spec field path h
      exact ⟨hholds, hin⟩
  | .some _, .key _ :: _, h => by cases h
  | .some _, [], h => by cases h

/-- A secret is dropped with the secrets, and so is what is in it. -/
theorem secretIn_spec :
    ∀ (ps : Properties) (path : List Step), secretIn ps path = true →
      holdsSecretProperties ps = true ∧ droppedIn ps path = true ∧
        ∀ q, secretIn ps (path ++ q) = true
  | .nil, _, h => by cases h
  | .cons key field rest, .key k :: path, h => by
      simp only [secretIn, holdsSecretProperties, droppedIn, List.cons_append, Bool.or_eq_true,
        Bool.and_eq_true, decide_eq_true_eq] at h ⊢
      rcases h with ⟨hk, h⟩ | h
      · obtain ⟨hholds, hdrop, hin⟩ := secretWithin_spec field path h
        exact ⟨.inl hholds, .inl ⟨hk, hdrop⟩, fun q => .inl ⟨hk, hin q⟩⟩
      · obtain ⟨hholds, hdrop, hin⟩ := secretIn_spec rest _ h
        exact ⟨.inr hholds, .inr hdrop, fun q => .inr (hin q)⟩
  | .cons _ _ _, .index _ :: _, h => by cases h
  | .cons _ _ _, [], h => by cases h

end

-- ======== the strip

/-- What one entry of the schema leaves under its name. -/
def stripField : ConfigField → Json → Option Json
  | .mk type secret items properties, value =>
    if secret || (type = .array && holdsSecret (.mk type secret items properties)) then
      none
    else if type = .object then
      match value with
      | .obj fields => some (.obj (withoutSecrets fields properties))
      | _ => some value
    else some value

/-- The entry acts on its own name only. -/
theorem withoutSecrets_cons (out : Fields) (key : Text) (field : ConfigField)
    (rest : Properties) :
    ∃ out', withoutSecrets out (.cons key field rest) = withoutSecrets out' rest ∧
      get out' key = (get out key).bind (stripField field) ∧
      ∀ k, k ≠ key → get out' k = get out k := by
  obtain ⟨type, secret, items, properties⟩ := field
  refine ⟨_, by rw [withoutSecrets], ?_, ?_⟩
  · cases hget : get out key with
    | none => exact hget
    | some value =>
      unfold stripField
      dsimp only
      split
      · exact get_delete_self key out
      · split
        · cases value with
          | obj fields => exact get_set_self key _ out
          | null | bool | num | str | arr => exact hget
        · exact hget
  · intro k hk
    cases hget : get out key with
    | none => rfl
    | some value =>
      dsimp only
      split
      · exact get_delete_of_ne hk out
      · split
        · cases value with
          | obj fields => exact get_set_of_ne _ hk out
          | null | bool | num | str | arr => rfl
        · rfl

/-- No path of names goes into a value that is no object. -/
theorem look_scalar {value : Json} (hv : isPlainObject value = false) (ps : Properties)
    (path : List Step) :
    look value path = if droppedIn ps path = true then none else look value path := by
  by_cases h : droppedIn ps path = true
  · rw [if_pos h]
    cases path with
    | nil => cases ps <;> cases h
    | cons s path =>
      cases s with
      | index i => cases ps <;> cases h
      | key k =>
        cases value with
        | obj f => cases hv
        | null | bool | num | str | arr => rfl
  · rw [if_neg h]

mutual

theorem look_stripField :
    ∀ (field : ConfigField) (value : Json) (path : List Step),
      ((stripField field value).bind fun w => look w path)
        = if droppedWithin field path = true then none else look value path
  | .mk type secret items properties, value, path => by
      unfold stripField
      dsimp only
      rw [droppedWithin]
      by_cases hdrop : (secret || (type = .array &&
          holdsSecret (.mk type secret items properties))) = true
      · rw [if_pos hdrop, hdrop, Bool.true_or, if_pos rfl]
        rfl
      · rw [if_neg hdrop, Bool.eq_false_of_not_eq_true hdrop, Bool.false_or]
        by_cases htype : type = .object
        · rw [if_pos htype, decide_eq_true htype, Bool.true_and]
          cases value with
          | obj fields => exact look_withoutSecrets properties fields path
          | null | bool | num | str | arr => exact look_scalar rfl properties path
        · rw [if_neg htype, decide_eq_false htype, Bool.false_and, if_neg Bool.false_ne_true]
          rfl

/-- A stripped config holds nothing where something is dropped, and elsewhere
what the config holds. -/
theorem look_withoutSecrets :
    ∀ (ps : Properties) (out : Fields) (path : List Step),
      look (.obj (withoutSecrets out ps)) path
        = if droppedIn ps path = true then none else look (.obj out) path
  | .nil, out, path => by
      rw [withoutSecrets, droppedIn, if_neg Bool.false_ne_true]
  | .cons key field rest, out, [] => rfl
  | .cons key field rest, out, .index i :: path => rfl
  | .cons key field rest, out, .key k :: path => by
      obtain ⟨out', heq, hself, hother⟩ := withoutSecrets_cons out key field rest
      rw [heq, look_withoutSecrets rest out' (.key k :: path), droppedIn]
      by_cases hrest : droppedIn rest (.key k :: path) = true
      · rw [if_pos hrest, hrest, Bool.or_true, if_pos rfl]
      · rw [if_neg hrest, Bool.eq_false_of_not_eq_true hrest, Bool.or_false, look_key, look_key]
        by_cases hk : k = key
        · rw [decide_eq_true hk, Bool.true_and, hk, hself]
          cases get out key with
          | none =>
            change none = if _ then none else none
            rw [ite_self]
          | some value => exact look_stripField field value path
        · rw [hother k hk, decide_eq_false hk, Bool.false_and, if_neg Bool.false_ne_true]

end

end OpenWA.PluginConfig

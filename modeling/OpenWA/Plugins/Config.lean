/-
The layered config of a plugin (`core/plugins/plugin-activation.ts`): the
base config, the override of a session and the config of an integration
instance, merged one over the other.

# Secrets and hosts

A manifest names the config keys that hold a host the plugin may call
(`net.allowConfigHosts`), and its schema says which fields are secret. A
layer that points a host key somewhere else than the layers beneath does not
get their secrets (`mergeLayer`), and an instance row whose own secrets were
provisioned for the base host loses them when a layer beneath has moved that
host (`resolveInstanceConfig`).

# What is modelled

A config is a JSON object; a field of the schema has its type, whether it is
secret, the field of its items and its properties (no properties and an
empty record of them are the same to every function here). The origin of a
URL is a parameter: nothing depends on how it is computed. An own member
named `__proto__` is out of the model.
-/
import OpenWA.Lib.JsonPath

namespace OpenWA.PluginConfig

open Json

-- ======== the schema

/-- The type of a config field. -/
inductive FieldType
  | string
  | number
  | boolean
  | array
  | object
  | textarea
deriving DecidableEq

mutual

/-- `PluginConfigField`. -/
inductive ConfigField
  | mk (type : FieldType) (secret : Bool) (items : ItemField) (properties : Properties)

/-- The field of a list's items, if it is given. -/
inductive ItemField
  | none
  | some (field : ConfigField)

/-- The fields of an object, by name. -/
inductive Properties
  | nil
  | cons (key : Text) (field : ConfigField) (rest : Properties)

end

mutual

/-- `holdsSecret(field)`. -/
def holdsSecret : ConfigField → Bool
  | .mk _ secret items properties =>
    secret || holdsSecretProperties properties || holdsSecretItems items

/-- The items hold a secret. -/
def holdsSecretItems : ItemField → Bool
  | .none => false
  | .some field => holdsSecret field

/-- One of the fields holds a secret. -/
def holdsSecretProperties : Properties → Bool
  | .nil => false
  | .cons _ field rest => holdsSecret field || holdsSecretProperties rest

end

/-- `ConfigLayerManifest`. -/
structure ConfigLayerManifest where
  allowConfigHosts : Option (List Text)
  properties : Option Properties

-- ======== the merge

/-- The value is `null`. -/
def isNull : Json → Bool
  | .null => true
  | _ => false

mutual

/-- What `deepMerge` puts under a name that has `old`. -/
def mergeValue (removeNulls : Bool) (old : Option Json) : Json → Json
  | .obj fields =>
    match old with
    | some (.obj base) => .obj (deepMerge removeNulls base fields)
    | _ =>
      if removeNulls then .obj (deepMerge removeNulls .nil fields) else .obj fields
  | value => value

/-- `deepMerge(base, override, removeNulls)`. -/
def deepMerge (removeNulls : Bool) (out : Fields) : Fields → Fields
  | .nil => out
  | .cons key value rest =>
    deepMerge removeNulls
      (if removeNulls && isNull value then Fields.delete out key
      else Fields.set out key (mergeValue removeNulls (Fields.get out key) value))
      rest

end

/-- `withoutSecrets(config, properties)`. -/
def withoutSecrets (out : Fields) : Properties → Fields
  | .nil => out
  | .cons key (.mk type secret items properties) rest =>
    withoutSecrets
      (match Fields.get out key with
      | none => out
      | some value =>
        if secret || (type = .array && holdsSecret (.mk type secret items properties))
        then Fields.delete out key
        else if type = .object then
          match value with
          | .obj fields => Fields.set out key (.obj (withoutSecrets fields properties))
          | _ => out
        else out)
      rest

-- ======== the configs

/-- A config: an object, so no name stands twice in it. -/
structure Config where
  fields : Fields
  distinct : DistinctFields fields

mutual

theorem distinct_mergeValue {b : Bool} {old : Option Json}
    (hold : ∀ v, old = some v → Distinct v) :
    ∀ v, Distinct v → Distinct (mergeValue b old v)
  | .null, _ => trivial
  | .bool _, _ => trivial
  | .num _, _ => trivial
  | .str _, _ => trivial
  | .arr _, h => h
  | .obj fields, h => by
      unfold mergeValue
      split
      next base =>
        exact distinct_deepMerge fields base (hold _ rfl) h
      next =>
        split
        · exact distinct_deepMerge fields .nil trivial h
        · exact h

theorem distinct_deepMerge {b : Bool} :
    ∀ (f out : Fields), DistinctFields out → DistinctFields f → DistinctFields (deepMerge b out f)
  | .nil, _, hout, _ => hout
  | .cons key value rest, out, hout, hf => by
      rw [deepMerge]
      refine distinct_deepMerge rest _ ?_ hf.2.2
      split
      · exact distinct_delete out hout
      · refine distinct_set ?_ out hout
        exact distinct_mergeValue (fun v hv => distinct_get out hout hv) value hf.2.1

end

theorem distinct_withoutSecrets :
    ∀ (ps : Properties) (out : Fields), DistinctFields out → DistinctFields (withoutSecrets out ps)
  | .nil, _, hout => hout
  | .cons key (.mk type secret items properties) rest, out, hout => by
      rw [withoutSecrets]
      refine distinct_withoutSecrets rest _ ?_
      split
      · exact hout
      next value hvalue =>
        split
        · exact distinct_delete out hout
        · split
          · split
            next fields =>
              refine distinct_set ?_ out hout
              exact distinct_withoutSecrets properties fields (distinct_get out hout hvalue)
            next => exact hout
          · exact hout

namespace Config

/-- A config without members. -/
def empty : Config := ⟨.nil, trivial⟩

/-- A member of the config. -/
def get (c : Config) (key : Text) : Option Json := Fields.get c.fields key

/-- The override merged over the base. -/
def merge (base override : Config) : Config :=
  ⟨deepMerge false base.fields override.fields,
    distinct_deepMerge override.fields base.fields base.distinct override.distinct⟩

/-- The config without its secrets. -/
def withoutSecrets (c : Config) (properties : Properties) : Config :=
  ⟨PluginConfig.withoutSecrets c.fields properties,
    distinct_withoutSecrets properties c.fields c.distinct⟩

end Config

-- ======== the layers

section Layers

-- `new URL(value).origin`, nothing where the constructor throws
variable (urlOrigin : Text → Option Text)

/-- `hostOf(value)` of a text. -/
def hostOfText (value : Text) : Option Text :=
  if value.trim = [] then none
  else
    match urlOrigin value with
    | some origin => if origin = "null".toList then some value.trim else some origin
    | none => some value.trim

/-- `hostOf(value)`. -/
def hostOf : Option Json → Option Text
  | some (.str value) => hostOfText urlOrigin value
  | _ => none

/-- `redirectsHost(beneath, layer, [key])`. -/
def redirectsKey (beneath layer : Config) (key : Text) : Bool :=
  match layer.get key with
  | none => false
  | some .null => false
  | some (.str value) =>
    match hostOfText urlOrigin value with
    | none => false
    | some next => some next ≠ hostOf urlOrigin (beneath.get key)
  | some _ => true

/-- `redirectsHost(beneath, layer, hostKeys)`. -/
def redirectsHost (beneath layer : Config) (hostKeys : List Text) : Bool :=
  hostKeys.any (redirectsKey urlOrigin beneath layer)

/-- `mergeLayer(beneath, layer, manifest)`. -/
def mergeLayer (beneath layer : Config) (manifest : ConfigLayerManifest) : Config :=
  let hostKeys := manifest.allowConfigHosts.getD []
  if hostKeys.isEmpty || !redirectsHost urlOrigin beneath layer hostKeys then
    beneath.merge layer
  else
    match manifest.properties with
    | some properties => (beneath.withoutSecrets properties).merge layer
    | none => Config.empty.merge layer

/-- `namesHost(layer, [key])`. -/
def namesHost (layer : Config) (key : Text) : Bool :=
  match layer.get key with
  | none => false
  | some .null => false
  | some (.str value) => value.trim ≠ []
  | some _ => true

/-- `resolveInstanceConfig(resolved, instanceConfig, manifest, base)`. -/
def resolveInstanceConfig (resolved : Config) (instanceConfig : Option Config)
    (manifest : ConfigLayerManifest) (base : Option Config) : Config :=
  match instanceConfig with
  | none => resolved
  | some own =>
    let hostKeys := manifest.allowConfigHosts.getD []
    let unset := hostKeys.filter fun key => !namesHost own key
    let moved :=
      match base with
      | some base => !unset.isEmpty && redirectsHost urlOrigin base resolved unset
      | none => false
    let row :=
      if moved then
        match manifest.properties with
        | some properties => own.withoutSecrets properties
        | none => Config.empty
      else own
    mergeLayer urlOrigin resolved row manifest

/-- The override `resolvePluginConfig` finds for a session. -/
def overrideFor (sessionConfig : Option (Text → Option Config)) (sessionId : Option Text)
    (sessionScoped : Bool) : Option Config :=
  match sessionScoped, sessionId, sessionConfig with
  | true, some id, some configs => configs id
  | _, _, _ => none

/-- `resolvePluginConfig(base, sessionConfig, sessionId, sessionScoped, manifest)`. -/
def resolvePluginConfig (base : Config) (sessionConfig : Option (Text → Option Config))
    (sessionId : Option Text) (sessionScoped : Bool) (manifest : ConfigLayerManifest) :
    Config :=
  match overrideFor sessionConfig sessionId sessionScoped with
  | some override => mergeLayer urlOrigin base override manifest
  | none => base

end Layers

end OpenWA.PluginConfig

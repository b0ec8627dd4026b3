/-
The secrets of a resolved config stay with the hosts they were saved for.

# Where a secret comes from

A layer is bound to the hosts it names, and to the base's where it names
none (`ownOrigin`). `Bound` says that the resolved config names no other
origin at a host key than the layer is bound to. A layer merged over others
is bound to the result (`bound_own`), and what it does not redirect stays
bound (`bound_inherited`); what it redirects it gets without the secrets.

# What a redirected config shows of the base

Two bases that agree off their secrets stay so through every merge
(`agree_mergeLayer`) and agree everywhere once a layer has redirected a host
(`agree_of_redirect`). This needs host keys that are not dropped with the
secrets: whether a row's secrets are kept depends on the base's hosts.
-/
import OpenWA.Plugins.Proofs.Layers

namespace OpenWA.PluginConfig

open Json List

variable {urlOrigin : Text → Option Text}

-- ======== the hosts of a layer

/-- The origin of a value that looks like this. -/
def shapeHost (urlOrigin : Text → Option Text) : Option Shape → Option Text
  | some (.str value) => hostOfText urlOrigin value
  | _ => none

/-- Whether a value that looks like this names a host. -/
def shapeNames : Option Shape → Bool
  | none => false
  | some .null => false
  | some (.str value) => value.trim ≠ []
  | some _ => true

theorem hostOf_eq (value : Option Json) :
    hostOf urlOrigin value = shapeHost urlOrigin (value.map shape) := by
  cases value with
  | none => rfl
  | some v => cases v <;> rfl

theorem namesHost_eq (c : Config) (k : Text) :
    namesHost c k = shapeNames ((c.get k).map shape) := by
  unfold namesHost
  cases c.get k with
  | none => rfl
  | some v => cases v <;> rfl

theorem hostOf_of_shape {a b : Option Json} (h : a.map shape = b.map shape) :
    hostOf urlOrigin a = hostOf urlOrigin b := by
  rw [hostOf_eq, hostOf_eq, h]

variable {k : Text} {beneath layer row own resolved : Config} {c : Config}

theorem namesHost_of_shape {d : Config} (h : (c.get k).map shape = (d.get k).map shape) :
    namesHost c k = namesHost d k := by
  rw [namesHost_eq, namesHost_eq, h]

theorem hostOfText_eq_none {value : Text} :
    hostOfText urlOrigin value = none ↔ value.trim = [] := by
  unfold hostOfText
  by_cases h : value.trim = []
  · simp [h]
  · rw [if_neg h]
    refine iff_of_false ?_ h
    repeat' split
    all_goals exact Option.some_ne_none _

/-- A layer redirects a host key when it names a host there that is no text
or of another origin than the one beneath. -/
theorem redirectsKey_iff :
    redirectsKey urlOrigin beneath layer k = true ↔
      namesHost layer k = true ∧ (hostOf urlOrigin (layer.get k) = none ∨
        hostOf urlOrigin (layer.get k) ≠ hostOf urlOrigin (beneath.get k)) := by
  unfold redirectsKey namesHost
  cases layer.get k with
  | none => simp
  | some v =>
    cases v with
    | str value =>
      change _ ↔ decide (value.trim ≠ []) = true ∧ (hostOfText urlOrigin value = none ∨
        hostOfText urlOrigin value ≠ hostOf urlOrigin (beneath.get k))
      have hblank : hostOfText urlOrigin value = none ↔ value.trim = [] := hostOfText_eq_none
      cases hhost : hostOfText urlOrigin value with
      | none => simp [hhost, hblank.mp hhost]
      | some next =>
        have hne : value.trim ≠ [] := by
          intro hempty
          rw [hblank.mpr hempty] at hhost
          cases hhost
        simp [hhost, hne]
    | null | bool _ | num _ | arr _ | obj _ => simp [hostOf]

theorem namesHost_of_hostOf {origin : Text}
    (h : hostOf urlOrigin (c.get k) = some origin) : namesHost c k = true := by
  rw [hostOf_eq] at h
  rw [namesHost_eq]
  cases hshape : (c.get k).map shape with
  | none =>
    rw [hshape] at h
    cases h
  | some s =>
    rw [hshape] at h
    cases s with
    | str value =>
      refine decide_eq_true fun hblank => ?_
      cases (hostOfText_eq_none.mpr hblank).symm.trans h
    | null => cases h
    | _ => rfl

/-- A host the layer leaves alone: it names the origin beneath. -/
theorem hostOf_of_not_redirects (hnames : namesHost layer k = true)
    (h : redirectsKey urlOrigin beneath layer k = false) :
    namesHost beneath k = true ∧
      hostOf urlOrigin (layer.get k) = hostOf urlOrigin (beneath.get k) := by
  have hnot := mt redirectsKey_iff.mpr (Bool.not_eq_true _ ▸ h)
  have heq : hostOf urlOrigin (layer.get k) = hostOf urlOrigin (beneath.get k) := by
    by_contra hne
    exact hnot ⟨hnames, .inr hne⟩
  have hsome : hostOf urlOrigin (layer.get k) ≠ none := fun hnone =>
    hnot ⟨hnames, .inl hnone⟩
  obtain ⟨origin, horigin⟩ := Option.ne_none_iff_exists'.mp hsome
  exact ⟨namesHost_of_hostOf (heq ▸ horigin), heq⟩

-- ======== merged hosts

theorem get_merge_of_none (h : layer.get k = none) : (c.merge layer).get k = c.get k :=
  get_deepMerge_of_none layer.fields c.fields h

theorem shape_mergeValue (old : Option Json) (v : Json) :
    shape (mergeValue false old v) = shape v := by
  rcases mergeValue_cases old v with heq | ⟨base, fields, _, rfl, heq⟩
  · rw [heq]
  · rw [heq]
    rfl

variable {v : Json} {path : List Step} {layer' resolved' : Config}

/-- A name of the layer looks as the layer has it. -/
theorem shape_merge_of_some (h : layer.get k = some v) :
    ((c.merge layer).get k).map shape = (layer.get k).map shape := by
  have hget : (c.merge layer).get k = some (mergeValue false (c.get k) v) :=
    get_deepMerge_of_some layer.fields c.fields layer.distinct h
  rw [hget, h]
  exact congrArg some (shape_mergeValue _ v)

/-- A host of the merged config is the layer's, or one the layer says nothing
about. -/
theorem host_merge (urlOrigin : Text → Option Text)
    (h : namesHost (c.merge layer) k = true) :
    (namesHost layer k = true ∧
      hostOf urlOrigin ((c.merge layer).get k) = hostOf urlOrigin (layer.get k)) ∨
    (namesHost layer k = false ∧ namesHost c k = true ∧
      hostOf urlOrigin ((c.merge layer).get k) = hostOf urlOrigin (c.get k)) := by
  cases hget : layer.get k with
  | none =>
    right
    have hsame : (c.merge layer).get k = c.get k := get_merge_of_none hget
    refine ⟨?_, ?_, congrArg _ hsame⟩
    · rw [namesHost_eq, hget]
      rfl
    · rw [← h]
      exact namesHost_of_shape (congrArg _ hsame.symm)
  | some v =>
    left
    have hsame := shape_merge_of_some (c := c) hget
    rw [← hget]
    exact ⟨h ▸ (namesHost_of_shape hsame).symm, hostOf_of_shape hsame⟩

theorem look_get (c : Config) (k : Text) :
    look (.obj c.fields) [.key k] = (c.get k).map shape := look_singleton c.fields k

variable {ps : Properties}

/-- A host of a stripped config is the config's. -/
theorem host_withoutSecrets
    (h : namesHost (c.withoutSecrets ps) k = true) :
    namesHost c k = true ∧
      hostOf urlOrigin ((c.withoutSecrets ps).get k) = hostOf urlOrigin (c.get k) := by
  have hlook := look_withoutSecrets ps c.fields [.key k]
  rw [look_get c] at hlook
  have hstrip : ((c.withoutSecrets ps).get k).map shape = _ := (look_get _ k).symm.trans hlook
  split at hstrip
  · rw [namesHost_eq, hstrip] at h
    cases h
  · exact ⟨h ▸ (namesHost_of_shape hstrip).symm, hostOf_of_shape hstrip⟩

-- ======== where secrets come from

variable {base : Config} {hostKeys : List Text}

/-- The origin a layer is bound to at a host key: its own, the base's where
it names none. -/
def ownOrigin (urlOrigin : Text → Option Text) (base layer : Config) (k : Text) : Option Text :=
  if namesHost layer k then hostOf urlOrigin (layer.get k)
  else hostOf urlOrigin (base.get k)

/-- The config names no other origin than the layer is bound to. -/
def Bound (urlOrigin : Text → Option Text) (hostKeys : List Text)
    (base resolved layer : Config) : Prop :=
  ∀ k ∈ hostKeys, namesHost resolved k = true →
    ownOrigin urlOrigin base layer k = hostOf urlOrigin (resolved.get k)

/-- The base is bound to itself. -/
theorem bound_base : Bound urlOrigin hostKeys base base base := by
  intro k _ _
  exact ite_self _

theorem not_redirectsHost (h : redirectsHost urlOrigin beneath layer hostKeys = false)
    (hk : k ∈ hostKeys) : redirectsKey urlOrigin beneath layer k = false := by
  exact Bool.eq_false_of_not_eq_true fun hr =>
    Bool.eq_false_iff.mp h (any_eq_true.mpr ⟨k, hk, hr⟩)

/-- A layer beneath that is not redirected stays bound. -/
theorem bound_inherited (h : Bound urlOrigin hostKeys base beneath layer)
    (hr : redirectsHost urlOrigin beneath row hostKeys = false) :
    Bound urlOrigin hostKeys base (beneath.merge row) layer := by
  intro k hk hnames
  rcases host_merge urlOrigin hnames with ⟨hrow, hsame⟩ | ⟨_, hbeneath, hsame⟩
  · obtain ⟨hbeneath, horigin⟩ := hostOf_of_not_redirects hrow (not_redirectsHost hr hk)
    rw [hsame, horigin]
    exact h k hk hbeneath
  · rw [hsame]
    exact h k hk hbeneath

/-- The hosts a row leaves to the layers beneath are the base's. -/
def Unmoved (urlOrigin : Text → Option Text) (hostKeys : List Text)
    (base beneath row : Config) : Prop :=
  ∀ k ∈ hostKeys, namesHost row k = false → namesHost beneath k = true →
    hostOf urlOrigin (beneath.get k) = hostOf urlOrigin (base.get k)

/-- A layer is bound to what it is merged into, whether the layers beneath
are stripped or not. -/
theorem bound_own {out : Config} (hmoved : Unmoved urlOrigin hostKeys base beneath row)
    (hout : ∀ k, namesHost out k = true → namesHost beneath k = true
      ∧ hostOf urlOrigin (out.get k) = hostOf urlOrigin (beneath.get k)) :
    Bound urlOrigin hostKeys base (out.merge row) row := by
  intro k hk hnames
  unfold ownOrigin
  rcases host_merge urlOrigin hnames with ⟨hrow, hsame⟩ | ⟨hrow, hin, hsame⟩
  · rw [if_pos hrow, hsame]
  · obtain ⟨hbeneath, horigin⟩ := hout k hin
    rw [if_neg (Bool.not_eq_true _ ▸ hrow), hsame, horigin]
    exact (hmoved k hk hrow hbeneath).symm

/-- Every secret of the config comes from a layer bound to it. -/
def Secured (urlOrigin : Text → Option Text) (hostKeys : List Text) (ps : Properties)
    (base resolved : Config) (layers : List Config) : Prop :=
  ∀ path v, secretIn ps path = true → dig (.obj resolved.fields) path = some v →
    ∃ layer ∈ layers, Holds (.obj layer.fields) path v ∧
      Bound urlOrigin hostKeys base resolved layer

theorem dig_withoutSecrets (h : secretIn ps path = true) :
    dig (.obj (c.withoutSecrets ps).fields) path = none := by
  have hlook := look_withoutSecrets ps c.fields path
  rw [if_pos (secretIn_spec ps path h).2.1] at hlook
  exact Option.map_eq_none_iff.mp hlook

theorem not_holds_withoutSecrets (h : secretIn ps path = true) :
    ¬ Holds (.obj (c.withoutSecrets ps).fields) path v := by
  intro hholds
  obtain ⟨u, hu, _⟩ := hholds
  rw [dig_withoutSecrets h] at hu
  cases hu

variable {ps : Properties} {layers : List Config}

/-- What a layer is merged over: what is beneath, without the secrets when
the layer redirects a host. -/
theorem mergeLayer_eq (urlOrigin : Text → Option Text) (hostKeys : List Text)
    (ps : Properties) (beneath row : Config) :
    mergeLayer urlOrigin beneath row ⟨some hostKeys, some ps⟩
      = if redirectsHost urlOrigin beneath row hostKeys
        then (beneath.withoutSecrets ps).merge row else beneath.merge row := by
  unfold mergeLayer
  dsimp only [Option.getD_some]
  cases hostKeys with
  | nil => rfl
  | cons k ks => cases redirectsHost urlOrigin beneath row (k :: ks) <;> rfl

/-- One merge keeps the secrets with their hosts. -/
theorem Secured.mergeLayer (h : Secured urlOrigin hostKeys ps base beneath layers)
    (hown : ∀ path v, secretIn ps path = true → Holds (.obj row.fields) path v →
      row = own ∧ Unmoved urlOrigin hostKeys base beneath row) :
    Secured urlOrigin hostKeys ps base
      (mergeLayer urlOrigin beneath row ⟨some hostKeys, some ps⟩) (own :: layers) := by
  intro path v hsecret hdig
  rw [mergeLayer_eq] at hdig ⊢
  split at hdig
  next hr =>
    rw [if_pos hr]
    rcases holds_deepMerge path (beneath.withoutSecrets ps).fields row.fields row.distinct hdig
      with hrow | hin
    · obtain ⟨rfl, hmoved⟩ := hown path v hsecret hrow
      exact ⟨row, mem_cons_self, hrow, bound_own hmoved fun k hk => host_withoutSecrets hk⟩
    · exact absurd hin (not_holds_withoutSecrets hsecret)
  next hr =>
    rw [if_neg hr]
    rcases holds_deepMerge path beneath.fields row.fields row.distinct hdig with hrow | hin
    · obtain ⟨rfl, hmoved⟩ := hown path v hsecret hrow
      exact ⟨row, mem_cons_self, hrow, bound_own hmoved fun k hk => ⟨hk, rfl⟩⟩
    · obtain ⟨u, hu, halike⟩ := hin
      obtain ⟨layer, hlayer, ⟨u', hu', halike'⟩, hbound⟩ := h path u hsecret hu
      exact ⟨layer, mem_cons_of_mem own hlayer, ⟨u', hu', halike'.trans halike⟩,
        bound_inherited hbound (Bool.eq_false_of_not_eq_true hr)⟩

-- ======== the resolution

/-- `resolveInstanceConfig` over what `resolvePluginConfig` gives, with the
base. -/
def resolveConfig (urlOrigin : Text → Option Text) (manifest : ConfigLayerManifest)
    (sessionConfig : Option (Text → Option Config)) (sessionId : Option Text)
    (sessionScoped : Bool) (instanceConfig : Option Config) (base : Config) : Config :=
  resolveInstanceConfig urlOrigin
    (resolvePluginConfig urlOrigin base sessionConfig sessionId sessionScoped manifest)
    instanceConfig manifest (some base)

/-- Layers beneath the row moved a host it does not name. -/
def moved (urlOrigin : Text → Option Text) (hostKeys : List Text)
    (base resolved own : Config) : Bool :=
  let unset := hostKeys.filter fun key => !namesHost own key
  !unset.isEmpty && redirectsHost urlOrigin base resolved unset

/-- The row `resolveInstanceConfig` merges. -/
def rowOf (urlOrigin : Text → Option Text) (hostKeys : List Text) (ps : Properties)
    (base resolved own : Config) : Config :=
  if moved urlOrigin hostKeys base resolved own then own.withoutSecrets ps else own

theorem resolveInstanceConfig_some (resolved own : Config) :
    resolveInstanceConfig urlOrigin resolved (some own) ⟨some hostKeys, some ps⟩ (some base)
      = mergeLayer urlOrigin resolved (rowOf urlOrigin hostKeys ps base resolved own)
          ⟨some hostKeys, some ps⟩ := rfl

/-- If nothing was moved, the hosts the row leaves are the base's. -/
theorem unmoved_of_not_moved (h : ¬ moved urlOrigin hostKeys base resolved own = true) :
    Unmoved urlOrigin hostKeys base resolved own := by
  intro k hk hnames hresolved
  have hunset : k ∈ hostKeys.filter fun key => !namesHost own key := by
    refine mem_filter.mpr ⟨hk, ?_⟩
    rw [hnames]
    rfl
  have hr : redirectsKey urlOrigin base resolved k = false := by
    refine Bool.eq_false_of_not_eq_true fun hr => h (Bool.and_eq_true_iff.mpr ⟨?_, ?_⟩)
    · rw [Bool.not_eq_true', isEmpty_eq_false_iff]
      exact ne_nil_of_mem hunset
    · exact any_eq_true.mpr ⟨k, hunset, hr⟩
  exact (hostOf_of_not_redirects hresolved hr).2

theorem secured_base : Secured urlOrigin hostKeys ps base base [base] := by
  intro path v _ hdig
  exact ⟨base, mem_singleton_self base, ⟨v, hdig, Alike.refl v⟩, bound_base⟩

theorem secured_override (sessionConfig : Option (Text → Option Config))
    (sessionId : Option Text) (sessionScoped : Bool) :
    Secured urlOrigin hostKeys ps base
      (resolvePluginConfig urlOrigin base sessionConfig sessionId sessionScoped
        ⟨some hostKeys, some ps⟩)
      ((overrideFor sessionConfig sessionId sessionScoped).toList ++ [base]) := by
  unfold resolvePluginConfig
  cases overrideFor sessionConfig sessionId sessionScoped with
  | none => exact secured_base
  | some override =>
    refine secured_base.mergeLayer fun path v _ _ => ⟨rfl, ?_⟩
    exact fun k _ _ _ => rfl

/-- The row of an instance keeps the secrets with their hosts. -/
theorem Secured.instanceRow (h : Secured urlOrigin hostKeys ps base resolved layers)
    (instanceConfig : Option Config) :
    Secured urlOrigin hostKeys ps base
      (resolveInstanceConfig urlOrigin resolved instanceConfig ⟨some hostKeys, some ps⟩
        (some base)) (instanceConfig.toList ++ layers) := by
  cases instanceConfig with
  | none => exact h
  | some own =>
    rw [resolveInstanceConfig_some]
    refine h.mergeLayer ?_
    intro path v hsecret hholds
    unfold rowOf at hholds ⊢
    by_cases hm : moved urlOrigin hostKeys base resolved own = true
    · rw [if_pos hm] at hholds
      exact absurd hholds (not_holds_withoutSecrets hsecret)
    · rw [if_neg hm]
      exact ⟨rfl, unmoved_of_not_moved hm⟩

-- ======== what a base shows

/-- Two configs look the same, except at the paths of `S`. -/
def Agree (S : List Step → Prop) (c d : Config) : Prop := AgreeOff S (.obj c.fields) (.obj d.fields)

/-- The paths to the secrets and into them. -/
def Secrets (ps : Properties) (path : List Step) : Prop := secretIn ps path = true

/-- No host key is dropped with the secrets. -/
def PlainHosts (hostKeys : List Text) (ps : Properties) : Prop :=
  ∀ k ∈ hostKeys, droppedIn ps [.key k] = false

section Bases

variable {S : List Step → Prop} {c d : Config}

theorem Agree.mono {S' : List Step → Prop} (h : Agree S c d) (hS : ∀ p, S p → S' p) :
    Agree S' c d := fun path hpath => h path fun hs => hpath (hS path hs)

theorem Agree.shape_get (h : Agree S c d) (hk : ¬ S [.key k]) :
    (c.get k).map shape = (d.get k).map shape := by
  rw [← look_get, ← look_get]
  exact h _ hk

theorem Agree.merge (h : Agree S c d) (hup : ∀ p q, S p → S (p ++ q)) (row : Config) :
    Agree S (c.merge row) (d.merge row) := fun path hpath =>
    look_deepMerge path S c.fields d.fields row.fields hup row.distinct h hpath

/-- Without their secrets the two are the same. -/
theorem Agree.withoutSecrets (h : Agree (Secrets ps) c d) :
    Agree (fun _ => False) (c.withoutSecrets ps) (d.withoutSecrets ps) := by
  intro path _
  have hc := look_withoutSecrets ps c.fields path
  have hd := look_withoutSecrets ps d.fields path
  refine hc.trans (Eq.trans ?_ hd.symm)
  by_cases hdrop : droppedIn ps path = true
  · rw [if_pos hdrop, if_pos hdrop]
  · rw [if_neg hdrop, if_neg hdrop]
    exact h path fun hs => hdrop (secretIn_spec ps path hs).2.1

theorem secrets_ne_host (hhosts : PlainHosts hostKeys ps) (hk : k ∈ hostKeys) :
    ¬ Secrets ps [.key k] := by
  intro hs
  have hdrop := (secretIn_spec ps _ hs).2.1
  rw [hhosts k hk] at hdrop
  cases hdrop

theorem redirectsKey_congr (hc : (c.get k).map shape = (d.get k).map shape)
    (hl : (layer.get k).map shape = (layer'.get k).map shape) :
    redirectsKey urlOrigin c layer k = redirectsKey urlOrigin d layer' k := by
  rw [Bool.eq_iff_iff, redirectsKey_iff, redirectsKey_iff, namesHost_of_shape hl,
    hostOf_of_shape hl, hostOf_of_shape hc]

theorem redirectsHost_congr {keys : List Text}
    (hc : ∀ k ∈ keys, (c.get k).map shape = (d.get k).map shape)
    (hl : ∀ k ∈ keys, (layer.get k).map shape = (layer'.get k).map shape) :
    redirectsHost urlOrigin c layer keys = redirectsHost urlOrigin d layer' keys := by
  rw [Bool.eq_iff_iff]
  unfold redirectsHost
  rw [any_eq_true, any_eq_true]
  refine exists_congr fun k => and_congr_right fun hk => ?_
  rw [redirectsKey_congr (hc k hk) (hl k hk)]

/-- The hosts of two configs that agree off their secrets. -/
theorem Agree.hosts (h : Agree (Secrets ps) c d) (hhosts : PlainHosts hostKeys ps) :
    ∀ k ∈ hostKeys, (c.get k).map shape = (d.get k).map shape :=
  fun _ hk => h.shape_get (secrets_ne_host hhosts hk)

/-- A merged layer keeps the two alike. -/
theorem agree_mergeLayer (h : Agree S c d) (hup : ∀ p q, S p → S (p ++ q))
    (hS : ∀ p, S p → Secrets ps p) (hhosts : PlainHosts hostKeys ps) (row : Config) :
    Agree S (mergeLayer urlOrigin c row ⟨some hostKeys, some ps⟩)
      (mergeLayer urlOrigin d row ⟨some hostKeys, some ps⟩) := by
  have hr : redirectsHost urlOrigin c row hostKeys = redirectsHost urlOrigin d row hostKeys :=
    redirectsHost_congr ((h.mono hS).hosts hhosts) fun _ _ => rfl
  rw [mergeLayer_eq, mergeLayer_eq, hr]
  split
  · exact (((h.mono hS).withoutSecrets).mono fun _ hf => hf.elim).merge hup row
  · exact h.merge hup row

/-- A layer that redirects a host shows nothing of the secrets beneath. -/
theorem agree_of_redirect (h : Agree (Secrets ps) c d) (hhosts : PlainHosts hostKeys ps)
    (hrow : redirectsHost urlOrigin c row hostKeys = true) :
    Agree (fun _ => False) (mergeLayer urlOrigin c row ⟨some hostKeys, some ps⟩)
      (mergeLayer urlOrigin d row ⟨some hostKeys, some ps⟩) := by
  have hr : redirectsHost urlOrigin c row hostKeys = redirectsHost urlOrigin d row hostKeys :=
    redirectsHost_congr (h.hosts hhosts) fun _ _ => rfl
  rw [mergeLayer_eq, mergeLayer_eq, ← hr, if_pos hrow, if_pos hrow]
  exact h.withoutSecrets.merge (fun _ _ hf => hf) row

section

variable (hhosts : PlainHosts hostKeys ps)
include hhosts

theorem moved_congr (hb : Agree (Secrets ps) c d)
    (hr : Agree (Secrets ps) resolved resolved') :
    moved urlOrigin hostKeys c resolved own = moved urlOrigin hostKeys d resolved' own := by
  have hunset : ∀ k, k ∈ (hostKeys.filter fun key => !namesHost own key) → k ∈ hostKeys :=
    fun k hk => mem_of_mem_filter hk
  unfold moved
  dsimp only
  rw [redirectsHost_congr (fun k hk => hb.hosts hhosts k (hunset k hk))
    fun k hk => hr.hosts hhosts k (hunset k hk)]

/-- The row that is merged names the hosts the row names. -/
theorem rowOf_redirects
    (h : redirectsHost urlOrigin resolved own hostKeys = true) :
    redirectsHost urlOrigin resolved (rowOf urlOrigin hostKeys ps base resolved own) hostKeys
      = true := by
  rw [← h]
  refine redirectsHost_congr (fun _ _ => rfl) ?_
  intro k hk
  unfold rowOf
  split
  · rw [← look_get, ← look_get]
    have hlook := look_withoutSecrets ps own.fields [.key k]
    rw [if_neg (Bool.not_eq_true _ ▸ hhosts k hk)] at hlook
    exact hlook
  · rfl

/-- Over two bases alike the row gives one config. -/
theorem agree_instanceRow (hb : Agree (Secrets ps) c d) (hr : Agree (Secrets ps) resolved resolved')
    (hsame : Agree (fun _ => False) resolved resolved'
      ∨ redirectsHost urlOrigin resolved own hostKeys = true) :
    Agree (fun _ => False)
      (resolveInstanceConfig urlOrigin resolved (some own) ⟨some hostKeys, some ps⟩ (some c))
      (resolveInstanceConfig urlOrigin resolved' (some own) ⟨some hostKeys, some ps⟩ (some d)) := by
  have hrow : rowOf urlOrigin hostKeys ps d resolved' own
      = rowOf urlOrigin hostKeys ps c resolved own := by
    unfold rowOf
    rw [moved_congr hhosts hb hr]
  rw [resolveInstanceConfig_some, resolveInstanceConfig_some, hrow]
  rcases hsame with hsame | hown
  · exact agree_mergeLayer hsame (fun _ _ hf => hf) (fun _ hf => hf.elim) hhosts _
  · exact agree_of_redirect hr hhosts (rowOf_redirects hhosts hown)

end

theorem agree_resolvePluginConfig (urlOrigin : Text → Option Text) (hhosts : PlainHosts hostKeys ps)
    (h : Agree (Secrets ps) c d) (sessionConfig : Option (Text → Option Config))
    (sessionId : Option Text) (sessionScoped : Bool) :
    Agree (Secrets ps)
      (resolvePluginConfig urlOrigin c sessionConfig sessionId sessionScoped
        ⟨some hostKeys, some ps⟩)
      (resolvePluginConfig urlOrigin d sessionConfig sessionId sessionScoped
        ⟨some hostKeys, some ps⟩) ∧
    ((∃ layer, overrideFor sessionConfig sessionId sessionScoped = some layer ∧
        redirectsHost urlOrigin c layer hostKeys = true) → Agree (fun _ => False)
        (resolvePluginConfig urlOrigin c sessionConfig sessionId sessionScoped
          ⟨some hostKeys, some ps⟩)
        (resolvePluginConfig urlOrigin d sessionConfig sessionId sessionScoped
          ⟨some hostKeys, some ps⟩)) := by
  unfold resolvePluginConfig
  cases overrideFor sessionConfig sessionId sessionScoped with
  | none =>
    refine ⟨h, ?_⟩
    intro hlayer
    obtain ⟨layer, hlayer, _⟩ := hlayer
    cases hlayer
  | some override =>
    refine ⟨agree_mergeLayer h (fun p q hs => (secretIn_spec ps p hs).2.2 q)
      (fun _ hs => hs) hhosts override, ?_⟩
    intro hlayer
    obtain ⟨layer, hlayer, hr⟩ := hlayer
    exact agree_of_redirect h hhosts (Option.some.inj hlayer ▸ hr)

end Bases

/-- The override points a host key at another origin than the base, or the
row at another than the layers beneath it. -/
def Redirected (urlOrigin : Text → Option Text) (hostKeys : List Text)
    (base resolved : Config) (override instanceConfig : Option Config) : Prop :=
  (∃ layer, override = some layer ∧ redirectsHost urlOrigin base layer hostKeys = true) ∨
    ∃ own, instanceConfig = some own ∧ redirectsHost urlOrigin resolved own hostKeys = true

/-- **Secrets stay with their host.** Every secret of the resolved config
comes from a layer that is bound to the hosts the config names; and if no
host key is dropped with the secrets, two bases that differ in their secrets
only resolve to the same config once a host key is redirected. -/
theorem config_secrets_stay_with_host (urlOrigin : Text → Option Text)
    (hostKeys : List Text) (ps : Properties) (base : Config)
    (sessionConfig : Option (Text → Option Config)) (sessionId : Option Text)
    (sessionScoped : Bool) (instanceConfig : Option Config) :
    Secured urlOrigin hostKeys ps base
      (resolveConfig urlOrigin ⟨some hostKeys, some ps⟩ sessionConfig sessionId
        sessionScoped instanceConfig base)
      (instanceConfig.toList ++
        ((overrideFor sessionConfig sessionId sessionScoped).toList ++ [base])) ∧
    ∀ base', PlainHosts hostKeys ps → Agree (Secrets ps) base base' →
      Redirected urlOrigin hostKeys base
        (resolvePluginConfig urlOrigin base sessionConfig sessionId sessionScoped
          ⟨some hostKeys, some ps⟩)
        (overrideFor sessionConfig sessionId sessionScoped) instanceConfig →
      ∀ path,
        look (.obj (resolveConfig urlOrigin ⟨some hostKeys, some ps⟩ sessionConfig
          sessionId sessionScoped instanceConfig base).fields) path =
        look (.obj (resolveConfig urlOrigin ⟨some hostKeys, some ps⟩ sessionConfig
          sessionId sessionScoped instanceConfig base').fields) path := by
  refine ⟨(secured_override sessionConfig sessionId sessionScoped).instanceRow instanceConfig, ?_⟩
  intro base' hhosts hagree hredirected path
  have hover := agree_resolvePluginConfig urlOrigin hhosts hagree
    sessionConfig sessionId sessionScoped
  cases instanceConfig with
  | none =>
    rcases hredirected with hlayer | ⟨own, hown, _⟩
    · exact hover.2 hlayer path not_false
    · cases hown
  | some own =>
    refine agree_instanceRow hhosts hagree hover.1 ?_ path not_false
    rcases hredirected with hlayer | ⟨own', hown, hrow⟩
    · exact .inl (hover.2 hlayer)
    · exact .inr (Option.some.inj hown ▸ hrow)

/-- A config of text members. -/
def textFields : List (Text × Text) → Fields
  | [] => .nil
  | e :: rest => .cons e.1 (.str e.2) (textFields rest)

theorem keys_textFields (l : List (Text × Text)) : Fields.keys (textFields l) = l.map Prod.fst := by
  induction l with
  | nil => rfl
  | cons e rest ih =>
    rw [textFields, Fields.keys, ih]
    rfl

theorem distinct_textFields {l : List (Text × Text)} (h : (l.map Prod.fst).Nodup) :
    DistinctFields (textFields l) := by
  induction l with
  | nil => exact trivial
  | cons e rest ih =>
    obtain ⟨hnew, hrest⟩ := nodup_cons.mp h
    exact ⟨(keys_textFields rest).symm ▸ hnew, trivial, ih hrest⟩

/-- A config of texts under different names. -/
def textConfig (l : List (Text × Text)) (h : (l.map Prod.fst).Nodup) : Config :=
  ⟨textFields l, distinct_textFields h⟩

/-- The fields of a schema of texts: their names, and which are secret. -/
def textProperties : List (Text × Bool) → Properties
  | [] => .nil
  | e :: rest => .cons e.1 (.mk .string e.2 .none .nil) (textProperties rest)

/-- Two configs agree off the secrets when their other members are the same. -/
theorem agree_of_get {d : Config}
    (h : ∀ k, ¬ Secrets ps [.key k] → c.get k = d.get k) : Agree (Secrets ps) c d := by
  intro path hpath
  cases path with
  | nil => rfl
  | cons s path =>
    cases s with
    | index i => rfl
    | key k =>
      have hget := h k fun hs => hpath ((secretIn_spec ps [.key k] hs).2.2 path)
      rw [look_key, look_key]
      exact congrArg (fun w => Option.bind w fun v => look v path) hget

/-- An override that moves the host gets no secret of the base, so two
secrets there make no difference. -/
theorem config_secrets_stay_with_host_moved :
    let hosts : List Text := [['h']]
    let ps := textProperties [(['h'], false), (['k'], true)]
    let base := textConfig [(['h'], ['a']), (['k'], ['1'])] (by decide)
    let base' := textConfig [(['h'], ['a']), (['k'], ['2'])] (by decide)
    let override := textConfig [(['h'], ['b'])] (by decide)
    let resolve := resolveConfig (fun _ => none) ⟨some hosts, some ps⟩ (some fun _ => some override)
      (some ['s']) true none
    look (.obj (resolve base).fields) [.key ['k']]
      = look (.obj (resolve base').fields) [.key ['k']] := by
  intro hosts ps base base' override resolve
  refine (config_secrets_stay_with_host (fun _ => none) hosts ps base (some fun _ => some override)
    (some ['s']) true none).2 base' ?_ ?_ ?_ _
  · intro k hk
    rw [mem_singleton.mp hk]
    rfl
  · refine agree_of_get fun k hk => ?_
    by_cases hkey : k = ['k']
    · rw [hkey] at hk
      exact absurd rfl hk
    · simp [base, base', textConfig, textFields, Config.get, get_cons, hkey]
  · exact .inl ⟨override, rfl, rfl⟩

/-- With a host key that is itself secret, two bases that differ in it alone
resolve to different configs although the override redirects another host
key of both: the row keeps its secret over the one, not over the other. -/
theorem secret_host_key_shows :
    let hosts : List Text := [['g'], ['h']]
    let ps := textProperties [(['g'], true), (['h'], false), (['k'], true)]
    let base := textConfig [(['g'], ['x']), (['h'], ['z'])] (by decide)
    let base' := textConfig [(['g'], ['y']), (['h'], ['z'])] (by decide)
    let override := textConfig [(['g'], ['x']), (['h'], ['w'])] (by decide)
    let row := textConfig [(['h'], ['w']), (['k'], ['1'])] (by decide)
    let resolve := resolveConfig (fun _ => none) ⟨some hosts, some ps⟩ (some fun _ => some override)
      (some ['s']) true (some row)
    Agree (Secrets ps) base base' ∧
      redirectsHost (fun _ => none) base override hosts = true ∧
      redirectsHost (fun _ => none) base' override hosts = true ∧
      look (.obj (resolve base).fields) [.key ['k']] = some (.str ['1']) ∧
      look (.obj (resolve base').fields) [.key ['k']] = none := by
  intro hosts ps base base' override row resolve
  refine ⟨agree_of_get fun k hk => ?_, rfl, rfl, rfl, rfl⟩
  by_cases hkey : k = ['g']
  · rw [hkey] at hk
    exact absurd rfl hk
  · simp [base, base', textConfig, textFields, Config.get, get_cons, hkey]

end OpenWA.PluginConfig

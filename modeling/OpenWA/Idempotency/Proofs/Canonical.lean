/-
The canonical text of a request body is exact: two JSON values have one
text if and only if they are the same value up to the order of members, an
infinity being the same as `null` (`infinity_written_as_null`).

# The argument

A value's text says where it ends: a literal, a string, an array or an
object by itself, a number because no unit of a number follows a value
(`Stops`). So two texts that begin with a value each, and are equal, begin
with the same value (`canonical_append_inj`); over the list of an array or
of the sorted members of an object this is one induction (`join_append_inj`),
with what a piece determines as a parameter. Sorting makes the list of
names a function of the set of names, which gives the other direction.
-/
import OpenWA.Lib.Text
import OpenWA.Idempotency.CanonicalJson

namespace OpenWA.Idempotency

open JsString List

-- ======== texts

/-- What may follow a value: nothing that could belong to a number. -/
def Stops (x : JsString) : Prop := ∀ u ∈ x.head?, isNumberUnit u = false

variable {x y k : JsString} {u : CodeUnit} {α β : Type} {R : α → β → Prop} {as : List α}
  {bs : List β}

theorem stops_cons (h : isNumberUnit u = false) : Stops (u :: x) := by
  intro v hv
  cases hv
  exact h

theorem stops_nil : Stops [] := by
  intro v hv
  cases hv

/-- What stands behind the first of some joined pieces. -/
def behind (f : α → JsString) (close : CodeUnit) (x : JsString) : List α → JsString
  | [] => close :: x
  | a :: as => unit ',' :: (join ((a :: as).map f) ++ close :: x)

theorem join_append (f : α → JsString) (close : CodeUnit) (x : JsString) (a : α) (as : List α) :
    join ((a :: as).map f) ++ close :: x = f a ++ behind f close x as := by
  cases as with
  | nil => rfl
  | cons a' as => exact append_assoc ..

/-- Joined pieces with a closing bracket behind come apart in one way, if
single pieces do and none begins with the bracket. -/
theorem join_append_inj {f : α → JsString} {g : β → JsString} {close : CodeUnit}
    (hclose : isNumberUnit close = false) (hcomma : close ≠ unit ',')
    (hf : ∀ a ∈ as, ∀ x y, f a ++ x ≠ close :: y) (hg : ∀ b ∈ bs, ∀ x y, g b ++ x ≠ close :: y)
    (hR : ∀ a ∈ as, ∀ b ∈ bs, ∀ {x y}, Stops x → Stops y → f a ++ x = g b ++ y → R a b ∧ x = y)
    (h : join (as.map f) ++ close :: x = join (bs.map g) ++ close :: y) :
    List.Forall₂ R as bs ∧ x = y := by
  have hstops : ∀ {γ : Type} (f : γ → JsString) (z : JsString) (l : List γ),
      Stops (behind f close z l) := by
    intro γ f z l
    cases l with
    | nil => exact stops_cons hclose
    | cons => exact stops_cons rfl
  induction as generalizing bs with
  | nil =>
    cases bs with
    | nil =>
      injection h with _ hxy
      exact ⟨.nil, hxy⟩
    | cons b bs =>
      rw [join_append] at h
      exact absurd h.symm (hg b mem_cons_self _ _)
  | cons a as ih =>
    rw [join_append] at h
    cases bs with
    | nil => exact absurd h (hf a mem_cons_self _ _)
    | cons b bs =>
      rw [join_append] at h
      obtain ⟨hab, hrest⟩ := hR a mem_cons_self b mem_cons_self (hstops f x as) (hstops g y bs) h
      -- both lists go on with a comma, or both end with the bracket
      cases as with
      | nil =>
        cases bs with
        | nil =>
          injection hrest with _ hxy
          exact ⟨.cons hab .nil, hxy⟩
        | cons b' bs =>
          injection hrest with hc _
          exact absurd hc hcomma
      | cons a' as =>
        cases bs with
        | nil =>
          injection hrest with hc _
          exact absurd hc.symm hcomma
        | cons b' bs =>
          injection hrest with _ hrest
          obtain ⟨htail, hxy⟩ := ih (fun c hc => hf c (mem_cons_of_mem _ hc))
            (fun c hc => hg c (mem_cons_of_mem _ hc))
            (fun c hc d hd => hR c (mem_cons_of_mem _ hc) d (mem_cons_of_mem _ hd)) hrest
          exact ⟨.cons hab htail, hxy⟩

-- ======== kinds

/-- The kind of a value, as the first unit of its text tells it. -/
inductive Kind
  | null
  | true
  | false
  | num
  | str
  | arr
  | obj

/-- The kind of a value, as its text shows it. -/
def kind : JsValue → Kind
  | .undefined => .null
  | .null => .null
  | .bool .true => .true
  | .bool .false => .false
  | .num n => if n.isFinite then .num else .null
  | .str _ => .str
  | .arr _ => .arr
  | .obj _ => .obj

/-- The kind told by the first unit of a text. -/
def headKind (u : CodeUnit) : Option Kind :=
  if isNumberUnit u then some .num
  else if u = unit 'n' then some .null
  else if u = unit 't' then some .true
  else if u = unit 'f' then some .false
  else if u = unit '"' then some .str
  else if u = unit '[' then some .arr
  else if u = unit '\x7b' then some .obj
  else none

/-- A finite number is written as its text. -/
theorem num_finite {n : JsNumeral} (hn : n.isFinite = true) :
    canonicalJson (.num n) = n.toText ∧ (JsValue.num n).written = .num n
      ∧ kind (.num n) = .num := by
  cases n with
  | zero | finite => exact ⟨rfl, rfl, rfl⟩
  | infinite => cases hn

/-- An infinity is written like `null`. -/
theorem num_infinite (neg : Bool) : canonicalJson (.num (.infinite neg)) = units "null"
    ∧ (JsValue.num (.infinite neg)).written = .null ∧ kind (.num (.infinite neg)) = .null :=
  ⟨rfl, rfl, rfl⟩

theorem num_cases (n : JsNumeral) : n.isFinite = true ∨ ∃ neg, n = .infinite neg := by
  cases n with
  | zero | finite => exact .inl rfl
  | infinite neg => exact .inr ⟨neg, rfl⟩

/-- The first unit of a text tells the kind of its value. -/
theorem headKind_canonicalJson (v : JsValue) (x : JsString) :
    (canonicalJson v ++ x).head?.bind headKind = some (kind v) := by
  cases v with
  | undefined | null => rfl
  | bool b => cases b <;> rfl
  | num n =>
    rcases num_cases n with hn | ⟨neg, rfl⟩
    · obtain ⟨htext, -, hkind⟩ := num_finite hn
      rw [htext, hkind]
      cases hcons : n.toText with
      | nil => exact absurd hcons (JsNumeral.toText_ne_nil hn)
      | cons u rest =>
        have hu := JsNumeral.isNumberUnit_toText hn u (by rw [hcons]; exact mem_cons_self)
        show headKind u = some Kind.num
        unfold headKind
        rw [if_pos hu]
    · rfl
  | str | arr | obj => rfl

theorem kind_of_append {v w : JsValue} (h : canonicalJson v ++ x = canonicalJson w ++ y) :
    kind w = kind v := by
  have hv := headKind_canonicalJson v x
  rw [h, headKind_canonicalJson w y] at hv
  exact Option.some.inj hv

/-- What a kind says of a value. -/
def Kind.Is (w : JsValue) : Kind → Prop
  | .null => w.written = .null ∧ canonicalJson w = units "null"
  | .true => w = .bool .true
  | .false => w = .bool .false
  | .num => ∃ n : JsNumeral, w = .num n ∧ n.isFinite = .true
  | .str => ∃ s, w = .str s
  | .arr => ∃ items, w = .arr items
  | .obj => ∃ fields, w = .obj fields

theorem kind_is {w : JsValue} (hw : w.isJson = true) : (kind w).Is w := by
  cases w with
  | undefined => cases hw
  | null => exact ⟨rfl, rfl⟩
  | bool b => cases b <;> rfl
  | num n =>
    rcases num_cases n with hn | ⟨neg, rfl⟩
    · rw [(num_finite hn).2.2]
      exact ⟨n, rfl, hn⟩
    · exact ⟨rfl, rfl⟩
  | str s => exact ⟨s, rfl⟩
  | arr items => exact ⟨items, rfl⟩
  | obj fields => exact ⟨fields, rfl⟩

/-- Where the text of one value begins with another's, they are of a kind. -/
theorem kind_is_of_append {v w : JsValue} (hw : w.isJson = true)
    (h : canonicalJson v ++ x = canonicalJson w ++ y) : (kind v).Is w :=
  kind_of_append h ▸ kind_is hw

/-- No value begins with a closing bracket. -/
theorem canonicalJson_ne_close {v : JsValue} (hu : headKind u = none) :
    canonicalJson v ++ x ≠ u :: y := by
  intro h
  have hv := headKind_canonicalJson v x
  rw [h] at hv
  change headKind u = _ at hv
  rw [hu] at hv
  cases hv

-- ======== arrays and objects

theorem canonicalJson_arr (items : JsItems) : canonicalJson (.arr items)
    = unit '[' :: (join (items.toList.map canonicalJson) ++ [unit ']']) := by
  have hitems : canonicalItems items = items.toList.map canonicalJson := by
    induction items using JsItems.induct with
    | hnil => rfl
    | hcons item rest ih =>
      show canonicalJson item :: canonicalItems rest = _
      rw [ih]
      rfl
  show unit '[' :: (join (canonicalItems items) ++ [unit ']']) = _
  rw [hitems]

/-- The names an object is written with, in order. -/
def names (fields : JsFields) : List JsString :=
  (fields.keys.insertionSort (· ≤ ·)).filter fun k => !(fields.get k).isUndefined

/-- A member's text. -/
def memberText (fields : JsFields) (k : JsString) : JsString :=
  quote k ++ unit ':' :: canonicalJson (fields.get k)

theorem lookup_canonicalFields (fields : JsFields) (hk : k ∈ fields.keys) :
    ((canonicalFields fields).lookup k).getD [] = canonicalJson (fields.get k) := by
  induction fields using JsFields.induct with
  | hnil => cases hk
  | hcons key value rest ih =>
    show (((key, canonicalJson value) :: canonicalFields rest).lookup k).getD []
      = canonicalJson ((((key, value) :: rest.toList).lookup k).getD .undefined)
    rw [lookup_cons, lookup_cons]
    by_cases heq : k = key
    · rw [heq, beq_self_eq_true]
      rfl
    · rw [beq_eq_false_iff_ne.mpr heq]
      exact ih ((mem_cons.mp hk).resolve_left heq)

theorem canonicalJson_obj (fields : JsFields) : canonicalJson (.obj fields)
    = unit '\x7b' :: (join ((names fields).map (memberText fields)) ++ [unit '\x7d']) := by
  have hentries : (names fields).map (fun k =>
      quote k ++ unit ':' :: ((canonicalFields fields).lookup k).getD [])
      = (names fields).map (memberText fields) := by
    refine map_congr_left fun k hk => ?_
    have hmem := (mem_insertionSort _).mp (mem_filter.mp hk).1
    rw [lookup_canonicalFields fields hmem]
    rfl
  show unit '\x7b' :: (join ((names fields).map fun k =>
    quote k ++ unit ':' :: ((canonicalFields fields).lookup k).getD []) ++ [unit '\x7d']) = _
  rw [hentries]

variable {f g : JsFields}

theorem isUndefined_of_isJson {v : JsValue} (h : v.isJson = true) : v.isUndefined = false := by
  cases v with
  | undefined => cases h
  | _ => rfl

section

variable (hf : (JsValue.obj f).isJson = true)
include hf

/-- Under a name of a JSON object stands one member, with a JSON value. -/
theorem exists_get (hk : k ∈ f.keys) :
    ∃ p ∈ f.toList, p.1 = k ∧ f.get k = p.2 ∧ p.2.isJson = true := by
  obtain ⟨hnodup, hvalues⟩ := (isJson_obj_iff f).mp hf
  obtain ⟨p, hp, rfl⟩ := exists_member hk
  exact ⟨p, hp, rfl, get_of_mem hnodup hp, hvalues p hp⟩

theorem isJson_get (hk : k ∈ f.keys) : (f.get k).isJson = true := by
  obtain ⟨p, -, -, hget, hjson⟩ := exists_get hf hk
  rw [hget]
  exact hjson

/-- A JSON object is written with all its names. -/
theorem names_eq : names f = f.keys.insertionSort (· ≤ ·) := by
  refine filter_eq_self.mpr fun k hk => ?_
  have hk' := (mem_insertionSort _).mp hk
  rw [isUndefined_of_isJson (isJson_get hf hk')]
  rfl

theorem mem_names : k ∈ names f ↔ k ∈ f.keys := by
  rw [names_eq hf, mem_insertionSort]

/-- The names in order depend on the set of names only. -/
theorem names_congr (hg : (JsValue.obj g).isJson = true)
    (hkeys : ∀ k, k ∈ f.keys ↔ k ∈ g.keys) : names f = names g := by
  rw [names_eq hf, names_eq hg]
  have hperm : f.keys.Perm g.keys :=
    (perm_ext_iff_of_nodup ((isJson_obj_iff f).mp hf).1 ((isJson_obj_iff g).mp hg).1).mpr hkeys
  refine List.Perm.eq_of_pairwise' (r := (· ≤ ·)) (pairwise_insertionSort _ _)
    (pairwise_insertionSort _ _) ?_
  exact ((perm_insertionSort _ _).trans hperm).trans (perm_insertionSort _ _).symm

end

-- ======== one text, the same value

/-- The texts of two members come apart in one way, if their values do. -/
theorem memberText_append_inj {k' : JsString}
    (hR : ∀ {x y}, Stops x → Stops y →
      canonicalJson (f.get k) ++ x = canonicalJson (g.get k') ++ y →
      Same (f.get k).written (g.get k').written ∧ x = y)
    (hx : Stops x) (hy : Stops y) (h : memberText f k ++ x = memberText g k' ++ y) :
    (k = k' ∧ Same (f.get k).written (g.get k').written) ∧ x = y := by
  unfold memberText at h
  rw [append_assoc, append_assoc] at h
  obtain ⟨hk, hrest⟩ := quote_append_inj h
  injection hrest with _ hvalue
  obtain ⟨hsame, hxy⟩ := hR hx hy hvalue
  exact ⟨⟨hk, hsame⟩, hxy⟩

/-- Objects with one list of names and the same values are the same. -/
theorem same_of_forall₂ (hf : (JsValue.obj f).isJson = true) (hg : (JsValue.obj g).isJson = true)
    (h : List.Forall₂ (fun k k' => k = k' ∧ Same (f.get k).written (g.get k').written)
      (names f) (names g)) : Same (JsValue.obj f).written (JsValue.obj g).written := by
  have hnames : names f = names g := by
    refine forall₂_eq_eq_eq ▸ ?_
    exact h.imp fun _ _ hk => hk.1
  have hsame : ∀ k ∈ names f, Same (f.get k).written (g.get k).written := by
    rw [← hnames] at h
    intro k hk
    exact (forall₂_same.mp h k hk).2
  refine same_written_obj.mpr ⟨fun k => ?_, fun p hp => ?_⟩
  · rw [← mem_names hf, ← mem_names hg, hnames]
  · have hmem : p.1 ∈ f.keys := mem_map_of_mem hp
    rw [← get_of_mem ((isJson_obj_iff f).mp hf).1 hp]
    exact hsame p.1 ((mem_names hf).mpr hmem)

theorem memberText_ne_close (f : JsFields) (k x y : JsString) :
    memberText f k ++ x ≠ unit '\x7d' :: y := by
  intro h
  injection h with h _
  exact absurd h (by decide)

/-- A value's text says where it ends. -/
theorem canonical_append_inj (v : JsValue) : v.isJson = true → ∀ w : JsValue, w.isJson = true →
    ∀ {x y : JsString}, Stops x → Stops y → canonicalJson v ++ x = canonicalJson w ++ y →
      Same v.written w.written ∧ x = y := by
  induction v using JsValue.induct with
  | hundefined =>
    intro hv
    cases hv
  | hnull =>
    intro _ w hw x y _ _ h
    obtain ⟨hwritten, htext⟩ := kind_is_of_append hw h
    rw [htext] at h
    rw [hwritten]
    exact ⟨.null, append_cancel_left h⟩
  | hbool b =>
    intro _ w hw x y _ _ h
    have hkind := kind_is_of_append hw h
    cases b with
    | true =>
      obtain rfl : w = .bool true := hkind
      exact ⟨.bool true, append_cancel_left h⟩
    | false =>
      obtain rfl : w = .bool false := hkind
      exact ⟨.bool false, append_cancel_left h⟩
  | hnum n =>
    intro _ w hw x y hx hy h
    rcases num_cases n with hn | ⟨neg, rfl⟩
    · obtain ⟨htext, hwritten, hkind⟩ := num_finite hn
      have his := kind_is_of_append hw h
      rw [hkind] at his
      obtain ⟨n', rfl, hn'⟩ := his
      obtain ⟨htext', hwritten', -⟩ := num_finite hn'
      rw [htext, htext'] at h
      obtain ⟨heq, hxy⟩ := Text.append_inj_of_all (JsNumeral.isNumberUnit_toText hn)
        (JsNumeral.isNumberUnit_toText hn') hx hy h
      rw [hwritten, hwritten']
      exact ⟨.num ((JsNumeral.toText_eq_iff hn' hn).mp heq), hxy⟩
    · obtain ⟨hwritten, htext⟩ := kind_is_of_append hw h
      rw [htext] at h
      rw [hwritten]
      exact ⟨.null, append_cancel_left h⟩
  | hstr s =>
    intro _ w hw x y _ _ h
    obtain ⟨s', rfl⟩ := kind_is_of_append hw h
    obtain ⟨rfl, hxy⟩ := quote_append_inj h
    exact ⟨.str s, hxy⟩
  | harr items ih =>
    intro hv w hw x y _ _ h
    obtain ⟨items', rfl⟩ := kind_is_of_append hw h
    rw [isJson_arr_iff] at hv hw
    rw [canonicalJson_arr, canonicalJson_arr, cons_append, cons_append,
      append_assoc, append_assoc] at h
    injection h with _ h
    obtain ⟨hitems, hxy⟩ := join_append_inj
      (R := fun v w : JsValue => Same v.written w.written) rfl (by decide)
      (fun v _ x y => canonicalJson_ne_close rfl) (fun v _ x y => canonicalJson_ne_close rfl)
      (fun v hv' w hw' {x y} hx hy hvw => ih v hv' (hv v hv') w (hw w hw') hx hy hvw) h
    exact ⟨same_written_arr.mpr hitems, hxy⟩
  | hobj fields ih =>
    intro hv w hw x y _ _ h
    obtain ⟨fields', rfl⟩ := kind_is_of_append hw h
    rw [canonicalJson_obj, canonicalJson_obj, cons_append, cons_append,
      append_assoc, append_assoc] at h
    injection h with _ h
    have hmember : ∀ k ∈ names fields, ∀ k' ∈ names fields', ∀ {x y}, Stops x → Stops y →
        memberText fields k ++ x = memberText fields' k' ++ y →
        (k = k' ∧ Same (fields.get k).written (fields'.get k').written) ∧ x = y := by
      intro k hk k' hk' x y hx hy hkk
      obtain ⟨p, hp, -, hget, hjson⟩ := exists_get hv ((mem_names hv).mp hk)
      have hjson' := isJson_get hw ((mem_names hw).mp hk')
      refine memberText_append_inj (fun {x y} hx hy hval => ?_) hx hy hkk
      rw [hget] at hval ⊢
      exact ih p hp hjson _ hjson' hx hy hval
    obtain ⟨hmembers, hxy⟩ := join_append_inj rfl (by decide)
      (fun k _ => memberText_ne_close fields k) (fun k _ => memberText_ne_close fields' k)
      hmember h
    exact ⟨same_of_forall₂ hv hw hmembers, hxy⟩

-- ======== the same value, one text

theorem map_eq_of_forall₂ {p : α → JsString} {q : β → JsString} (h : List.Forall₂ R as bs)
    (hpq : ∀ a ∈ as, ∀ b ∈ bs, R a b → p a = q b) : as.map p = bs.map q := by
  induction h with
  | nil => rfl
  | cons hab _ ih =>
    rw [map_cons, map_cons, hpq _ mem_cons_self _ mem_cons_self hab, ih]
    intro a ha b hb
    exact hpq a (mem_cons_of_mem _ ha) b (mem_cons_of_mem _ hb)

/-- What is written alike is of a kind. -/
theorem kind_is_of_same {v w : JsValue} (hw : w.isJson = true) (h : Same v.written w.written) :
    (kind v).Is w := by
  have hkind : ∀ {v w : JsValue}, Same v w → kind v = kind w := by
    intro v w h
    cases h with
    | null | bool | str | arr | obj => rfl
    | @num m n hvalue => cases m <;> cases n <;> first | rfl | cases hvalue
  have hwritten : ∀ v : JsValue, kind v.written = kind v := by
    intro v
    cases v with
    | num n =>
      rcases num_cases n with hn | ⟨neg, rfl⟩
      · rw [(num_finite hn).2.1]
      · rfl
    | undefined | null | bool | str | arr | obj => rfl
  rw [← hwritten, hkind h, hwritten]
  exact kind_is hw

/-- Values that are the same have one text. -/
theorem canonicalJson_congr (v : JsValue) : v.isJson = true → ∀ w : JsValue, w.isJson = true →
    Same v.written w.written → canonicalJson v = canonicalJson w := by
  induction v using JsValue.induct with
  | hundefined => intro hv; cases hv
  | hnull =>
    intro _ w hw h
    exact (kind_is_of_same hw h).2.symm
  | hbool b =>
    intro _ w hw h
    have hkind := kind_is_of_same hw h
    cases b <;> rw [show w = _ from hkind]
  | hnum n =>
    intro _ w hw h
    rcases num_cases n with hn | ⟨neg, rfl⟩
    · obtain ⟨htext, hwritten, hkind⟩ := num_finite hn
      have his := kind_is_of_same hw h
      rw [hkind] at his
      obtain ⟨n', rfl, hn'⟩ := his
      obtain ⟨htext', hwritten', -⟩ := num_finite hn'
      rw [hwritten, hwritten'] at h
      rw [htext, htext']
      cases h with
      | num hvalue => exact (JsNumeral.toText_eq_iff hn' hn).mpr hvalue
    · exact (kind_is_of_same hw h).2.symm
  | hstr s =>
    intro _ w hw h
    obtain ⟨s', rfl⟩ := kind_is_of_same hw h
    cases h
    rfl
  | harr items ih =>
    intro hv w hw h
    obtain ⟨items', rfl⟩ := kind_is_of_same hw h
    rw [isJson_arr_iff] at hv hw
    have htexts := map_eq_of_forall₂ (same_written_arr.mp h)
      fun v hv' w hw' hvw => ih v hv' (hv v hv') w (hw w hw') hvw
    rw [canonicalJson_arr, canonicalJson_arr, htexts]
  | hobj fields ih =>
    intro hv w hw h
    obtain ⟨fields', rfl⟩ := kind_is_of_same hw h
    obtain ⟨hkeys, hmembers⟩ := same_written_obj.mp h
    have htexts : (names fields).map (memberText fields)
        = (names fields).map (memberText fields') := by
      refine map_congr_left fun k hk => ?_
      have hmem := (mem_names hv).mp hk
      obtain ⟨p, hp, rfl, hget, hjson⟩ := exists_get hv hmem
      have hjson' := isJson_get hw ((hkeys p.1).mp hmem)
      have hvalue := ih p hp hjson _ hjson' (hmembers p hp)
      unfold memberText
      rw [hget, hvalue]
    rw [canonicalJson_obj, canonicalJson_obj, htexts, names_congr hv hw hkeys]

-- ======== the hash

/-- One text exactly for one value, infinities read as `null`. -/
theorem canonicalJson_eq_iff {v w : JsValue} (hv : v.isJson = true) (hw : w.isJson = true) :
    canonicalJson v = canonicalJson w ↔ Same v.written w.written := by
  constructor
  · intro h
    refine (canonical_append_inj v hv w hw stops_nil stops_nil ?_).1
    rw [h]
  · exact canonicalJson_congr v hv w hw

theorem wellFormed_join : ∀ {l : List JsString}, (∀ s ∈ l, wellFormed s = true) →
    wellFormed (join l) = true
  | [], _ => rfl
  | [s], h => h s mem_cons_self
  | s :: t :: rest, h => by
      refine wellFormed_append (h s mem_cons_self) ?_
      rw [wellFormed_cons (by decide) (by decide)]
      exact wellFormed_join fun u hu => h u (mem_cons_of_mem s hu)

theorem wellFormed_number {n : JsNumeral} (hn : n.isFinite = true) :
    wellFormed n.toText = true := by
  refine wellFormed_of_lt fun u hu => ?_
  have hnumber := JsNumeral.isNumberUnit_toText hn u hu
  simp only [isNumberUnit, isDigitUnit, Bool.or_eq_true, Bool.and_eq_true, decide_eq_true_eq,
    contains_iff_mem, mem_cons, not_mem_nil, or_false] at hnumber
  rcases hnumber with hdigit | rfl | rfl | rfl | rfl
  · omega
  all_goals decide

/-- What is written has no surrogate without its partner. -/
theorem wellFormed_canonicalJson (v : JsValue) : wellFormed (canonicalJson v) = true := by
  induction v using JsValue.induct with
  | hundefined | hnull => decide
  | hbool b => cases b <;> decide
  | hnum n =>
    rcases num_cases n with hn | ⟨neg, rfl⟩
    · rw [(num_finite hn).1]
      exact wellFormed_number hn
    · rw [(num_infinite neg).1]
      decide
  | hstr s => exact wellFormed_quote s
  | harr items ih =>
    rw [canonicalJson_arr, wellFormed_cons (by decide) (by decide)]
    refine wellFormed_append (wellFormed_join fun s hs => ?_) (by decide)
    obtain ⟨v, hv, rfl⟩ := mem_map.mp hs
    exact ih v hv
  | hobj fields ih =>
    rw [canonicalJson_obj, wellFormed_cons (by decide) (by decide)]
    refine wellFormed_append (wellFormed_join fun s hs => ?_) (by decide)
    obtain ⟨k, hk, rfl⟩ := mem_map.mp hs
    refine wellFormed_append (wellFormed_quote k) ?_
    rw [wellFormed_cons (by decide) (by decide)]
    rcases get_mem fields k with hundefined | ⟨p, hp, hget⟩
    · rw [hundefined]
      decide
    · rw [hget]
      exact ih p hp

/-- Canonical hashing is exact: the canonical texts of two JSON values are
equal if and only if the values are the same up to the order of members,
with every infinity read as `null`; and with a hash that is free of
collisions on well-formed texts, two requests have one hash if and only if
their routes are equal and their bodies are the same value in that sense. -/
theorem canonical_hash_exact {δ : Type} (hash : JsString → δ)
    (hfree : ∀ s t, wellFormed s = true → wellFormed t = true → hash s = hash t → s = t)
    (v w : JsonValue) (r r' : Route) :
    (canonicalJson v.value = canonicalJson w.value ↔ Same v.value.written w.value.written)
    ∧ (hashSendRequest hash r.name v.value = hashSendRequest hash r'.name w.value
        ↔ r.name = r'.name ∧ Same v.value.written w.value.written) := by
  have hbody : ∀ u : JsonValue, orNull u.value = u.value := by
    rintro ⟨value, json⟩
    cases value with
    | undefined => cases json
    | _ => rfl
  have hwellFormed : ∀ (route : Route) (u : JsonValue),
      wellFormed (route.name ++ unit '\n' :: canonicalJson u.value) = true := by
    intro route u
    refine wellFormed_append route.wellFormed ?_
    rw [wellFormed_cons (by decide) (by decide)]
    exact wellFormed_canonicalJson u.value
  have hexact := canonicalJson_eq_iff v.json w.json
  refine ⟨hexact, ?_⟩
  unfold hashSendRequest
  rw [hbody v, hbody w]
  constructor
  · intro h
    have htext := hfree _ _ (hwellFormed r v) (hwellFormed r' w) h
    obtain ⟨hroute, hcanonical⟩ := Text.append_cons_inj r.one_line r'.one_line htext
    exact ⟨hroute, hexact.mp hcanonical⟩
  · rintro ⟨hroute, hsame⟩
    rw [hroute, hexact.mpr hsame]

/-- A body with two members, in either order. -/
def body (first second : String × JsValue) : JsValue :=
  .obj (.cons (units first.1) first.2 (.cons (units second.1) second.2 .nil))

/-- Two members in either order, and a latitude of `-0` or `0`: one hash. -/
theorem canonical_hash_reordered :
    hashSendRequest id (units "sendLocation")
        (body ("chatId", .str (units "1@c.us")) ("latitude", .num (.zero true)))
      = hashSendRequest id (units "sendLocation")
        (body ("latitude", .num (.zero false)) ("chatId", .str (units "1@c.us"))) := by
  let v := body ("chatId", .str (units "1@c.us")) ("latitude", .num (.zero true))
  let w := body ("latitude", .num (.zero false)) ("chatId", .str (units "1@c.us"))
  have hsame : Same v.written w.written := by
    refine .obj (fun k => ?_) (.cons (.str _) (.cons (.num rfl) (.nil _)))
    exact List.Perm.mem_iff (List.Perm.swap _ _ _)
  exact (canonical_hash_exact id (fun s t _ _ h => h) ⟨v, by decide⟩ ⟨w, by decide⟩
    ⟨units "sendLocation", by decide, by decide⟩
    ⟨units "sendLocation", by decide, by decide⟩).2.mpr ⟨rfl, hsame⟩

/-- `1e400` is read as an infinity and written as `null`: two bodies that are
not the same value have one hash. -/
theorem infinity_written_as_null : ∃ v w : JsonValue, ¬ Same v.value w.value ∧
    ∀ {δ : Type} (hash : JsString → δ) (route : JsString),
      hashSendRequest hash route v.value = hashSendRequest hash route w.value := by
  refine ⟨⟨.obj (.cons (units "x") (.num (.infinite false)) .nil), by decide⟩,
    ⟨.obj (.cons (units "x") .null .nil), by decide⟩, fun h => ?_, fun hash route => rfl⟩
  cases h with
  | obj _ hwithin =>
    cases hwithin with
    | cons hvalue _ => cases hvalue

end OpenWA.Idempotency

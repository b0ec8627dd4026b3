/-
A delivery that passes the signature check is one the provider signed.

# The framing

A signed text is a timestamp and a body with fixed text around them. With a
timestamp of digits and a separator that starts with something else, the
text comes apart in one way only (`framed_inj`), and for standard webhooks
an id without a dot comes apart from the rest as well.

The check reads the timestamp of a delivery with `parseInt`, which ignores
what follows the digits, and takes any id. So this holds of the deliveries
whose timestamp header is digits, and whose id has no dot, and of no others
(`verified_delivery_was_signed`): those split a signed text elsewhere
(`split_body_is_accepted`).
-/
import OpenWA.Ingress.Signature

namespace OpenWA.Ingress

open List

-- ======== the framing

/-- Decimal digits only. -/
def Digits (text : Text) : Prop := ∀ c ∈ text, c.isDigit = true

/-- The text starts with something else than a digit. -/
def StartsNonDigit (text : Text) : Prop := ∃ c, text.head? = some c ∧ c.isDigit = false

theorem StartsNonDigit.append {sep : Text} (h : StartsNonDigit sep) (rest : Text) :
    ∀ c ∈ (sep ++ rest).head?, c.isDigit = false := by
  obtain ⟨c, hc, hdigit⟩ := h
  intro d hd
  rw [head?_append, hc] at hd
  cases hd
  exact hdigit

variable {ts ts' body body' id : Text}

/-- A timestamp of digits can be told from what follows it. -/
theorem timestamp_first_inj {sep : Text} (hsep : StartsNonDigit sep) (hts : Digits ts)
    (hts' : Digits ts') (h : ts ++ (sep ++ body) = ts' ++ (sep ++ body')) :
    ts = ts' ∧ body = body' := by
  obtain ⟨heq, hrest⟩ := Text.append_inj_of_all hts hts' (hsep.append body) (hsep.append body') h
  exact ⟨heq, append_cancel_left hrest⟩

/-- Read backwards, the digits of the timestamp and those that end the
separator stand before the separator's last character of another kind. -/
theorem body_first_inj {sep : Text} (hsep : StartsNonDigit sep) (hts : Digits ts)
    (hts' : Digits ts') (h : body ++ (sep ++ ts) = body' ++ (sep ++ ts')) :
    ts = ts' ∧ body = body' := by
  have hsplit : sep.reverse.takeWhile Char.isDigit ++ sep.reverse.dropWhile Char.isDigit
      = sep.reverse := takeWhile_append_dropWhile
  have htail : ∀ rest : Text,
      ∀ c ∈ (sep.reverse.dropWhile Char.isDigit ++ rest).head?, c.isDigit = false := by
    intro rest d hd
    have hne : sep.reverse.dropWhile Char.isDigit ≠ [] := by
      rw [Ne, dropWhile_eq_nil_iff]
      intro hall
      obtain ⟨c, hc, hdigit⟩ := hsep
      rw [hall c (mem_reverse.mpr (mem_of_mem_head? hc))] at hdigit
      cases hdigit
    obtain ⟨c, l, hl⟩ := exists_cons_of_ne_nil hne
    rw [hl] at hd
    cases hd
    have hhead := head_dropWhile_not Char.isDigit hne
    simp only [hl, head_cons] at hhead
    exact hhead
  have hdigits : ∀ {t : Text}, Digits t →
      ∀ c ∈ t.reverse ++ sep.reverse.takeWhile Char.isDigit, c.isDigit = true := by
    intro t ht c hc
    rcases mem_append.mp hc with hc | hc
    · exact ht c (mem_reverse.mp hc)
    · exact mem_takeWhile_imp hc
  have hback : ∀ t b : Text, (b ++ (sep ++ t)).reverse
      = (t.reverse ++ sep.reverse.takeWhile Char.isDigit)
        ++ (sep.reverse.dropWhile Char.isDigit ++ b.reverse) := by
    intro t b
    rw [reverse_append, reverse_append, append_assoc, append_assoc,
      ← append_assoc (sep.reverse.takeWhile _), hsplit]
  have hrev := congrArg reverse h
  rw [hback, hback] at hrev
  obtain ⟨hhead, hrest⟩ :=
    Text.append_inj_of_all (hdigits hts) (hdigits hts') (htail _) (htail _) hrev
  constructor
  · exact reverse_inj.mp (append_cancel_right hhead)
  · exact reverse_inj.mp (append_cancel_left hrest)

-- ======== the template

/-- The piece stands for no part of the delivery. -/
def Piece.fixed : Piece → Bool
  | .rawBody => false
  | .timestamp => false
  | _ => true

theorem expand_fixed {l : List Piece} (h : ∀ p ∈ l, p.fixed = true)
    (id ts ts' body body' : Text) :
    l.flatMap (Piece.expand id ts body) = l.flatMap (Piece.expand id ts' body') := by
  refine congrArg flatten (map_congr_left ?_)
  intro p hp
  have hfixed := h p hp
  cases p with
  | char | id => rfl
  | rawBody | timestamp => cases hfixed

/-- Around two pieces, fixed ones expand to the same text for every delivery. -/
theorem expand_template {pre sep post : List Piece} {p q : Piece}
    (hfixed : ∀ p ∈ pre ++ sep ++ post, p.fixed = true) (ts body : Text) :
    (pre ++ p :: (sep ++ q :: post)).flatMap (Piece.expand id ts body)
      = pre.flatMap (Piece.expand id [] []) ++ (p.expand id ts body ++
        (sep.flatMap (Piece.expand id [] []) ++ (q.expand id ts body ++
          post.flatMap (Piece.expand id [] [])))) := by
  have hsame : ∀ {l : List Piece}, l ⊆ pre ++ sep ++ post →
      l.flatMap (Piece.expand id ts body) = l.flatMap (Piece.expand id [] []) :=
    fun hl => expand_fixed (fun p hp => hfixed p (hl hp)) id ts [] body []
  rw [flatMap_append, flatMap_cons, flatMap_append, flatMap_cons,
    hsame (l := pre) (by simp), hsame (l := sep) (by simp), hsame (l := post) (by simp)]

/-- The template has the timestamp and the body once each, with text between
them that starts with something else than a digit. -/
inductive Framed (id : Text) (template : Text) : Prop
  | timestampFirst (pre sep post : List Piece)
      (h : pieces template = pre ++ .timestamp :: (sep ++ .rawBody :: post))
      (hfixed : ∀ p ∈ pre ++ sep ++ post, p.fixed = true)
      (hsep : StartsNonDigit (sep.flatMap (Piece.expand id [] [])))
  | bodyFirst (pre sep post : List Piece)
      (h : pieces template = pre ++ .rawBody :: (sep ++ .timestamp :: post))
      (hfixed : ∀ p ∈ pre ++ sep ++ post, p.fixed = true)
      (hsep : StartsNonDigit (sep.flatMap (Piece.expand id [] [])))

/-- A framed text comes apart in one way. -/
theorem framed_inj {template : Text} (hf : Framed id template) (hts : Digits ts) (hts' : Digits ts')
    (h : templateContent template id ts body = templateContent template id ts' body') :
    ts = ts' ∧ body = body' := by
  unfold templateContent at h
  cases hf with
  | timestampFirst pre sep post hpieces hfixed hsep =>
    rw [hpieces, expand_template hfixed, expand_template hfixed] at h
    obtain ⟨heq, hrest⟩ := timestamp_first_inj hsep hts hts' (append_cancel_left h)
    exact ⟨heq, append_cancel_right hrest⟩
  | bodyFirst pre sep post hpieces hfixed hsep =>
    rw [hpieces, expand_template hfixed, expand_template hfixed] at h
    have hassoc : ∀ b s t p : Text, b ++ (s ++ (t ++ p)) = b ++ (s ++ t) ++ p := by simp
    have hrest := append_cancel_left h
    rw [hassoc, hassoc] at hrest
    exact body_first_inj hsep hts hts' (append_cancel_right hrest)

variable {id' signature : Text} {name : Option Text}

/-- The standard content tells its id, timestamp and body. -/
theorem standardContent_inj (hid : '.' ∉ id) (hid' : '.' ∉ id') (hts : Digits ts)
    (hts' : Digits ts') (h : standardContent id ts body = standardContent id' ts' body') :
    id = id' ∧ ts = ts' ∧ body = body' := by
  obtain ⟨heq, hrest⟩ := Text.append_cons_inj hid hid' h
  have hdot : StartsNonDigit ['.'] := ⟨'.', rfl, rfl⟩
  exact ⟨heq, timestamp_first_inj hdot hts hts' hrest⟩

-- ======== the timestamp

theorem parseInt_digits (hts : Digits ts) (hne : ts ≠ []) :
    parseInt ts = some (digitsValue ts : Int) := by
  have htake : ts.takeWhile Char.isDigit = ts := takeWhile_eq_self_iff.mpr hts
  obtain ⟨c, rest, rfl⟩ := exists_cons_of_ne_nil hne
  have hc := hts c mem_cons_self
  unfold parseInt
  have hdrop : (c :: rest).dropWhile Text.isSpace = c :: rest := by
    rw [dropWhile_cons, Text.isSpace_of_isDigit hc, if_neg Bool.false_ne_true]
  rw [hdrop]
  dsimp only
  split
  next tail heq =>
    cases heq
    cases hc
  next tail heq =>
    cases heq
    cases hc
  next => rw [htake, if_neg hne, if_neg Bool.false_ne_true]

-- ======== the provider

/-- What a provider has signed with one secret: ids without a dot, timestamps
of digits. -/
structure Provider where
  signed : Text → Text → Text → Prop
  plainId : ∀ {id ts body}, signed id ts body → '.' ∉ id
  digits : ∀ {id ts body}, signed id ts body → Digits ts ∧ ts ≠ []

/-- A header of the delivery holds the signature. -/
def VerifyInput.Carries (input : VerifyInput) (signature : Text) : Prop :=
  ∃ name value, input.headers name = some value ∧ signature <:+: value

variable {crypto : Crypto} {parsed : Option Int} {spec : SignatureSpec} {input : VerifyInput}

/-- Signatures of standard webhooks come from the provider only. -/
def StandardUnforgeable (crypto : Crypto) (input : VerifyInput) (provider : Provider) : Prop :=
  ∀ keyB64 text, parseWebhookSecret input.secret = some keyB64 →
    input.Carries (crypto.hmac (crypto.decodeBase64 keyB64) text .base64) →
      ∃ id ts body, provider.signed id ts body ∧ text = standardContent id ts body

/-- Signatures of a route come from the provider only, who signs for this
instance. -/
def RouteUnforgeable (crypto : Crypto) (spec : SignatureSpec) (input : VerifyInput)
    (provider : Provider) : Prop :=
  ∀ text, input.Carries (crypto.hmac (crypto.utf8 input.secret) text (spec.encoding.getD .hex)) →
    ∃ ts body, provider.signed input.instanceId ts body ∧
      text = templateContent (templateOf spec) input.instanceId ts body

theorem nonempty_eq_some {value : Option Text} {text : Text} (h : nonempty value = some text) :
    value = some text ∧ text ≠ [] := by
  cases value with
  | none => cases h
  | some v =>
    cases v with
    | nil => cases h
    | cons c v =>
      cases h
      exact ⟨rfl, cons_ne_nil c v⟩

theorem headers_of_header {value : Text} (h : header input.headers name = some value) :
    ∃ key, input.headers key = some value := by
  unfold header at h
  split at h
  · cases h
  · cases h
  · exact ⟨_, h⟩

/-- A `v1` candidate holds its signature. -/
theorem infix_of_candidate {candidate : Text} (h : candidateSignature candidate = some signature) :
    signature <:+: candidate := by
  unfold candidateSignature at h
  split at h
  · cases h
  next c rest hdrop =>
    split at h
    · have hsuffix : c :: rest <:+ candidate := hdrop ▸ dropWhile_suffix _
      rw [← Option.some.inj h]
      exact ((suffix_cons c rest).trans hsuffix).isInfix
    · cases h

/-- The signature that passed stands in the delivery. -/
theorem carries_of_candidate {value : Text} (hvalue : header input.headers name = some value)
    (h : ((value.splitOn ' ').any fun candidate => candidateSignature candidate = some signature)
      = true) :
    input.Carries signature := by
  obtain ⟨candidate, hmem, hcand⟩ := any_eq_true.mp h
  obtain ⟨key, hkey⟩ := headers_of_header hvalue
  exact ⟨key, value, hkey, (infix_of_candidate (of_decide_eq_true hcand)).trans
    (Text.isInfix_of_mem_splitOn hmem)⟩

-- ======== the checks

/-- What an accepted delivery of standard webhooks has. -/
theorem standard_accepted
    (h : verifyStandardWebhooks crypto parsed spec input = .ok ()) :
    ∃ keyB64 id ts v, parseWebhookSecret input.secret = some keyB64 ∧
      header input.headers (some "webhook-id".toList) = some id ∧
      header input.headers (some "webhook-timestamp".toList) = some ts ∧ ts ≠ [] ∧
      parseInt ts = some v ∧
      fresh input.now v (spec.tolerance parsed) = true ∧
      input.Carries (crypto.hmac (crypto.decodeBase64 keyB64)
        (standardContent id ts input.rawBody) .base64) := by
  unfold verifyStandardWebhooks at h
  split at h
  next => cases h
  next keyB64 hkey =>
    dsimp only at h
    split at h
    next => cases h
    next =>
      split at h
      next id ts sigHeader hid hts hsig =>
        split at h
        next => cases h
        next v hv =>
          split at h
          next => cases h
          next hfresh =>
            split at h
            next hany =>
              obtain ⟨hid, _⟩ := nonempty_eq_some hid
              obtain ⟨hts, hne⟩ := nonempty_eq_some hts
              obtain ⟨hsig, _⟩ := nonempty_eq_some hsig
              refine ⟨keyB64, id, ts, v, hkey, hid, hts, hne, hv, ?_,
                carries_of_candidate hsig hany⟩
              rw [Bool.not_eq_true, Bool.not_eq_false'] at hfresh
              exact hfresh
            next => cases h
      next => cases h

/-- The timestamp the route's template gets. -/
def routeTimestamp (spec : SignatureSpec) (input : VerifyInput) : Text :=
  (header input.headers spec.timestampHeader).getD []

theorem bind_unit_eq_ok {x : Except Text Unit} {f : Unit → Except Text Unit}
    (h : x >>= f = .ok ()) : x = .ok () ∧ f () = .ok () := by
  cases x with
  | error e => cases h
  | ok u => exact ⟨rfl, h⟩

/-- A declared timestamp that is accepted is fresh. -/
theorem timestamp_accepted (h : checkTimestamp parsed spec input = .ok ())
    (hne : routeTimestamp spec input ≠ []) :
    header input.headers spec.timestampHeader = some (routeTimestamp spec input) ∧
      ∃ v, parseInt (routeTimestamp spec input) = some v ∧
        fresh input.now v (spec.tolerance parsed) = true := by
  have hheader : header input.headers spec.timestampHeader = some (routeTimestamp spec input) := by
    unfold routeTimestamp at hne ⊢
    cases hget : header input.headers spec.timestampHeader with
    | none =>
      rw [hget] at hne
      exact absurd rfl hne
    | some ts => rfl
  refine ⟨hheader, ?_⟩
  unfold checkTimestamp at h
  split at h
  next hname =>
    rw [hname] at hheader
    cases hheader
  next hname =>
    rw [hname] at hheader
    cases hheader
  next name hnonempty hname =>
    have hroute : (header input.headers (some name)).getD [] = routeTimestamp spec input := by
      rw [← hname]
      rfl
    rw [hroute] at h
    split at h
    next => cases h
    next v hv =>
      split at h
      next hfresh => exact ⟨v, hv, hfresh⟩
      next => cases h

/-- What an accepted delivery of a signed route has. -/
theorem route_accepted (hscheme : spec.scheme = .hmacSha256)
    (h : verifyIngressSignature crypto parsed spec input = .ok ()) :
    checkTimestamp parsed spec input = .ok () ∧
      input.Carries (crypto.hmac (crypto.utf8 input.secret)
        (templateContent (templateOf spec) input.instanceId (routeTimestamp spec input)
          input.rawBody) (spec.encoding.getD .hex)) := by
  unfold verifyIngressSignature at h
  rw [hscheme, if_neg (by decide)] at h
  split at h
  next => cases h
  next =>
    obtain ⟨htime, h⟩ := bind_unit_eq_ok h
    refine ⟨htime, ?_⟩
    split at h
    next => cases h
    next provided hprovided =>
      rw [if_neg (by decide)] at h
      dsimp only at h
      split at h
      next heq =>
        obtain ⟨key, hkey⟩ := headers_of_header (nonempty_eq_some hprovided).1
        refine ⟨key, provided, hkey, ?_⟩
        rw [heq]
        exact (suffix_append _ _).isInfix
      next => cases h

/-- **A verified delivery is one the provider signed.** A delivery of standard
webhooks that passes has a fresh timestamp, and the provider signed its id,
timestamp and body together exactly if the id has no dot and the timestamp
header is digits. One of a signed route has a timestamp that is fresh and
signed with the body exactly if the header is digits. -/
theorem verified_delivery_was_signed (provider : Provider)
    (haccept : verifyIngressSignature crypto parsed spec input = .ok ()) :
    (spec.scheme = .standardWebhooks → StandardUnforgeable crypto input provider →
      ∃ id ts v, header input.headers (some "webhook-id".toList) = some id ∧
        header input.headers (some "webhook-timestamp".toList) = some ts ∧
        parseInt ts = some v ∧ fresh input.now v (spec.tolerance parsed) = true ∧
        (provider.signed id ts input.rawBody ↔ '.' ∉ id ∧ Digits ts)) ∧
    (spec.scheme = .hmacSha256 → Framed input.instanceId (templateOf spec) →
      RouteUnforgeable crypto spec input provider →
      (header input.headers spec.timestampHeader = some (routeTimestamp spec input) ∧
        provider.signed input.instanceId (routeTimestamp spec input) input.rawBody ∧
        fresh input.now (digitsValue (routeTimestamp spec input)) (spec.tolerance parsed) = true
        ↔ Digits (routeTimestamp spec input))) := by
  constructor
  · intro hscheme hunforgeable
    have hstandard : verifyStandardWebhooks crypto parsed spec input = .ok () := by
      unfold verifyIngressSignature at haccept
      rw [hscheme, if_neg (by decide)] at haccept
      split at haccept
      next => cases haccept
      next => exact haccept
    obtain ⟨keyB64, id, ts, v, hkey, hid, hts, _, hv, hfresh, hcarries⟩ :=
      standard_accepted hstandard
    refine ⟨id, ts, v, hid, hts, hv, hfresh, ?_, ?_⟩
    · intro hsigned
      exact ⟨provider.plainId hsigned, (provider.digits hsigned).1⟩
    · rintro ⟨hplain, hdigits⟩
      obtain ⟨id', ts', body', hsigned, htext⟩ := hunforgeable keyB64 _ hkey hcarries
      obtain ⟨rfl, rfl, hbody⟩ := standardContent_inj hplain (provider.plainId hsigned) hdigits
        (provider.digits hsigned).1 htext
      rw [hbody]
      exact hsigned
  · intro hscheme hframed hunforgeable
    refine ⟨fun h => (provider.digits h.2.1).1, fun hdigits => ?_⟩
    obtain ⟨htime, hcarries⟩ := route_accepted hscheme haccept
    obtain ⟨ts', body', hsigned, htext⟩ := hunforgeable _ hcarries
    obtain ⟨hdigits', hne⟩ := provider.digits hsigned
    obtain ⟨hts, hbody⟩ := framed_inj hframed hdigits hdigits' htext
    rw [← hts] at hne hsigned
    obtain ⟨hheader, v, hv, hfresh⟩ := timestamp_accepted htime hne
    rw [parseInt_digits hdigits hne] at hv
    rw [hbody, Option.some.inj hv]
    exact ⟨hheader, hsigned, hfresh⟩

-- ======== deliveries

/-- A hash that tells one text from all others, and the decoding of the one
key that is used. -/
def markOf (text : Text) : Crypto where
  decodeBase64 := fun key => if key = "AAAA".toList then [0, 0, 0] else []
  utf8 := fun key => key.flatMap String.utf8EncodeChar
  hmac := fun _ x _ => if x = text then ['S'] else ['$']

/-- A delivery with its headers. -/
def delivery (headers : List (Text × Text)) (body : Text) : VerifyInput where
  rawBody := body
  headers := fun name => headers.lookup name
  secret := "whsec_AAAA".toList
  now := 5000
  instanceId := "inst".toList

/-- A delivery of standard webhooks. -/
def standardDelivery (id ts body : Text) : VerifyInput :=
  delivery [("webhook-id".toList, id), ("webhook-timestamp".toList, ts),
    ("webhook-signature".toList, "v1,S".toList)] body

/-- A delivery to a signed route. -/
def routeDelivery (ts body : Text) : VerifyInput :=
  delivery [("x-timestamp".toList, ts), ("x-signature".toList, "S".toList)] body

/-- A spec of the standard scheme, all else by default. -/
def standardSpec : SignatureSpec where
  scheme := .standardWebhooks
  header := none
  contentTemplate := none
  encoding := none
  digestPrefix := none
  timestampHeader := none
  toleranceMs := none

/-- A spec with a template that names the timestamp. -/
def routeSpec : SignatureSpec where
  scheme := .hmacSha256
  header := some "X-Signature".toList
  contentTemplate := some "\x7btimestamp\x7d.\x7brawBody\x7d".toList
  encoding := none
  digestPrefix := none
  timestampHeader := some "X-Timestamp".toList
  toleranceMs := none

/-- A provider that signed once. -/
def signedOnce (id ts body : Text) (hid : '.' ∉ id) (hts : Digits ts ∧ ts ≠ []) : Provider where
  signed := fun id' ts' body' => id' = id ∧ ts' = ts ∧ body' = body
  plainId := by
    intro id' ts' body' h
    rw [h.1]
    exact hid
  digits := by
    intro id' ts' body' h
    rw [h.2.1]
    exact hts

/-- No header holds the mark of another text. -/
theorem eq_of_carries {headers : List (Text × Text)} {text x : Text} {key : List UInt8}
    {encoding : Encoding} (hplain : ∀ p ∈ headers, '$' ∉ p.2)
    (h : (delivery headers body).Carries ((markOf text).hmac key x encoding)) : x = text := by
  obtain ⟨name, value, hvalue, hwithin⟩ := h
  change (if x = text then ['S'] else ['$']) <:+: value at hwithin
  split at hwithin
  next heq => exact heq
  next =>
    obtain ⟨_, _, hsplit, -⟩ := lookup_eq_some_iff.mp hvalue
    have hmem : (name, value) ∈ headers := by
      rw [hsplit]
      exact mem_append_right _ mem_cons_self
    exact absurd (hwithin.subset mem_cons_self) (hplain _ hmem)

theorem digits_five : Digits ['5'] := by
  intro c hc
  rw [mem_singleton.mp hc]
  rfl

/-- A delivery as it was signed, of standard webhooks and to a route. -/
theorem verified_delivery_was_signed_once :
    (signedOnce ['m'] ['5'] ['b'] (by decide) ⟨digits_five, by decide⟩).signed ['m'] ['5'] ['b'] ∧
    (signedOnce "inst".toList ['5'] ['b'] (by decide) ⟨digits_five, by decide⟩).signed
      "inst".toList ['5'] ['b'] := by
  constructor
  · have haccept : verifyIngressSignature (markOf (standardContent ['m'] ['5'] ['b'])) none
        standardSpec (standardDelivery ['m'] ['5'] ['b']) = .ok () := rfl
    obtain ⟨id, ts, v, hid, hts, _, _, hsigned⟩ := (verified_delivery_was_signed
      (signedOnce ['m'] ['5'] ['b'] (by decide) ⟨digits_five, by decide⟩) haccept).1 rfl
      fun _ _ _ h => ⟨_, _, _, ⟨rfl, rfl, rfl⟩, eq_of_carries (by decide) h⟩
    cases hid
    cases hts
    exact hsigned.mpr ⟨by decide, digits_five⟩
  · have haccept : verifyIngressSignature (markOf "5.b".toList) none
        routeSpec (routeDelivery ['5'] ['b']) = .ok () := rfl
    have hframed : Framed "inst".toList (templateOf routeSpec) :=
      .timestampFirst [] [.char '.'] [] rfl (by decide) ⟨'.', rfl, rfl⟩
    have hsigned := (verified_delivery_was_signed
      (signedOnce "inst".toList ['5'] ['b'] (by decide) ⟨digits_five, by decide⟩) haccept).2 rfl
      hframed fun _ h => ⟨_, _, ⟨rfl, rfl, rfl⟩, eq_of_carries (by decide) h⟩
    exact (hsigned.mpr digits_five).2.1

/-- The provider signed id `m`, timestamp `5` and body `a.b`. A delivery with
timestamp header `5.a` and body `b` is accepted, which was never signed. -/
theorem split_body_is_accepted :
    StandardUnforgeable (markOf (standardContent ['m'] ['5'] ['a', '.', 'b']))
      (standardDelivery ['m'] ['5', '.', 'a'] ['b'])
      (signedOnce ['m'] ['5'] ['a', '.', 'b'] (by decide) ⟨digits_five, by decide⟩) ∧
    verifyIngressSignature (markOf (standardContent ['m'] ['5'] ['a', '.', 'b'])) none
      standardSpec (standardDelivery ['m'] ['5', '.', 'a'] ['b']) = .ok () ∧
    ¬ (signedOnce ['m'] ['5'] ['a', '.', 'b'] (by decide)
        ⟨digits_five, by decide⟩).signed ['m'] ['5', '.', 'a'] ['b'] := by
  refine ⟨fun _ _ _ h => ⟨_, _, _, ⟨rfl, rfl, rfl⟩, eq_of_carries (by decide) h⟩, rfl, ?_⟩
  intro h
  cases h.2.1

end OpenWA.Ingress

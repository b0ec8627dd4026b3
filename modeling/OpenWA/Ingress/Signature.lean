/-
The signature check of an ingress delivery
(`modules/integration/ingress-signature.ts`).

# What is modelled

The schemes with their reasons for a refusal. The hash functions are
parameters (`Crypto`); `constantTimeEqual` is equality, as its hash has no
collisions. Numbers are exact: a timestamp is the integer its digits say (the
code rounds more digits than a JavaScript number holds), and a tolerance is
given in whole milliseconds, since the skew it is compared with is a whole
number of them. The headers are looked up by lower-cased names.
-/
import OpenWA.Lib.Text

namespace OpenWA.Ingress

/-- How a provider signs. -/
inductive Scheme
  | hmacSha256
  | sharedSecret
  | standardWebhooks
  | none
deriving DecidableEq

/-- How a digest is written. -/
inductive Encoding
  | hex
  | base64

/-- `IngressSignatureSpec`. -/
structure SignatureSpec where
  scheme : Scheme
  header : Option Text
  contentTemplate : Option Text
  encoding : Option Encoding
  digestPrefix : Option Text
  timestampHeader : Option Text
  /-- `toleranceSec`, in milliseconds. -/
  toleranceMs : Option Nat

/-- `VerifyInput`. -/
structure VerifyInput where
  rawBody : Text
  headers : Text → Option Text
  secret : Text
  /-- Milliseconds. -/
  now : Nat
  instanceId : Text

/-- The functions of `node:crypto` and `Buffer` that the check uses. -/
structure Crypto where
  /-- `Buffer.from(text, 'base64')`. -/
  decodeBase64 : Text → List UInt8
  /-- The bytes of a text that is used as a key. -/
  utf8 : Text → List UInt8
  /-- `createHmac('sha256', key).update(text).digest(encoding)`. -/
  hmac : List UInt8 → Text → Encoding → Text

/-- `resolveIngressTimestampToleranceSec`, of the number the environment
gives, if it is an integer. -/
def resolveIngressTimestampToleranceSec (parsed : Option Int) : Nat :=
  match parsed with
  | some n => if 0 < n then n.toNat else 300
  | none => 300

/-- The tolerance of a route, in milliseconds. -/
def SignatureSpec.tolerance (parsed : Option Int) (spec : SignatureSpec) : Nat :=
  spec.toleranceMs.getD (1000 * resolveIngressTimestampToleranceSec parsed)

-- ======== the helpers

/-- `header(headers, name)`. -/
def header (headers : Text → Option Text) (name : Option Text) : Option Text :=
  match name with
  | none => none
  | some [] => none
  | some name => headers name.toLowerCase

/-- What a truthiness test leaves of a header: a text that is not empty. -/
def nonempty : Option Text → Option Text
  | some [] => none
  | value => value

/-- The value of decimal digits. -/
def digitsValue (digits : Text) : Nat := digits.foldl (fun n c => 10 * n + (c.toNat - '0'.toNat)) 0

/-- `Number.parseInt(text, 10)`: blanks and a sign before the digits, and
anything behind them. -/
def parseInt (text : Text) : Option Int :=
  let rest := text.dropWhile Text.isSpace
  let unsigned : Bool × Text :=
    match rest with
    | '-' :: tail => (true, tail)
    | '+' :: tail => (false, tail)
    | tail => (false, tail)
  let digits := unsigned.2.takeWhile Char.isDigit
  if digits = [] then none
  else some (if unsigned.1 then -(digitsValue digits : Int) else digitsValue digits)

/-- `Math.abs(now / 1000 - ts) > tolerance` does not hold. -/
def fresh (now : Nat) (ts : Int) (toleranceMs : Nat) : Bool :=
  ((now : Int) - 1000 * ts).natAbs ≤ toleranceMs

/-- `text.startsWith(start)`, with what follows. -/
def stripStart : Text → Text → Option Text
  | [], text => some text
  | _ :: _, [] => none
  | c :: start, d :: text => if c = d then stripStart start text else none

/-- `parseWebhookSecret(secret)`. -/
def parseWebhookSecret (secret : Text) : Option Text :=
  let s := secret.trim
  let s := (stripStart "v1,".toList s).getD s
  let s := (stripStart "whsec_".toList s).getD s
  if s = [] then none else some s

-- ======== standard webhooks

/-- The signature of a `v1` candidate. -/
def candidateSignature (candidate : Text) : Option Text :=
  match candidate.dropWhile (· ≠ ',') with
  | [] => none
  | _ :: signature =>
    if candidate.takeWhile (· ≠ ',') = "v1".toList then some signature else none

/-- `${id}.${timestamp}.${body}`. -/
def standardContent (id timestamp body : Text) : Text := id ++ '.' :: (timestamp ++ '.' :: body)

section Verify

variable (crypto : Crypto) (parsed : Option Int) (spec : SignatureSpec) (input : VerifyInput)

/-- `verifyStandardWebhooks(spec, input)`. -/
def verifyStandardWebhooks : Except Text Unit :=
  match parseWebhookSecret input.secret with
  | none => throw "empty standard-webhooks secret".toList
  | some keyB64 =>
    let key := crypto.decodeBase64 keyB64
    if key = [] then throw "standard-webhooks secret decodes to empty key".toList
    else
      match nonempty (header input.headers "webhook-id".toList),
        nonempty (header input.headers "webhook-timestamp".toList),
        nonempty (header input.headers "webhook-signature".toList) with
      | some id, some tsRaw, some sigHeader =>
        match parseInt tsRaw with
        | none => throw "invalid webhook-timestamp".toList
        | some ts =>
          if !fresh input.now ts (spec.tolerance parsed) then
            throw "replay: timestamp outside tolerance".toList
          else
            let expected := crypto.hmac key (standardContent id tsRaw input.rawBody) .base64
            if (sigHeader.splitOn ' ').any fun candidate =>
                candidateSignature candidate = some expected then
              return ()
            else throw "webhook-signature mismatch".toList
      | _, _, _ =>
        throw "missing webhook-id/webhook-timestamp/webhook-signature header".toList

-- ======== the template

/-- A piece of a template. -/
inductive Piece
  | char (c : Char)
  | rawBody
  | timestamp
  | id

/-- A token at the head of the text, with what follows it. -/
def token (text : Text) : Option (Piece × Text) :=
  match stripStart "\x7brawBody\x7d".toList text with
  | some rest => some (.rawBody, rest)
  | none =>
    match stripStart "\x7btimestamp\x7d".toList text with
    | some rest => some (.timestamp, rest)
    | none => (stripStart "\x7bid\x7d".toList text).map fun rest => (.id, rest)

/-- The pieces of a template of at most `fuel` characters, tokens taken from
left to right. -/
def scan : Nat → Text → List Piece
  | 0, _ => []
  | _ + 1, [] => []
  | fuel + 1, c :: text =>
    match token (c :: text) with
    | some (piece, rest) => piece :: scan fuel rest
    | none => .char c :: scan fuel text

/-- The pieces of a template. -/
def pieces (template : Text) : List Piece := scan template.length template

/-- The text of a piece. -/
def Piece.expand (id timestamp body : Text) : Piece → Text
  | .char c => [c]
  | .rawBody => body
  | .timestamp => timestamp
  | .id => id

/-- The template with its tokens replaced. -/
def templateContent (template id timestamp body : Text) : Text :=
  (pieces template).flatMap (Piece.expand id timestamp body)

/-- The template that is used. -/
def templateOf : Text := spec.contentTemplate.getD "\x7brawBody\x7d".toList

/-- The signature a route expects of a text. -/
def expectedSignature (content : Text) : Text :=
  spec.digestPrefix.getD [] ++
    crypto.hmac (crypto.utf8 input.secret) content (spec.encoding.getD .hex)

/-- The timestamp a route declares is there and fresh. -/
def checkTimestamp : Except Text Unit :=
  match spec.timestampHeader with
  | none => return ()
  | some [] => return ()
  | some name =>
    match parseInt ((header input.headers (some name)).getD []) with
    | none => throw "missing/invalid timestamp".toList
    | some ts =>
      if fresh input.now ts (spec.tolerance parsed) then return ()
      else throw "replay: timestamp outside tolerance".toList

/-- `verifyIngressSignature(spec, input)`. -/
def verifyIngressSignature : Except Text Unit :=
  if spec.scheme = .none then return ()
  else if input.secret = [] then throw "empty ingress secret".toList
  else if spec.scheme = .standardWebhooks then
    verifyStandardWebhooks crypto parsed spec input
  else do
    checkTimestamp parsed spec input
    match nonempty (header input.headers spec.header) with
    | none => throw "missing signature header".toList
    | some provided =>
      if spec.scheme = .sharedSecret then
        if provided = input.secret then return ()
        else throw "shared-secret mismatch".toList
      else
        let timestamp := (header input.headers spec.timestampHeader).getD []
        let content := templateContent (templateOf spec) input.instanceId timestamp input.rawBody
        if provided = expectedSignature crypto spec input content then return ()
        else throw "hmac mismatch".toList

end Verify

end OpenWA.Ingress

/-
The fingerprint of a send request (`canonicalJson` and `hashSendRequest` of
`modules/message/idempotency/send-idempotency.service.ts`).

Strings are compared and sorted by code units, as `Array.prototype.sort`
does. `update` is called three times; a hash of the pieces is a hash of
their concatenation, as long as no surrogate pair is torn apart between
them, and neither a route name nor the line break ends in half of one.
-/
import Mathlib.Data.List.Lex
import Mathlib.Data.List.Sort
import OpenWA.Lib.JsValue

namespace OpenWA.Idempotency

open JsString

mutual

/-- `canonicalJson`. -/
def canonicalJson : JsValue → JsString
  -- `JSON.stringify(undefined) ?? 'null'`
  | .undefined => units "null"
  | .null => units "null"
  | .bool true => units "true"
  | .bool false => units "false"
  -- `JSON.stringify` writes an infinity as `null`
  | .num n => if n.isFinite then n.toText else units "null"
  | .str s => quote s
  | .arr items => unit '[' :: (join (canonicalItems items) ++ [unit ']'])
  | .obj fields =>
    let texts := canonicalFields fields
    let entries := ((fields.keys.insertionSort (· ≤ ·)).filter fun k =>
        !(fields.get k).isUndefined).map fun k =>
      quote k ++ unit ':' :: (texts.lookup k).getD []
    unit '\x7b' :: (join entries ++ [unit '\x7d'])

/-- The texts of the items. -/
def canonicalItems : JsItems → List JsString
  | .nil => []
  | .cons item rest => canonicalJson item :: canonicalItems rest

/-- The text of each member's value. -/
def canonicalFields : JsFields → List (JsString × JsString)
  | .nil => []
  | .cons key value rest => (key, canonicalJson value) :: canonicalFields rest

end

/-- `body ?? null`. -/
def orNull : JsValue → JsValue
  | .undefined => .null
  | v => v

/-- `hashSendRequest`, for a hash of texts. -/
def hashSendRequest {δ : Type} (hash : JsString → δ) (route : JsString) (body : JsValue) : δ :=
  hash (route ++ unit '\n' :: canonicalJson (orNull body))

/-- A route name: a handler's name, without line breaks. -/
structure Route where
  name : JsString
  wellFormed : JsString.wellFormed name = true
  one_line : unit '\n' ∉ name

end OpenWA.Idempotency

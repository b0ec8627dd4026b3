/-
The nesting cap of request bodies.

A UTF-8 body is judged on its raw bytes, before it is parsed
(`exceedsJsonNesting`), any other body on its parsed value
(`exceedsBodyNesting`). The loop over the bytes and the loop inside it that
skips a string are one recursion here; `Mode` says in which of them, and
whether behind a backslash, the next byte is read.
-/
import OpenWA.Lib.JsValue

namespace OpenWA.BodyNesting

/-- `MAX_BODY_NESTING`. -/
def maxBodyNesting : Nat := 100

/-- The byte of a quote. -/
def quote : UInt8 := 0x22

/-- The byte of a backslash. -/
def backslash : UInt8 := 0x5c

/-- The byte of an opening bracket. -/
def openBracket : UInt8 := 0x5b

/-- The byte of a closing bracket. -/
def closeBracket : UInt8 := 0x5d

/-- The byte of an opening brace. -/
def openBrace : UInt8 := 0x7b

/-- The byte of a closing brace. -/
def closeBrace : UInt8 := 0x7d

/-- Where in a text the scan is. -/
inductive Mode
  | text
  | string
  | escaped

/-- The scan of `exceedsJsonNesting`, from a depth on. -/
def scan (depth : Int) : Mode → List UInt8 → Bool
  | _, [] => false
  | .text, byte :: rest =>
    if byte = quote then scan depth .string rest
    else if byte = openBracket ∨ byte = openBrace then
      if depth + 1 > maxBodyNesting then true else scan (depth + 1) .text rest
    else if byte = closeBracket ∨ byte = closeBrace then scan (depth - 1) .text rest
    else scan depth .text rest
  | .string, byte :: rest =>
    if byte = quote then scan depth .text rest
    else if byte = backslash then scan depth .escaped rest
    else scan depth .string rest
  | .escaped, _ :: rest => scan depth .string rest

/-- `exceedsJsonNesting(text)`. -/
def exceedsJsonNesting (text : List UInt8) : Bool := scan 0 .text text

mutual

/-- `exceedsBodyNesting(value, depth)`. -/
def exceedsBodyNesting (depth : Nat) : JsValue → Bool
  | .arr items => decide (depth > maxBodyNesting) || someItem (depth + 1) items
  | .obj fields => decide (depth > maxBodyNesting) || someField (depth + 1) fields
  | _ => false

/-- `Object.values(value).some(…)` of an array. -/
def someItem (depth : Nat) : JsItems → Bool
  | .nil => false
  | .cons item rest => exceedsBodyNesting depth item || someItem depth rest

/-- `Object.values(value).some(…)` of an object. -/
def someField (depth : Nat) : JsFields → Bool
  | .nil => false
  | .cons _ value rest => exceedsBodyNesting depth value || someField depth rest

end

end OpenWA.BodyNesting

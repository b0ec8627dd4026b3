/-
JSON texts: the grammar, with what a text parses to and how deep its arrays
and objects nest.

# Parsing

`Reads` is the grammar as `JSON.parse` reads it. White space stands around
any value and around a member's name. An object keeps the last value of a
repeated name, in the place of the first, and names are compared as they
decode. Numbers are taken wider than JSON has them, as any run of their
characters, and read by any `numeral`.
-/
import OpenWA.Lib.Inet
import OpenWA.Lib.JsValue
import OpenWA.Lib.Percent

namespace OpenWA

/-- The UTF-8 bytes of a text. -/
def Text.utf8 (t : Text) : List UInt8 := t.flatMap String.utf8EncodeChar

/-- `object[k] = v`. -/
def JsFields.set (k : JsString) (v : JsValue) : JsFields → JsFields
  | .nil => .cons k v .nil
  | .cons key value rest =>
    if key = k then .cons key v rest else .cons key value (JsFields.set k v rest)

namespace JsonText

/-- What JSON takes as space. -/
def spaces : Text := [' ', '\t', '\n', '\r']

/-- The characters of a number. -/
def numberChars : Text := "+-.0123456789Ee".toList

/-- The escapes of one character, and what they stand for. -/
def escapes : List (Char × Char) :=
  [('"', '"'), ('\\', '\\'), ('/', '/'), ('b', '\x08'), ('f', '\x0c'), ('n', '\n'), ('r', '\r'),
    ('t', '\t')]

/-- The text between the quotes of a string. -/
inductive Chars : Text → JsString → Prop
  | nil : Chars [] []
  | plain {c t s} (hc : 32 ≤ c.toNat) (hq : c ≠ '"') (hb : c ≠ '\\') (h : Chars t s) :
      Chars (c :: t) (utf16 c ++ s)
  | escape {c d t s} (hc : (c, d) ∈ escapes) (h : Chars t s) : Chars ('\\' :: c :: t) (unit d :: s)
  | unicode {digits t s} (hlen : digits.length = 4) (hd : ∀ c ∈ digits, Inet.isHexDigit c = true)
      (h : Chars t s) :
      Chars ('\\' :: 'u' :: digits ++ t) (Fin.ofNat 65536 (Inet.hexValue digits) :: s)

/-- A text between quotes. -/
def quoted (t : Text) : Text := '"' :: t ++ ['"']

/-- What a piece of a text stands for. -/
inductive Part
  | value (v : JsValue)
  | items (l : JsItems)
  | member (k : JsString) (v : JsValue)
  | fields (f : JsFields)

variable (numeral : Text → JsNumeral) (unique : Prop)

/-- The text `t` is JSON for a part, with arrays and objects nested `n` deep
in it. If `unique`, no object repeats a name. -/
inductive Reads : Text → Part → Nat → Prop
  | null : Reads "null".toList (.value .null) 0
  | yes : Reads "true".toList (.value (.bool true)) 0
  | no : Reads "false".toList (.value (.bool false)) 0
  | num {t} (hne : t ≠ []) (ht : t ⊆ numberChars) : Reads t (.value (.num (numeral t))) 0
  | str {t s} (h : Chars t s) : Reads (quoted t) (.value (.str s)) 0
  | space {w t w' v n} (hw : w ⊆ spaces) (hw' : w' ⊆ spaces) (h : Reads t (.value v) n) :
      Reads (w ++ t ++ w') (.value v) n
  | emptyArr {w} (hw : w ⊆ spaces) : Reads ('[' :: w ++ [']']) (.value (.arr .nil)) 1
  | arr {t l n} (h : Reads t (.items l) n) : Reads ('[' :: t ++ [']']) (.value (.arr l)) (n + 1)
  | item {t v n} (h : Reads t (.value v) n) : Reads t (.items (.cons v .nil)) n
  | items {t v n t' l m} (h : Reads t (.value v) n) (hl : Reads t' (.items l) m) :
      Reads (t ++ [','] ++ t') (.items (.cons v l)) (max n m)
  | emptyObj {w} (hw : w ⊆ spaces) : Reads ('\x7b' :: w ++ ['\x7d']) (.value (.obj .nil)) 1
  | obj {t f n} (h : Reads t (.fields f) n) :
      Reads ('\x7b' :: t ++ ['\x7d']) (.value (.obj f)) (n + 1)
  | member {w s k w' t v n} (hw : w ⊆ spaces) (hk : Chars s k) (hw' : w' ⊆ spaces)
      (h : Reads t (.value v) n) : Reads (w ++ quoted s ++ w' ++ [':'] ++ t) (.member k v) n
  | field {t k v n} (h : Reads t (.member k v) n) : Reads t (.fields (.cons k v .nil)) n
  | fields {t f n t' k v m} (hf : Reads t (.fields f) n) (h : Reads t' (.member k v) m)
      (hk : unique → k ∉ f.keys) :
      Reads (t ++ [','] ++ t') (.fields (f.set k v)) (max n m)

end JsonText

end OpenWA

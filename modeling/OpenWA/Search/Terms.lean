/-
The word bound of a search query, `search-terms.ts`.

A string is the list of the code points its iterator yields, a surrogate
without its partner among them. Which code points are letters or numbers
(`\p{L}`, `\p{N}`) is a table of the runtime and a parameter here.
-/
import Mathlib.Algebra.Order.Ring.Nat
import Mathlib.Data.List.Dedup
import Mathlib.Data.List.DropRight

namespace OpenWA.Search

/-- A character of a query. -/
abbrev CodePoint := Nat

/-- `/\s/`, which is also what `trim` removes. -/
def isSpace (c : CodePoint) : Bool :=
  [0x9, 0xa, 0xb, 0xc, 0xd, 0x20, 0xa0, 0x1680, 0x2028, 0x2029, 0x202f, 0x205f, 0x3000,
    0xfeff].contains c
  || (0x2000 ≤ c && c ≤ 0x200a)

/-- The letters the tokenizer of the index splits on. -/
def splitLetter (c : CodePoint) : Bool :=
  (0x19b0 ≤ c && c ≤ 0x19c0) || [0x19c8, 0x19c9, 0x1cf2, 0x1cf3].contains c

/-- The variables of the loop of `wordsOf`. -/
structure Scan where
  words : Nat
  inRun : Bool
  stretch : Nat
  afterRun : Bool

namespace Scan

/-- The stretch read ends: its words are counted. -/
def close (s : Scan) (beforeRun : Bool) : Scan :=
  if s.stretch = 0 then s
  else
    let neighbours := s.afterRun.toNat + beforeRun.toNat
    let more :=
      if neighbours = 0 then (s.stretch + 1) / 2
      else (s.stretch - if neighbours = 2 then 1 else 0) / 2
    { s with words := s.words + more, stretch := 0 }

variable (alnum : CodePoint → Bool)

/-- `RUN_CHAR`. -/
def runChar (c : CodePoint) : Bool := !splitLetter c && alnum c

/-- One character is read. -/
def read (s : Scan) (c : CodePoint) : Scan :=
  if runChar alnum c then
    let s := s.close true
    { s with words := if s.inRun then s.words else s.words + 1, inRun := true }
  else if 0x7f < c then
    { s with
      afterRun := if s.stretch = 0 then s.inRun else s.afterRun
      stretch := s.stretch + 1
      inRun := false }
  else { s.close false with inRun := false }

end Scan

variable (alnum : CodePoint → Bool)

/-- The words counted in a term. -/
def wordsOf (word : List CodePoint) : Nat :=
  ((word.foldl (Scan.read alnum) ⟨0, false, 0, false⟩).close false).words

/-- `split(/\s+/)`, from within a separator or not. -/
def splitSpaces (inGap : Bool) : List CodePoint → List (List CodePoint)
  | [] => [[]]
  | c :: rest =>
    if isSpace c then if inGap then splitSpaces true rest else [] :: splitSpaces true rest
    else
      match splitSpaces false rest with
      | [] => [[c]]
      | piece :: pieces => (c :: piece) :: pieces

/-- The members of `new Set(q.trim().split(/\s+/))`. -/
def distinctWords (q : List CodePoint) : List (List CodePoint) :=
  (splitSpaces false ((q.dropWhile isSpace).rdropWhile isSpace)).dedup

/-- `searchTermCount(q)`. -/
def searchTermCount (q : List CodePoint) : Nat :=
  ((distinctWords q).map fun word =>
    if wordsOf alnum word = 0 then 1 else wordsOf alnum word).sum

end OpenWA.Search

/-
Which addresses an outbound request may not reach:
`src/common/security/ssrf-guard.ts`, from the range tables to
`isBlockedAddress`.

# What is text and what is a number

The source works on the spelling of an address wherever it can and on
numbers where it must. `isBlockedAddress` tests the text prefix
`::ffff:`, and everything else it reads off the eight hextets that
`expandIPv6` computes; the reserved ranges are Node's `BlockList`, which
compares numbers. The model keeps each step on the side the source has
it, so that what the two sides agree on is a theorem
(`Ssrf.Proofs.Blocked`) and not a convention.

Node's `net.isIPv4`, `net.isIPv6` and `net.BlockList` are the readers of
`Lib.Inet` under Node's names. A zone id (`%eth0`) is accepted by
`net.isIPv6` and ignored by `BlockList`; `expandIPv6` knows nothing of
it.

`isBlockedAddress` calls itself on the dotted text of an embedded IPv4
address. Such a text is no IPv6 literal, so the inner call never goes
further down; `isBlockedAddress_eq` is the source's recursion.
-/
import OpenWA.Lib.Inet

namespace OpenWA.Ssrf

open Inet Text

-- ======== node's net

/-- `net.isIPv4`. -/
def isIPv4 (ip : Text) : Bool := (parseIPv4 ip).isSome

/-- An address without its zone id. -/
def stripZone (ip : Text) : Text := ip.takeWhile (· ≠ '%')

/-- `net.isIPv6`: a literal, with or without a zone id. -/
def isIPv6 (ip : Text) : Bool := (parseIPv6 (stripZone ip)).isSome

/-- `BlockList.check(ip, 'ipv4')` over the subnets that were added. -/
def check4 (ranges : List (String × Nat)) (ip : Text) : Bool :=
  (parseIPv4 ip).any fun n =>
    ranges.any fun r => (parseIPv4 r.1.toList).any (sameNet 32 r.2 n)

/-- `BlockList.check(ip, 'ipv6')` over the subnets that were added. -/
def check6 (ranges : List (String × Nat)) (ip : Text) : Bool :=
  (parseIPv6 (stripZone ip)).any fun g =>
    ranges.any fun r => (parseIPv6 r.1.toList).any fun m =>
      sameNet 128 r.2 (groupsValue g) (groupsValue m)

-- ======== tables

/-- `BLOCKED_V4_RANGES`. -/
def blockedV4Ranges : List (String × Nat) :=
  [ ("0.0.0.0", 8),
    ("10.0.0.0", 8),
    ("100.64.0.0", 10),
    ("127.0.0.0", 8),
    ("169.254.0.0", 16),
    ("172.16.0.0", 12),
    ("192.0.0.0", 24),
    ("192.168.0.0", 16),
    ("198.18.0.0", 15),
    ("224.0.0.0", 4),
    ("240.0.0.0", 4) ]

/-- `BLOCKED_V6_RANGES`. -/
def blockedV6Ranges : List (String × Nat) :=
  [ ("::", 128),
    ("::1", 128),
    ("0000::", 3),
    ("fc00::", 7),
    ("fe80::", 10),
    ("fec0::", 10) ]

/-- `GLOBAL_UNICAST_V6`: the one range the fallthrough allows. -/
def globalUnicastV6 : List (String × Nat) := [("2000::", 3)]

-- ======== hextets

/-- A number as `toString()` and `toString(16)` write it. -/
def toText (radix n : Nat) : Text := Nat.toDigits radix n

/-- `hextetsToV4`: two hextets as a dotted quad. -/
def hextetsToV4 (hi lo : Nat) : Text :=
  toText 10 ((hi >>> 8) &&& 0xff) ++ '.' :: toText 10 (hi &&& 0xff)
    ++ '.' :: toText 10 ((lo >>> 8) &&& 0xff)
    ++ '.' :: toText 10 (lo &&& 0xff)

/-- `/^\d{1,3}$/`. -/
def isShortDecimal (s : Text) : Bool := s ≠ [] && s.length ≤ 3 && s.all Char.isDigit

/-- `/^(\d{1,3})\.(\d{1,3})\.(\d{1,3})\.(\d{1,3})$/` and its four
captures. -/
def matchDotted (s : Text) : Option (List Text) :=
  match s.splitOn '.' with
  | [a, b, c, d] =>
    if [a, b, c, d].all isShortDecimal then some [a, b, c, d] else none
  | _ => none

/-- The same expression without `^`: the leftmost place from which the
rest of the text matches, as the text before it and the captures. -/
def matchDottedTail : Text → Option (Text × List Text)
  | [] => none
  | c :: rest =>
    match matchDotted (c :: rest) with
    | some captures => some ([], captures)
    | none => (matchDottedTail rest).map fun m => (c :: m.1, m.2)

/-- `/^[0-9a-f]{1,4}$/`. -/
def isHextet (s : Text) : Bool :=
  s ≠ [] && s.length ≤ 4 && s.all fun c => ('0' ≤ c && c ≤ '9') || ('a' ≤ c && c ≤ 'f')

/-- `s.split('::')`. -/
def splitDouble : Text → List Text
  | [] => [[]]
  | [c] => [[c]]
  | c :: d :: rest =>
    if c = ':' ∧ d = ':' then [] :: splitDouble rest
    else match splitDouble (d :: rest) with
      | [] => [[c]]
      | h :: t => (c :: h) :: t

/-- Fold a trailing dotted quad into two hextets; `none` when an octet is
out of range. -/
def foldDotted (s : Text) : Option Text :=
  match matchDottedTail s with
  | none => some s
  | some (before, captures) =>
    match captures.map decValue with
    | [a, b, c, d] =>
      if [a, b, c, d].any (255 < ·) then none
      else some (before ++ toText 16 ((a <<< 8) ||| b) ++ ':' :: toText 16 ((c <<< 8) ||| d))
    | _ => none

/-- `half ? half.split(':') : []`. -/
def splitHalf (half : Text) : List Text :=
  if half = [] then [] else half.splitOn ':'

/-- `parts.map(h => …)` and the `NaN` check: every part a hextet, or
`null`. -/
def readHextets (parts : List Text) : Option (List Nat) :=
  if parts.all isHextet then some (parts.map hexValue) else none

/-- `expandIPv6`: the eight hextets of a literal, or `null`. -/
def expandIPv6 (lower : Text) : Option (List Nat) :=
  match foldDotted lower with
  | none => none
  | some s =>
    match splitDouble s with
    | [whole] =>
      let head := splitHalf whole
      if head.length ≠ 8 then none else readHextets head
    | [first, second] =>
      let head := splitHalf first
      let tail := splitHalf second
      -- `gap = 8 - head.length - tail.length`, refused below one
      if 8 < head.length + tail.length + 1 then none
      else
        let parts := head
          ++ List.replicate (8 - (head.length + tail.length)) ['0']
          ++ tail
        if parts.length ≠ 8 then none else readHextets parts
    | _ => none

-- ======== isBlockedAddress

/-- The `::ffff:` branch: the embedded IPv4 text, when the rest of the
literal is a dotted quad or exactly two hextets. -/
def mappedTail (lower : Text) : Option Text :=
  if "::ffff:".toList.isPrefixOf lower then
    let tail := lower.drop "::ffff:".length
    if (matchDotted tail).isSome then some tail
    else
      match tail.splitOn ':' with
      | [h, l] =>
        if isHextet h && isHextet l then
          some (hextetsToV4 (hexValue h) (hexValue l))
        else none
      | _ => none
  else none

/-- The decapsulation ladder over expanded hextets: the embedded IPv4
text of the first form that matches. -/
def embeddedV4 : List Nat → Option Text
  | [h0, h1, h2, h3, h4, h5, h6, h7] =>
    if h0 = 0x2002 then some (hextetsToV4 h1 h2)
    else if h0 = 0x64 ∧ h1 = 0xff9b ∧ h2 ≤ 1 ∧ h3 = 0 ∧ h4 = 0 ∧ h5 = 0 then
      some (hextetsToV4 h6 h7)
    else if (h0 = 0 ∧ h1 = 0 ∧ h2 = 0 ∧ h3 = 0 ∧ h4 = 0 ∧ h5 = 0) ∧ h6 ||| h7 ≠ 0 then
      some (hextetsToV4 h6 h7)
    else if h0 = 0 ∧ h1 = 0 ∧ h2 = 0 ∧ h3 = 0 ∧ h4 = 0xffff ∧ h5 = 0 then
      some (hextetsToV4 h6 h7)
    else if h0 = 0 ∧ h1 = 0 ∧ h2 = 0 ∧ h3 = 0 ∧ h4 = 0 ∧ h5 = 0xffff then
      some (hextetsToV4 h6 h7)
    else none
  | _ => none

/-- The body of `isBlockedAddress`, with what it calls itself on handed
to `again`. -/
def judgeAddress (again : Text → Bool) (ip : Text) : Bool :=
  if isIPv4 ip then check4 blockedV4Ranges ip
  else if isIPv6 ip then
    let lower := toLowerCase ip
    match mappedTail lower with
    | some v4 => again v4
    | none =>
      match (expandIPv6 lower).bind embeddedV4 with
      | some v4 => again v4
      | none => check6 blockedV6Ranges lower || !check6 globalUnicastV6 lower
  else true

/-- `isBlockedAddress`: whether an address may not be reached. What the
inner call sees is no IPv6 literal, so it answers `true` where the outer
one would look further. -/
def isBlockedAddress (ip : Text) : Bool :=
  judgeAddress (fun v4 => if isIPv4 v4 then check4 blockedV4Ranges v4 else true) ip

end OpenWA.Ssrf

/-
The template renderer (`common/utils/template-render.ts`) and what
`stripBatchMediaPayloads` of `modules/message/batch-media.util.ts` does with
the names a template mentions.

# The pattern

`/\{\{\s*([\w.-]+)\s*\}\}|\{(\w+)\}/g`, tried at each position from the
left, the double brace first. White space, name characters and the closing
brace are three disjoint classes, so a run of either of the first two is
taken whole or the branch fails: `matchDouble` and `matchSingle` take the
longest runs and never go back. `scan` counts down the rest of a match
before it tries again.

# Values

A variable is what `String` makes of it: `null` or `undefined`, a text, or
a value without a text form, at which the conversion throws. The engine's
own limit on the length of a string is left out.
-/
import OpenWA.Lib.Utf16

namespace OpenWA.Template

-- ======== the pattern

/-- The code unit of an opening brace. -/
def openBrace : CodeUnit := unit '\x7b'

/-- The code unit of a closing brace. -/
def closeBrace : CodeUnit := unit '\x7d'

/-- `\w`. -/
def isWord (u : CodeUnit) : Bool :=
  (48 ≤ u.val && u.val ≤ 57) || (65 ≤ u.val && u.val ≤ 90) || u.val = 95
    || (97 ≤ u.val && u.val ≤ 122)

/-- `[\w.-]`. -/
def isName (u : CodeUnit) : Bool := isWord u || u.val = 46 || u.val = 45

/-- `\s`. -/
def isSpace (u : CodeUnit) : Bool :=
  [0x9, 0xa, 0xb, 0xc, 0xd, 0x20, 0xa0, 0x1680, 0x2028, 0x2029, 0x202f, 0x205f, 0x3000,
    0xfeff].contains u.val
  || (0x2000 ≤ u.val && u.val ≤ 0x200a)

/-- A match: `match[0]`, `match[1]` and `match[2]`. -/
structure Match where
  text : JsString
  double : Option JsString
  single : Option JsString
deriving DecidableEq

/-- `match[1] ?? match[2]`. -/
def Match.key (m : Match) : Option JsString := m.double.or m.single

/-- The first alternative, at the front of a text. -/
def matchDouble (s : JsString) : Option Match :=
  if [openBrace, openBrace].isPrefixOf s then
    let r := s.drop 2
    let before := r.takeWhile isSpace
    let r := r.dropWhile isSpace
    let name := r.takeWhile isName
    let r := r.dropWhile isName
    let after := r.takeWhile isSpace
    let r := r.dropWhile isSpace
    if name ≠ [] ∧ [closeBrace, closeBrace].isPrefixOf r then
      some {
        text := [openBrace, openBrace] ++ before ++ name ++ after ++ [closeBrace, closeBrace]
        double := some name
        single := none }
    else none
  else none

/-- The second. -/
def matchSingle (s : JsString) : Option Match :=
  if [openBrace].isPrefixOf s then
    let r := s.drop 1
    let name := r.takeWhile isWord
    let r := r.dropWhile isWord
    if name ≠ [] ∧ [closeBrace].isPrefixOf r then
      some {
        text := [openBrace] ++ name ++ [closeBrace]
        double := none
        single := some name }
    else none
  else none

/-- The placeholder at the head of a text. -/
def matchAt (s : JsString) : Option Match := (matchDouble s).or (matchSingle s)

/-- A code unit outside every match, or a match. -/
inductive Piece
  | literal (u : CodeUnit)
  | placeholder (m : Match)

/-- The matches of a text and what lies between them; `skip` units belong to
the last match. -/
def scan : Nat → JsString → List Piece
  | _, [] => []
  | skip + 1, _ :: rest => scan skip rest
  | 0, u :: rest =>
    match matchAt (u :: rest) with
    | some m => .placeholder m :: scan (m.text.length - 1) rest
    | none => .literal u :: scan 0 rest

/-- The pieces of a body. -/
def pieces (body : JsString) : List Piece := scan 0 body

/-- The placeholder of a piece. -/
def Piece.matched : Piece → Option Match
  | .literal _ => none
  | .placeholder m => some m

/-- `body.matchAll(PLACEHOLDER_PATTERN)`. -/
def matchAll (body : JsString) : List Match := (pieces body).filterMap Piece.matched

/-- `templateVariableNames`. -/
def templateVariableNames (body : JsString) : List JsString := (matchAll body).filterMap Match.key

-- ======== substitution

/-- The value of a variable, as `String` sees it. -/
inductive Variable
  | nullish
  | text (s : JsString)
  | untextual

/-- The own properties of a variable map. -/
abbrev Vars := JsString → Option Variable

/-- The error of a render. -/
structure TemplateRenderError where
  message : JsString

/-- The texts of one render, kept per key. -/
abbrev Seen := List (JsString × Option JsString)

/-- The text of a variable, `none` when its placeholder stays literal. -/
def textOf (vars : Vars) (key : JsString) : Except TemplateRenderError (Option JsString) :=
  match vars key with
  | none => .ok none
  | some .nullish => .ok none
  | some (.text s) => .ok (some s)
  | some .untextual =>
    .error ⟨units "Variable '" ++ key ++ units "' cannot be rendered as text"⟩

/-- `substitution`. -/
def substitution (vars : Vars) (key : Option JsString) (seen : Seen) :
    Except TemplateRenderError (Option JsString × Seen) :=
  match key with
  | none => .ok (none, seen)
  | some k =>
    match seen.lookup k with
    | some text => .ok (text, seen)
    | none => (textOf vars k).map fun text => (text, (k, text) :: seen)

-- ======== rendering

/-- The replacement of every match, from the left. -/
def renderPieces (vars : Vars) : Seen → List Piece → Except TemplateRenderError JsString
  | _, [] => .ok []
  | seen, .literal u :: rest => (renderPieces vars seen rest).map (u :: ·)
  | seen, .placeholder m :: rest => do
      let (text, seen) ← substitution vars m.key seen
      let tail ← renderPieces vars seen rest
      return text.getD m.text ++ tail

/-- `renderTemplate`. -/
def renderTemplate (body : JsString) (vars : Vars) : Except TemplateRenderError JsString :=
  if body = [] ∨ openBrace ∉ body then .ok body
  else renderPieces vars [] (pieces body)

/-- The loop of `renderedLength`. -/
def measure (vars : Vars) : Seen → Int → List Match → Except TemplateRenderError Int
  | _, length, [] => .ok length
  | seen, length, m :: rest => do
      let (text, seen) ← substitution vars m.key seen
      match text with
      | some t => measure vars seen (length + (t.length - m.text.length)) rest
      | none => measure vars seen length rest

/-- `renderedLength`. -/
def renderedLength (body : JsString) (vars : Vars) : Except TemplateRenderError Int :=
  if body = [] ∨ openBrace ∉ body then .ok body.length
  else measure vars [] body.length (matchAll body)

-- ======== stored batches

/-- `delete vars[name]` for each of the names. -/
def Vars.deleteAll (vars : Vars) (names : List JsString) : Vars := fun k =>
  if names.contains k then none else vars k

/-- `typeof media.base64 === 'string'`, or another value. -/
inductive Base64
  | string (s : JsString)
  | other
deriving DecidableEq

/-- A media item: an object, with or without a `base64`; or no object. -/
inductive Media
  | object (base64 : Option Base64)
  | none

/-- The kinds of media a template can send. -/
inductive MediaKey
  | image
  | video
  | audio
  | document
deriving DecidableEq

/-- A stored message: its media and its `variables`, if it has an object of
them. -/
structure BatchMessage where
  content : MediaKey → Media
  vars : Option Vars

/-- The body of the inner loop of `stripBatchMediaPayloads`. -/
def stripMedia (m : BatchMessage) (key : MediaKey) : BatchMessage :=
  match m.content key with
  | .object (some base64) =>
    { content := fun k => if k = key then .object none else m.content k
      vars :=
        match base64 with
        | .string s => m.vars.map fun vars => vars.deleteAll (templateVariableNames s)
        | .other => m.vars }
  | _ => m

/-- `stripBatchMediaPayloads`. -/
def stripBatchMediaPayloads (messages : List BatchMessage) : List BatchMessage :=
  messages.map fun m =>
    [MediaKey.image, MediaKey.video, MediaKey.audio, MediaKey.document].foldl stripMedia m

end OpenWA.Template

import YamlQuery.Yaml.Token.Basic
import YamlQuery.Yaml.Token.Scalar

/-!
# Yaml.Token.Read — YAML text to tokens

Where a mapping starts is known only at the colon behind its first key.  So every place where a key
may start is remembered (`Candidate`) with the number of tokens before it; a colon turns the
candidate of its level into a key by inserting tokens there.  A candidate lapses at the end of its
line or after 1024 characters; where indentation asks for a key, that is an error.

`tokens?` gives all tokens of a text, or `none` if it is no YAML.
-/

namespace YamlQuery.Yaml

open YamlQuery.Text

/-- A place where a key may have started. -/
structure Candidate where
  required : Bool
  count : Nat
  place : Cursor

/-- The state of reading tokens. -/
structure Reading where
  place : Cursor
  tokens : Array Token := #[]
  /-- The column of the innermost block, and those of the blocks around it. -/
  indent : Int := -1
  indents : List Int := []
  /-- How many flow collections are open. -/
  flow : Nat := 0
  keyAllowed : Bool := true
  /-- The candidates of the open flow collections, the innermost first, and that of the block. -/
  candidates : List (Option Candidate) := [none]

namespace Reading

def push (t : Token) (r : Reading) : Reading := { r with tokens := r.tokens.push t }

/-- The column of the place. -/
def column (r : Reading) : Int := r.place.column

def inFlow (r : Reading) : Bool := 0 < r.flow

/-- Behind the next `n` characters. -/
def drop (n : Nat) (r : Reading) : Reading := { r with place := r.place.drop n }

def allowKey (b : Bool) (r : Reading) : Reading := { r with keyAllowed := b }

/-! ### Indentation -/

/-- Starts a block collection at a column right of the innermost block. -/
def openBlock (column : Int) (count : Nat) (t : Token) (r : Reading) : Reading :=
  if r.inFlow || column ≤ r.indent then r
  else
    { r with
      tokens := r.tokens.insertIdxIfInBounds count t
      indents := r.indent :: r.indents
      indent := column }

/-- The blocks that end at a column, the innermost first, and what is left of the stack. -/
def closing (column : Int) : Int → List Int → Nat × Int × List Int
  | indent, [] => (0, indent, [])
  | indent, i :: is =>
    if column < indent then
      let (n, r) := closing column i is
      (n + 1, r)
    else (0, indent, i :: is)

/-- Ends the block collections right of a column. -/
def closeBlocks (column : Int) (r : Reading) : Reading :=
  if r.inFlow then r
  else
    let (n, indent, indents) := closing column r.indent r.indents
    { r with tokens := r.tokens ++ Array.replicate n .blockEnd, indent, indents }

/-! ### Candidates for keys -/

/-- The candidate still counts at a place. -/
def Candidate.holds (k : Candidate) (c : Cursor) : Bool :=
  k.place.line == c.line && c.index ≤ k.place.index + 1024

/-- Drops the candidates that have lapsed. -/
def lapse? (r : Reading) : Option Reading :=
  if r.candidates.any (·.any fun k => k.required && !Candidate.holds k r.place) then none
  else some { r with candidates := r.candidates.map (·.filter (Candidate.holds · r.place)) }

/-- Drops the candidate of this level, which must not be required. -/
def forget? (r : Reading) : Option Reading :=
  match r.candidates with
  | some k :: ks => if k.required then none else some { r with candidates := none :: ks }
  | _ => some r

/-- Makes this place the candidate of its level, if a key may start here. -/
def remember? (r : Reading) : Option Reading :=
  if r.keyAllowed then
    (r.forget?).map fun r =>
      let k : Candidate := ⟨!r.inFlow && r.indent == r.column, r.tokens.size, r.place⟩
      { r with candidates := some k :: r.candidates.drop 1 }
  else some r

/-! ### Between tokens -/

/-- Behind white space, comments and line ends.  In a block a new line may start with a key; there a
tab is white space only where no key may start. -/
def passSpaceFrom : Nat → Reading → Reading
  | 0, r => r
  | fuel + 1, r =>
    let start := if r.place.index == 0 && r.place.isAt 0 '\ufeff' then r.place.skip else r.place
    let tabs := r.inFlow || !r.keyAllowed
    let c := (start.dropWhile fun x => x == ' ' || (tabs && x == '\t')).passComment
    let (b, next) := c.takeBreak
    if b.isEmpty then { r with place := c }
    else passSpaceFrom fuel { r with place := next, keyAllowed := r.keyAllowed || !r.inFlow }

def passSpace (r : Reading) : Reading := passSpaceFrom (r.place.rest.length + 1) r

/-! ### Directives -/

/-- A number of at most nine digits. -/
def versionNumber? (c : Cursor) : Option (Nat × Cursor) :=
  let (digits, c) := c.takeWhile isDigit
  if 9 < digits.length then none else (natOf? 10 digits).map (·, c)

/-- A tag handle: `!`, or `!word!`; outside a directive also the start of a tag. -/
def handle? (directive : Bool) (c : Cursor) : Option (List Char × Cursor) :=
  match c.rest with
  | '!' :: _ =>
    let (word, c) := c.skip.takeWhile isWordChar
    if c.isAt 0 '!' then some ('!' :: (word ++ ['!']), c.skip)
    else if directive && !word.isEmpty then none
    else some ('!' :: word, c)
  | _ => none

/-- The characters of a tag; in `!<…>` also three indicators of flow collections. -/
def isTagChar (verbatim : Bool) (c : Char) : Bool :=
  isWordChar c || ";/?:@&=+$.%!~*'()".toList.contains c ||
    (verbatim && (c == ',' || c == '[' || c == ']'))

/-- The octet that `%` and two hexadecimal digits write. -/
def octet? : List Char → Option Nat
  | '%' :: a :: b :: _ => natOf? 16 [a, b]
  | _ => none

/-- The octets that continue a character, six bits each. -/
def octets? : Nat → Nat → List Char → Option Nat
  | 0, acc, _ => some acc
  | n + 1, acc, s =>
    match octet? s with
    | some o => if o / 64 = 2 then octets? n (acc * 64 + o % 64) (s.drop 3) else none
    | none => none

/-- A character written in octets, and how many of them. -/
def escapedChar? (s : List Char) : Option (Char × Nat) :=
  match octet? s with
  | none => none
  | some o =>
    let more (n first : Nat) := (octets? n first (s.drop 3)).map fun v => (Char.ofNat v, n + 1)
    if o < 0x80 then more 0 o
    else if o / 32 = 6 then more 1 (o % 32)
    else if o / 16 = 14 then more 2 (o % 16)
    else if o / 8 = 30 then more 3 (o % 8)
    else none

/-- The characters of a tag. -/
def tagChars? (verbatim : Bool) : Nat → Cursor → Option (List Char × Cursor)
  | 0, _ => none
  | fuel + 1, c =>
    match c.rest with
    | [] => some ([], c)
    | x :: _ =>
      if !isTagChar verbatim x then some ([], c)
      else if x == '%' then
        match escapedChar? c.rest with
        | some (y, n) => (tagChars? verbatim fuel (c.drop (3 * n))).map fun (s, c) => (y :: s, c)
        | none => none
      else (tagChars? verbatim fuel c.skip).map fun (s, c) => (x :: s, c)

def tagText? (verbatim : Bool) (c : Cursor) : Option (List Char × Cursor) :=
  tagChars? verbatim (c.rest.length + 1) c

/-- A directive behind its percent sign. -/
def directive? (c : Cursor) : Option (Token × Cursor) := do
  let (name, c) := c.takeWhile isWordChar
  guard (endsWord c.rest)
  let c := c.dropWhile isGap
  match String.ofList name with
  | "YAML" =>
    let (major, c) ← versionNumber? c
    guard (c.isAt 0 '.')
    let (minor, c) ← versionNumber? c.skip
    (← pure (.version major minor), ·) <$> restOfLine? c
  | "TAG" =>
    let (handle, c) ← handle? true c
    guard (c.rest.head?.any isGap)
    let (start, c) ← tagText? true (c.dropWhile isGap)
    guard (!start.isEmpty && endsWord c.rest)
    (← pure (.tagDirective (String.ofList handle) (String.ofList start)), ·) <$> restOfLine? c
  | _ => none

/-! ### Properties of nodes -/

/-- The name of an anchor or an alias behind its indicator. -/
def anchorName? (c : Cursor) : Option (String × Cursor) :=
  let (name, c) := c.takeWhile isWordChar
  if !name.isEmpty && (endsWord c.rest || c.rest.head?.any ("?:,]\x7d%@".toList.contains ·) ||
      c.isAt 0 '\x60') then
    some (String.ofList name, c)
  else none

/-- The handle and the suffix of a tag. -/
def tagParts? (c : Cursor) : Option (List Char × List Char × Cursor) := do
  if c.isAt 1 '<' then
    let (suffix, c) ← tagText? true (c.drop 2)
    guard (!suffix.isEmpty && c.isAt 0 '>')
    return ([], suffix, c.skip)
  let (handle, c) ← handle? false c
  if 1 < handle.length && handle.getLast? == some '!' then
    let (suffix, c) ← tagText? false c
    guard !suffix.isEmpty
    return (handle, suffix, c)
  let (suffix, c) ← tagText? false c
  let suffix := handle.drop 1 ++ suffix
  return if suffix.isEmpty then ([], ['!'], c) else (['!'], suffix, c)

/-- A tag, which white space follows, or a comma in a flow collection. -/
def tag? (flow : Bool) (c : Cursor) : Option (Token × Cursor) := do
  let (handle, suffix, c) ← tagParts? c
  guard (endsWord c.rest || (flow && c.isAt 0 ','))
  return (.tag (String.ofList handle) (String.ofList suffix), c)

/-! ### Tokens -/

/-- A token of one character that may be a key. -/
def node (t : Token) (place : Cursor) (r : Reading) : Option Reading :=
  (r.remember?).map fun r => { r.push t with place, keyAllowed := false }

/-- A scalar that may be a key. -/
def flowScalar? (style : Style) (s : List Char × Cursor) (r : Reading) : Option Reading :=
  r.node (.scalar (String.ofList s.1) style) s.2

/-- The end of a block and its candidate, where a document or a directive starts. -/
def endDocument? (r : Reading) : Option Reading :=
  ((r.closeBlocks (-1)).forget?).map (·.allowKey false)

/-- A colon: the candidate of this level becomes a key. -/
def colon? (r : Reading) : Option Reading :=
  match r.candidates with
  | some k :: ks =>
    let r := { r with
      tokens := r.tokens.insertIdxIfInBounds k.count .key
      candidates := none :: ks
      keyAllowed := false }
    some ((r.openBlock k.place.column k.count .blockMapping).push .value |>.drop 1)
  | _ =>
    if r.inFlow then some (r.allowKey false |>.push .value |>.drop 1)
    else if r.keyAllowed then
      some ((r.openBlock r.column r.tokens.size .blockMapping).push .value |>.drop 1)
    else none

/-- The indicator of a key or of an entry of a sequence. -/
def blockIndicator? (start t : Token) (r : Reading) : Option Reading :=
  if r.inFlow then (r.forget?).map fun r => r.push t |>.drop 1
  else if r.keyAllowed then
    ((r.openBlock r.column r.tokens.size start).forget?).map fun r => r.push t |>.drop 1
  else none

def openFlow? (t : Token) (r : Reading) : Option Reading :=
  (r.remember?).map fun r =>
    { r.push t with
      flow := r.flow + 1, candidates := none :: r.candidates, keyAllowed := true } |>.drop 1

def closeFlow? (t : Token) (r : Reading) : Option Reading :=
  (r.forget?).map fun r =>
    { r.push t with
      flow := r.flow - 1
      candidates := if r.inFlow then r.candidates.drop 1 else r.candidates
      keyAllowed := false } |>.drop 1

/-- A plain scalar may start with these two characters. -/
def startsPlain (flow : Bool) : List Char → Bool
  | [] => false
  | x :: s =>
    !(isBreak x || isGap x || "-?:,[]\x7b\x7d#&*!|>'\"%@".toList.contains x || x == '\x60') ||
      (x == '-' && !s.head?.any isGap) || (!flow && (x == '?' || x == ':') && !endsWord s)

/-- The next token at a place where no white space stands.  `false` behind the last one. -/
def token? (r : Reading) : Option (Bool × Reading) :=
  let c := r.place
  let flow := r.inFlow
  let more (r : Option Reading) := r.map (true, ·)
  match c.rest with
  | [] => ((r.closeBlocks (-1)).forget?).map fun r => (false, r.push .streamEnd)
  | x :: s =>
    if c.column == 0 && x == '%' then more do
      let r ← r.endDocument?
      let (t, place) ← directive? c.skip
      return { r.push t with place }
    else if c.isMarker '-' then
      more ((r.endDocument?).map fun r => r.push .documentStart |>.drop 3)
    else if c.isMarker '.' then
      more ((r.endDocument?).map fun r => r.push .documentEnd |>.drop 3)
    else if x == '[' then more (r.openFlow? .flowSequence)
    else if x == '\x7b' then more (r.openFlow? .flowMapping)
    else if x == ']' then more (r.closeFlow? .flowSequenceEnd)
    else if x == '\x7d' then more (r.closeFlow? .flowMappingEnd)
    else if x == ',' then
      more ((r.forget?).map fun r => (r.allowKey true).push .comma |>.drop 1)
    else if x == '-' && endsWord s then
      more ((r.blockIndicator? .blockSequence .entry).map (·.allowKey true))
    else if x == '?' && (flow || endsWord s) then
      more ((r.blockIndicator? .blockMapping .key).map (·.allowKey !flow))
    else if x == ':' && (flow || endsWord s) then more r.colon?
    else if x == '*' then
      more ((anchorName? c.skip).bind fun (name, c) => r.node (.alias name) c)
    else if x == '&' then
      more ((anchorName? c.skip).bind fun (name, c) => r.node (.anchor name) c)
    else if x == '!' then more ((tag? flow c).bind fun (t, c) => r.node t c)
    else if (x == '|' || x == '>') && !flow then more do
      let r ← r.forget?
      let (s, place) ← block? (x == '>') r.indent c
      let style := if x == '>' then Style.folded else .literal
      return { r.push (.scalar (String.ofList s) style) with place, keyAllowed := true }
    else if x == '\'' then
      more ((quoted? true c).bind (r.flowScalar? .singleQuoted))
    else if x == '"' then
      more ((quoted? false c).bind (r.flowScalar? .doubleQuoted))
    else if startsPlain flow c.rest then more do
      let (s, place, broken) ← plain? flow (r.indent + 1).toNat c
      let r ← r.flowScalar? .plain (s, place)
      return if broken then r.allowKey true else r
    else none

/-- White space, and the token behind it. -/
def next? (r : Reading) : Option (Bool × Reading) :=
  match r.passSpace.lapse? with
  | some r => (r.closeBlocks r.column).token?
  | none => none

def tokensFrom? : Nat → Reading → Option (Array Token)
  | 0, _ => none
  | fuel + 1, r =>
    match r.next? with
    | none => none
    | some (false, r) => some r.tokens
    | some (true, r) => tokensFrom? fuel r

end Reading

/-- The tokens of a text. -/
def tokens? (text : List Char) : Option (List Token) :=
  if text.all isAllowed then
    (Reading.tokensFrom? (text.length + 1) { place := { rest := text } }).map (·.toList)
  else none

end YamlQuery.Yaml

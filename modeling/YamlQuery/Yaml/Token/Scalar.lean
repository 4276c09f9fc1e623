import YamlQuery.Text.Digits
import YamlQuery.Yaml.Cursor

/-!
# Yaml.Token.Scalar — the text of scalars

Each reader starts at the first character of a scalar and gives its text and the place behind it.

Within a quoted or plain scalar, white space with a line break in it is folded: one break becomes a
space, of several all but the first stay.  Without a break it stays as it is.  A block scalar keeps
its breaks (literal) or folds single breaks between lines that do not start with white space
(folded); its header says what becomes of the breaks at its end.
-/

namespace YamlQuery.Yaml

open YamlQuery.Text

/-! ### White space inside a scalar -/

/-- White space inside a scalar: the spaces before its first line break, this break and the others
as text, and whether a line ends in it. -/
structure Gap where
  spaces : List Char := []
  first : List Char := []
  others : List Char := []
  broken : Bool := false

/-- The folded text of white space. -/
def Gap.text (g : Gap) : List Char :=
  if g.broken then
    if g.first == ['\n'] then
      if g.others.isEmpty then [' '] else g.others
    else g.first ++ g.others
  else g.spaces

/-- The white space from here on.  With `indent`, a tab before that column of a line is an error. -/
def gapFrom? (indent : Option Nat) : Nat → Gap → Cursor → Option (Gap × Cursor)
  | 0, _, _ => none
  | fuel + 1, g, c =>
    match c.rest with
    | [] => some (g, c)
    | x :: _ =>
      if isGap x then
        if g.broken && x == '\t' && indent.any (c.column < ·) then none
        else
          gapFrom? indent fuel (if g.broken then g else { g with spaces := g.spaces ++ [x] })
            c.skip
      else if isBreak x then
        let (b, c) := c.takeBreak
        if g.broken then gapFrom? indent fuel { g with others := g.others ++ b } c
        else gapFrom? indent fuel { g with spaces := [], first := b, broken := true } c
      else some (g, c)

/-- The white space from here on. -/
def gap? (indent : Option Nat) (g : Gap) (c : Cursor) : Option (Gap × Cursor) :=
  gapFrom? indent (c.rest.length + 1) g c

/-! ### Quoted scalars -/

/-- The character of an escape with one letter. -/
def shortEscape? : Char → Option Char
  | '0' => some '\x00'
  | 'a' => some '\x07'
  | 'b' => some '\x08'
  | 't' => some '\t'
  | '\t' => some '\t'
  | 'n' => some '\n'
  | 'v' => some '\x0b'
  | 'f' => some '\x0c'
  | 'r' => some '\r'
  | 'e' => some '\x1b'
  | ' ' => some ' '
  | '"' => some '"'
  | '/' => some '/'
  | '\\' => some '\\'
  | 'N' => some '\x85'
  | '_' => some '\xa0'
  | 'L' => some '\u2028'
  | 'P' => some '\u2029'
  | _ => none

/-- How many hexadecimal digits follow the letter of an escape. -/
def escapeWidth? : Char → Option Nat
  | 'x' => some 2
  | 'u' => some 4
  | 'U' => some 8
  | _ => none

/-- The character of the escape behind a backslash, and how many characters it takes. -/
def escape? : List Char → Option (Char × Nat)
  | [] => none
  | x :: s =>
    match escapeWidth? x with
    | none => (shortEscape? x).map (·, 1)
    | some width =>
      if (s.take width).length < width then none
      else
        match natOf? 16 (s.take width) with
        | some n => if n.isValidChar then some (Char.ofNat n, width + 1) else none
        | none => none

/-- What stands in a quoted scalar up to white space or its closing quote, and whether a backslash
at the end of a line ended it. -/
def quotedRun? (single : Bool) : Nat → Cursor → Option (List Char × Bool × Cursor)
  | 0, _ => none
  | fuel + 1, c =>
    let more (x : Char) (n : Nat) :=
      (quotedRun? single fuel (c.drop n)).map fun (s, broken, c) => (x :: s, broken, c)
    match c.rest with
    | [] => some ([], false, c)
    | '\'' :: rest =>
      if single then
        match rest with
        | '\'' :: _ => more '\'' 2
        | _ => some ([], false, c)
      else more '\'' 1
    | '"' :: _ => if single then more '"' 1 else some ([], false, c)
    | '\\' :: rest =>
      if single then more '\\' 1
      else if !rest.isEmpty && endsLine rest then some ([], true, c.skip.passBreak)
      else
        match escape? rest with
        | some (x, n) => more x (n + 1)
        | none => none
    | x :: _ => if isBreak x || isGap x then some ([], false, c) else more x 1

/-- A quoted scalar behind its opening quote. -/
def quotedFrom? (single : Bool) : Nat → Cursor → Option (List Char × Cursor)
  | 0, _ => none
  | fuel + 1, c =>
    if c.isDocumentMarker || c.rest.isEmpty then none
    else
      match quotedRun? single (c.rest.length + 1) c with
      | none => none
      | some (s, broken, c) =>
        if c.isAt 0 (if single then '\'' else '"') then some (s, c.skip)
        else
          match gap? none { broken } c with
          | none => none
          | some (g, c) => (quotedFrom? single fuel c).map fun (t, c) => (s ++ g.text ++ t, c)

/-- A quoted scalar from its opening quote on. -/
def quoted? (single : Bool) (c : Cursor) : Option (List Char × Cursor) :=
  quotedFrom? single (c.rest.length + 1) c.skip

/-! ### Plain scalars -/

/-- The characters that end a plain scalar in a flow collection. -/
def isFlowIndicator (c : Char) : Bool :=
  c == ',' || c == '[' || c == ']' || c == '\x7b' || c == '\x7d'

/-- What stands in a plain scalar up to white space or its end. -/
def plainRun? (flow : Bool) : List Char → Option (List Char)
  | [] => some []
  | x :: s =>
    if isBreak x || isGap x then some []
    else if flow && x == ':' && s.head?.any (fun y => y == '?' || isFlowIndicator y) then none
    else if (x == ':' && endsWord s) || (flow && isFlowIndicator x) then some []
    else (plainRun? flow s).map (x :: ·)

/-- A plain scalar: its text behind the white space `g`, the place behind it and the white space
that follows it, and whether a line ended there. -/
def plainFrom? (flow : Bool) (indent : Nat) :
    Nat → Gap → Cursor → Option (List Char × Cursor × Bool)
  | 0, _, _ => none
  | fuel + 1, g, c =>
    if c.isDocumentMarker || c.isAt 0 '#' then some ([], c, g.broken)
    else
      match plainRun? flow c.rest with
      | none => none
      | some s =>
        let next := c.drop s.length
        let text := if s.isEmpty then [] else g.text ++ s
        let pending : Gap := if s.isEmpty then g else {}
        if next.rest.isEmpty || !endsWord next.rest then some (text, next, pending.broken)
        else
          match gap? (some indent) pending next with
          | none => none
          | some (g, c) =>
            if !flow && c.column < indent then some (text, c, g.broken)
            else (plainFrom? flow indent fuel g c).map fun (t, r) => (text ++ t, r)

/-- A plain scalar that stands in a block of the given column. -/
def plain? (flow : Bool) (indent : Nat) (c : Cursor) : Option (List Char × Cursor × Bool) :=
  plainFrom? flow indent (c.rest.length + 1) {} c

/-! ### Block scalars -/

/-- What becomes of the line breaks at the end of a block scalar. -/
inductive Chomp
  | strip
  | clip
  | keep
deriving DecidableEq

def chomp? : Char → Option Chomp
  | '+' => some .keep
  | '-' => some .strip
  | _ => none

/-- The header of a block scalar behind its first character: what becomes of the breaks at its end,
and how many columns it is indented (zero: as its first line is). -/
def blockHeader? (c : Cursor) : Option (Chomp × Nat × Cursor) :=
  let digit? (c : Cursor) : Option (Nat × Cursor) :=
    match c.rest with
    | x :: _ =>
      match digitOf? 10 x with
      | some 0 => none
      | some n => some (n, c.skip)
      | none => some (0, c)
    | [] => some (0, c)
  match c.rest.head?.bind chomp? with
  | some chomp => (digit? c.skip).map fun (n, c) => (chomp, n, c)
  | none =>
    match digit? c with
    | none => none
    | some (0, c) => some (.clip, 0, c)
    | some (n, c) =>
      match c.rest.head?.bind chomp? with
      | some chomp => some (chomp, n, c.skip)
      | none => some (.clip, n, c)

/-- Behind the white space and the comment that may follow on a line, which must end there. -/
def restOfLine? (c : Cursor) : Option Cursor :=
  let c := (c.dropWhile isGap).passComment
  if endsLine c.rest then some c.passBreak else none

/-- The empty lines from here on and the indentation of the next line, as far as `indent` columns
(zero: as far as there are spaces): the breaks, the widest indentation and the place behind. -/
def blockBreaks? (indent : Nat) : Nat → Nat → Cursor → Option (List Char × Nat × Cursor)
  | 0, _, _ => none
  | fuel + 1, widest, c =>
    let spaces := (c.rest.takeWhile (· == ' ')).length
    let c := c.drop (if indent = 0 then spaces else min spaces (indent - c.column))
    let widest := max widest c.column
    if (indent = 0 || c.column < indent) && c.isAt 0 '\t' then none
    else
      let (b, next) := c.takeBreak
      if b.isEmpty then some ([], widest, c)
      else (blockBreaks? indent fuel widest next).map fun (bs, r) => (b ++ bs, r)

/-- The lines of a block scalar.  `first` is the break that ended the line before and `others` the
empty lines behind it; `spaced` says that this line started with white space. -/
def blockLines? (folded : Bool) (indent : Nat) :
    Nat → List Char → List Char → Bool → Cursor →
      Option (List Char × List Char × List Char × Cursor)
  | 0, _, _, _, _ => none
  | fuel + 1, first, others, spaced, c =>
    if c.column == indent && !c.rest.isEmpty then
      let startsSpaced := c.rest.head?.any isGap
      let joint :=
        if folded && first == ['\n'] && !spaced && !startsSpaced then
          (if others.isEmpty then [' '] else []) ++ others
        else first ++ others
      let (line, c) := c.takeWhile (! isBreak ·)
      let (first, c) := c.takeBreak
      match blockBreaks? indent (c.rest.length + 1) 0 c with
      | none => none
      | some (others, _, c) =>
        (blockLines? folded indent fuel first others startsSpaced c).map fun (t, r) =>
          (joint ++ line ++ t, r)
    else some ([], first, others, c)

/-- A block scalar from its first character on; `parent` is the column of the block around it. -/
def block? (folded : Bool) (parent : Int) (c : Cursor) : Option (List Char × Cursor) :=
  match blockHeader? c.skip with
  | none => none
  | some (chomp, increment, c) =>
    match restOfLine? c with
    | none => none
    | some c =>
      let given := if increment = 0 then 0 else (max parent 0).toNat + increment
      match blockBreaks? given (c.rest.length + 1) 0 c with
      | none => none
      | some (others, widest, c) =>
        let indent := if given = 0 then max (max widest (parent + 1).toNat) 1 else given
        match blockLines? folded indent (c.rest.length + 1) [] others false c with
        | none => none
        | some (text, first, others, c) =>
          some (text ++ (if chomp = .strip then [] else first) ++
            (if chomp = .keep then others else []), c)

end YamlQuery.Yaml

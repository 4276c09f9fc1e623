import YamlQuery.Text.Split

/-!
# Yaml.Cursor — a place in a YAML text

A cursor is the rest of the text with the number of characters before it, its line and its column.
`Cursor.skip` passes one character and `Cursor.passBreak` one line break; only the latter starts a
new line.  A carriage return and a line feed together are one break.  Line breaks read as text are
line feeds, except the separators U+2028 and U+2029, which stay what they are.
-/

namespace YamlQuery.Yaml

/-! ### Characters -/

/-- The characters that end a line. -/
def isBreak (c : Char) : Bool :=
  c == '\n' || c == '\r' || c == '\x85' || c == '\u2028' || c == '\u2029'

/-- A space or a tab. -/
def isGap (c : Char) : Bool := c == ' ' || c == '\t'

/-- A letter, a digit, `_` or `-`: the characters of anchors and tag handles. -/
def isWordChar (c : Char) : Bool := c.isAlphanum || c == '_' || c == '-'

/-- The characters that may stand in a YAML text. -/
def isAllowed (c : Char) : Bool :=
  let n := c.toNat
  n == 9 || n == 10 || n == 13 || (0x20 ≤ n && n ≤ 0x7E) || n == 0x85 ||
    (0xA0 ≤ n && n ≤ 0xD7FF) || (0xE000 ≤ n && n ≤ 0xFFFD) || 0x10000 ≤ n

/-- The text ends here or goes on with a character that ends a line. -/
def endsLine : List Char → Bool
  | [] => true
  | c :: _ => isBreak c

/-- The text ends here or goes on with white space. -/
def endsWord : List Char → Bool
  | [] => true
  | c :: _ => isBreak c || isGap c

/-- A place in a text. -/
structure Cursor where
  rest : List Char
  index : Nat := 0
  line : Nat := 0
  column : Nat := 0
deriving Repr

namespace Cursor

/-- Behind the next `n` characters, all on this line. -/
def drop (n : Nat) (c : Cursor) : Cursor :=
  { c with rest := c.rest.drop n, index := c.index + n, column := c.column + n }

/-- Behind the next character. -/
def skip (c : Cursor) : Cursor := c.drop 1

/-- The characters from here on that have `p`, which line breaks have not, and the place behind
them. -/
def takeWhile (p : Char → Bool) (c : Cursor) : List Char × Cursor :=
  let taken := c.rest.takeWhile p
  (taken, c.drop taken.length)

/-- Behind the characters that have `p`, which line breaks have not. -/
def dropWhile (p : Char → Bool) (c : Cursor) : Cursor := (c.takeWhile p).2

/-- The line break that stands here, as text, and the start of the next line.  Elsewhere no text,
and the same place. -/
def takeBreak (c : Cursor) : List Char × Cursor :=
  let next (n : Nat) (rest : List Char) : Cursor :=
    { rest, index := c.index + n, line := c.line + 1, column := 0 }
  match c.rest with
  | '\r' :: '\n' :: rest => (['\n'], next 2 rest)
  | b :: rest =>
    if isBreak b then ([if b == '\u2028' || b == '\u2029' then b else '\n'], next 1 rest)
    else ([], c)
  | [] => ([], c)

/-- Behind the line break that stands here, if there is one. -/
def passBreak (c : Cursor) : Cursor := c.takeBreak.2

/-- Behind a comment, if one starts here. -/
def passComment (c : Cursor) : Cursor :=
  match c.rest with
  | '#' :: _ => c.dropWhile (! isBreak ·)
  | _ => c

/-- The character `n` places on is `x`. -/
def isAt (n : Nat) (x : Char) (c : Cursor) : Bool := c.rest[n]? == some x

/-- A line starts here with three such characters, and with no others before the next space. -/
def isMarker (x : Char) (c : Cursor) : Bool :=
  match c.rest with
  | a :: b :: d :: rest => c.column == 0 && a == x && b == x && d == x && endsWord rest
  | _ => false

/-- A line starts here with `---` or `...`. -/
def isDocumentMarker (c : Cursor) : Bool := c.isMarker '-' || c.isMarker '.'

end Cursor

end YamlQuery.Yaml

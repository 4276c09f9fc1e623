import YamlQuery.Text.Digits
import YamlQuery.Yaml.Cursor

/-!
# Yaml.Pen — YAML text as it is written

A pen holds the text so far and what the next indicator has to know about it: the column, whether
white space stands before it, and whether nothing but indentation and indicators stands on its line.

Scalars are written here in the four styles.  `Shape` collects which characters a text has; it
decides which styles can hold the text.
-/

namespace YamlQuery.Yaml

open YamlQuery.Text

structure Pen where
  text : String := ""
  column : Nat := 0
  blank : Bool := true
  fresh : Bool := true

namespace Pen

/-- One character more on the line. -/
def put (c : Char) (p : Pen) : Pen := { p with text := p.text.push c, column := p.column + 1 }

def newline (p : Pen) : Pen := { p with text := p.text.push '\n', column := 0 }

/-- A line break of a scalar. -/
def break_ (c : Char) (p : Pen) : Pen := { p with text := p.text.push c, column := 0 }

/-- The column `indent` of a line that holds nothing else yet. -/
def indent (n : Nat) (p : Pen) : Pen :=
  let p := if !p.fresh || n < p.column || (p.column == n && !p.blank) then p.newline else p
  { p with
    text := p.text ++ "".pushn ' ' (n - p.column), column := max p.column n,
    blank := true, fresh := true }

/-- An indicator, behind white space if it needs some. -/
def mark (s : String) (spaced : Bool) (p : Pen) : Pen :=
  let p := if spaced && !p.blank then p.put ' ' else p
  { p with text := p.text ++ s, column := p.column + s.length, blank := false, fresh := false }

/-- The indicator of an entry, behind which a collection may start on the same line. -/
def markEntry (s : String) (p : Pen) : Pen := { p.mark s true with fresh := p.fresh }

/-! ### Which styles hold a text -/

/-- The characters that may be written as they are. -/
def isPrintable (c : Char) : Bool :=
  let n := c.toNat
  n == 10 || (0x20 ≤ n && n ≤ 0x7E) || (0xA0 ≤ n && n != 0xFEFF && n != 0xFFFE && n != 0xFFFF)

/-- A line starts with an indicator where this text starts. -/
def startsIndicated (s : List Char) : Bool :=
  match s with
  | '-' :: '-' :: '-' :: _ => true
  | '.' :: '.' :: '.' :: _ => true
  | c :: s =>
    "#,[]\x7b\x7d&*!|>'\"%@".toList.contains c || c == '\x60' ||
      ((c == '?' || c == ':' || c == '-') && endsWord s)
  | [] => false

/-- A colon before white space, or a number sign behind it; `c` is the character before. -/
def hasIndicator : Char → List Char → Bool
  | _, [] => false
  | before, c :: s =>
    (c == ':' && endsWord s) || (c == '#' && (isBreak before || isGap before)) || hasIndicator c s

/-- A character with `p` is followed by one with `q`. -/
def hasPair (p q : Char → Bool) : List Char → Bool
  | a :: b :: s => (p a && q b) || hasPair p q (b :: s)
  | _ => false

/-- What a text has that some styles cannot hold. -/
structure Shape where
  indicated : Bool
  special : Bool
  broken : Bool
  outerSpace : Bool
  trailingSpace : Bool
  breakSpace : Bool
  spaceBreak : Bool

def isSpace (c : Char) : Bool := c == ' '

def shape (s : List Char) : Shape where
  indicated :=
    startsIndicated s ||
      match s with
      | c :: s => hasIndicator c s
      | [] => false
  special := s.any (! isPrintable ·)
  broken := s.any isBreak
  outerSpace :=
    let blank (c : Char) : Bool := isSpace c || isBreak c
    s.head?.any blank || s.getLast?.any blank
  trailingSpace := s.getLast?.any isSpace
  breakSpace := hasPair isBreak isSpace s
  spaceBreak := hasPair isSpace isBreak s

def Shape.plain (x : Shape) : Bool :=
  !(x.indicated || x.special || x.broken || x.outerSpace)

def Shape.singleQuoted (x : Shape) : Bool := !(x.breakSpace || x.spaceBreak || x.special)

def Shape.block (x : Shape) : Bool := !(x.trailingSpace || x.spaceBreak || x.special)

/-! ### Scalars -/

/-- A text as it is.  Behind a line break the next line is indented. -/
def lines (quote : Bool) (n : Nat) : Bool → Pen → List Char → Pen × Bool
  | broken, p, [] => (p, broken)
  | broken, p, c :: s =>
    if isBreak c then lines quote n true { p.break_ c with fresh := true } s
    else if quote && c == ' ' then lines quote n broken (p.put c) s
    else
      let p := if broken then p.indent n else p
      let p := if quote && c == '\'' then p.put '\'' else p
      lines quote n false { p.put c with fresh := false } s

def plain (s : List Char) (p : Pen) : Pen :=
  let p := if !p.blank && !s.isEmpty then p.put ' ' else p
  { s.foldl (fun p c => p.put c) p with blank := false, fresh := false }

def singleQuoted (n : Nat) (s : List Char) (p : Pen) : Pen :=
  let (p, broken) := lines true n false (p.mark "'" true) s
  (if broken then p.indent n else p).mark "'" false

/-- A character in double quotes. -/
def escape (c : Char) : List Char :=
  match c with
  | '\x00' => ['\\', '0']
  | '\x07' => ['\\', 'a']
  | '\x08' => ['\\', 'b']
  | '\t' => ['\\', 't']
  | '\n' => ['\\', 'n']
  | '\x0b' => ['\\', 'v']
  | '\x0c' => ['\\', 'f']
  | '\r' => ['\\', 'r']
  | '\x1b' => ['\\', 'e']
  | '"' => ['\\', '"']
  | '\\' => ['\\', '\\']
  | '\x85' => ['\\', 'N']
  | '\u2028' => ['\\', 'L']
  | '\u2029' => ['\\', 'P']
  | c =>
    let n := c.toNat
    if isPrintable c then [c]
    else if n ≤ 0xFF then ['\\', 'x'] ++ hex true 2 n
    else if n ≤ 0xFFFF then ['\\', 'u'] ++ hex true 4 n
    else ['\\', 'U'] ++ hex true 8 n

def doubleQuoted (s : List Char) (p : Pen) : Pen :=
  (s.flatMap escape).foldl (fun p c => p.put c) (p.mark "\"" true) |>.mark "\"" false

/-- What becomes of the breaks at the end of a text. -/
def chompMark (s : List Char) : String :=
  match s.reverse with
  | [] => "-"
  | c :: s =>
    if !isBreak c then "-" else if s.isEmpty || s.head?.any isBreak then "+" else ""

def literal (n : Nat) (s : List Char) (p : Pen) : Pen :=
  let p := p.mark "|" true
  let p := if s.head?.any (fun c => isSpace c || isBreak c) then p.mark "2" false else p
  let p := { (p.mark (chompMark s) false).newline with fresh := true, blank := true }
  (lines false n true p s).1

end Pen

end YamlQuery.Yaml

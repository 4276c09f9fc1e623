import YamlQuery.Text.Split

/-!
# Command.Words — the words of a command line

Words stand between blanks, tabs and line feeds.  A word may hold quoted parts: between single
quotes every character stands for itself; between double quotes a backslash makes `$`, a backquote,
a double quote or a backslash stand for itself and joins lines.  Outside of quotes a backslash does
that to any character.  A `#` at the start of a word starts a comment up to the end of the line.
-/

namespace YamlQuery.Command

namespace Words

/-- Where in a line a character stands: between words, in a word, between quotes, behind a backslash
in one of these places, or in a comment. -/
inductive Place
  | gap
  | gapEscape
  | word
  | wordEscape
  | single
  | double
  | doubleEscape
  | comment
deriving DecidableEq

/-- A character that ends a word. -/
def isGap (c : Char) : Bool := c == ' ' || c == '\t' || c == '\n'

/-- A character that a backslash makes stand for itself between double quotes. -/
def isEscapable (c : Char) : Bool := c == '$' || c == '\x60' || c == '"' || c == '\\'

/-- The place behind a character, and what the character adds to the word it is in. -/
def Place.next : Place → Char → Place × List Char
  | .gap, c =>
    if c = '\'' then (.single, [])
    else if c = '"' then (.double, [])
    else if c = '\\' then (.gapEscape, [])
    else if isGap c then (.gap, [])
    else if c = '#' then (.comment, [])
    else (.word, [c])
  | .gapEscape, c => if c = '\n' then (.gap, []) else (.word, [c])
  | .word, c =>
    if c = '\'' then (.single, [])
    else if c = '"' then (.double, [])
    else if c = '\\' then (.wordEscape, [])
    else if isGap c then (.gap, [])
    else (.word, [c])
  | .wordEscape, c => if c = '\n' then (.word, []) else (.word, [c])
  | .single, c => if c = '\'' then (.word, []) else (.single, [c])
  | .double, c =>
    if c = '"' then (.word, [])
    else if c = '\\' then (.doubleEscape, [])
    else (.double, [c])
  | .doubleEscape, c =>
    if c = '\n' then (.double, [])
    else if isEscapable c then (.double, [c])
    else (.double, ['\\', c])
  | .comment, c => if c = '\n' then (.gap, []) else (.comment, [])

/-- The words at the end of a line: none between words, the rest of one in a word, and a failure
between quotes. -/
def atEnd? : Place → Option (List (List Char))
  | .gap | .comment => some []
  | .word => some [[]]
  | .gapEscape | .wordEscape => some [['\\']]
  | .single | .double | .doubleEscape => none

/-- Puts characters in front of the first word. -/
def prepend (cs : List Char) (ws : List (List Char)) : List (List Char) :=
  cs.foldr Text.consHead ws

/-- The words from a place on; in a word, the first of them is the rest of that. -/
def readFrom? (p : Place) : List Char → Option (List (List Char))
  | [] => atEnd? p
  | c :: s =>
    let (q, cs) := p.next c
    (readFrom? q s).map fun ws => if p = .word ∧ q = .gap then [] :: ws else prepend cs ws

end Words

/-- The words of a line, unless a quote is left open. -/
def words? (line : List Char) : Option (List (List Char)) := Words.readFrom? .gap line

end YamlQuery.Command

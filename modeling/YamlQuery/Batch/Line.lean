import YamlQuery.Text.Split

/-!
# Batch.Line — the lines of a script

A line that starts with `#`, `//` or `--` is a comment.  Further on, `#` and `//` start a comment
behind a blank, but not inside a quoted word; a quote opens only at the start of a word, and a
backslash hides the character behind it only between double quotes.
-/

namespace YamlQuery.Batch

/-- Where in a line a character stands: in a word, behind a blank, between quotes, or behind a
backslash between double quotes. -/
inductive Position
  | word
  | gap
  | quoted (mark : Char)
  | hidden
deriving DecidableEq

/-- The position behind a character. -/
def Position.next : Position → Char → Position
  | .hidden, _ => .quoted '"'
  | .quoted q, c => if c = q then .word else if c = '\\' ∧ q = '"' then .hidden else .quoted q
  | .gap, c => if c = '\'' ∨ c = '"' then .quoted c else if Text.isBlank c then .gap else .word
  | .word, c => if Text.isBlank c then .gap else .word

/-- The text starts with the mark of a comment. -/
def startsComment : List Char → Bool
  | '#' :: _ => true
  | '/' :: '/' :: _ => true
  | _ => false

/-- The text up to a comment. -/
def uncommented : Position → List Char → List Char
  | _, [] => []
  | p, c :: s => if p = .gap && startsComment (c :: s) then [] else c :: uncommented (p.next c) s

/-- The line is a comment as a whole, or empty. -/
def isCommentLine : List Char → Bool
  | [] => true
  | '-' :: '-' :: _ => true
  | s => startsComment s

/-- What a line holds besides blanks at its ends and comments, if it holds anything. -/
def content? (raw : List Char) : Option (List Char) :=
  let line := Text.trim raw
  if isCommentLine line then none else some (Text.trimEnd (uncommented .word line))

/-- The first word of a text, with small letters. -/
def keyword (content : List Char) : List Char :=
  Text.lower ((Text.trimStart content).takeWhile (! Text.isBlank ·))

/-- A line of a script that holds a statement: its number, counted from one, the line as written and
what it holds. -/
structure Line where
  number : Nat
  text : String
  content : String
deriving DecidableEq

/-- The first word of the statement, with small letters. -/
def Line.keyword (l : Line) : List Char := Batch.keyword l.content.toList

/-- The lines with statements among the lines of a text, the first of which has a number. -/
def Line.ofTexts (number : Nat) : List (List Char) → List Line
  | [] => []
  | raw :: rest =>
    match content? raw with
    | some content =>
      ⟨number, String.ofList (Text.trimEnd raw), String.ofList content⟩ ::
        ofTexts (number + 1) rest
    | none => ofTexts (number + 1) rest

end YamlQuery.Batch

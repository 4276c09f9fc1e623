import YamlQuery.Document.Entries
import YamlQuery.Text.Split

/-!
# Properties — named texts, one to a line

A text of properties has an entry on each line, a key and a value with `=` or `:` between them; a
line without either is a key with an empty value.  Blank lines and lines that start with `#` or `!`
are skipped.  A line that ends in an odd number of backslashes goes on with the next line, without
the last of them; a text that ends within such a line has no entry for it.
-/

namespace YamlQuery

/-- Named texts, in the order in which the names came in. -/
abbrev Properties := Entries String

namespace Properties

/-- A line without an entry: it is blank or a comment. -/
def isSkipped : List Char → Bool
  | [] => true
  | c :: _ => c == '#' || c == '!'

/-- The line goes on with the next one. -/
def isContinued (line : List Char) : Bool :=
  (line.reverse.takeWhile (· == '\\')).length % 2 == 1

/-- The lines that result from joining continued lines, the first of them to a start. -/
def joinedLines (start : List Char) : List (List Char) → List (List Char)
  | [] => []
  | raw :: rest =>
    let line := Text.trimStart raw
    if start.isEmpty && isSkipped line then joinedLines [] rest
    else if isContinued line then joinedLines (start ++ line.dropLast) rest
    else (start ++ line) :: joinedLines [] rest

/-- The key and the value of a line, blanks at the ends of both removed. -/
def entry (line : List Char) : String × String :=
  match Text.cutAt (fun c => c == '=' || c == ':') line with
  | some (key, value) => (String.ofList (Text.trim key), String.ofList (Text.trim value))
  | none => (String.ofList (Text.trim line), "")

/-- Enters the key and the value of a line, if the key is not empty. -/
def enter (ps : Properties) (line : List Char) : Properties :=
  let (key, value) := entry line
  if key.isEmpty then ps else ps.put key value

/-- The properties that a text writes. -/
def parse (text : String) : Properties :=
  (joinedLines [] (Text.lines text.toList)).foldl enter []

/-- The scalars of a mapping as properties. -/
def ofScalars {α : Type} (text? : α → Option String) (es : Entries α) : Properties :=
  es.filterMap fun (key, value) => (text? value).map (key, ·)

end Properties

end YamlQuery

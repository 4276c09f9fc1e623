import YamlQuery.Pattern.Read
import YamlQuery.Text.Split

/-!
# KeyPath — paths of patterns for keys

A path is a text of segments with a delimiter between them.  A segment is a pattern that a whole key
has to match; the segment `*` matches every key of one line.  The cursor of a path says how many
segments have been used.

`Segment.literal?` is the one key that a segment without any pattern characters stands for.
-/

namespace YamlQuery

/-- A segment of a path: its text and the pattern that keys are matched with. -/
structure Segment where
  raw : String
  pattern : Re

namespace Segment

/-- The pattern text of a segment: all of a key has to match. -/
def patternText (raw : List Char) : List Char :=
  "^(?:".toList ++ (if raw = ['*'] then ".*".toList else raw) ++ ")$".toList

/-- The segment that a text writes. -/
def ofText? (raw : List Char) (engine : Pattern.Engine := .standard) : Option Segment :=
  (Pattern.read? (patternText raw) engine).map fun r => ⟨String.ofList raw, r⟩

/-- A key matches the segment. -/
def isMatch (s : Segment) (key : String) : Bool := s.pattern.isMatch key.toList

/-- The characters with a meaning of their own in patterns. -/
def isPatternChar (c : Char) : Bool := ".^$*+?()[]\x7b\x7d|".toList.contains c

/-- An ASCII character that is no letter, no digit, no space and no control character. -/
def isPunctuation (c : Char) : Bool := '!' ≤ c && c ≤ '~' && !c.isAlphanum

/-- The characters of a segment without pattern characters; a backslash before punctuation is
dropped. -/
def literalChars? : List Char → Option (List Char)
  | [] => some []
  | '\\' :: c :: s => if isPunctuation c then (literalChars? s).map (c :: ·) else none
  | c :: s => if c == '\\' || isPatternChar c then none else (literalChars? s).map (c :: ·)

/-- The key that a segment without pattern characters stands for. -/
def literal? (s : Segment) : Option String := (literalChars? s.raw.toList).map String.ofList

end Segment

/-- A path, with a cursor among its segments. -/
structure KeyPath where
  text : String
  delimiter : String
  segments : List Segment
  cursor : Nat := 0

/-- Why a text is no path. -/
inductive PathError
  | emptyPath
  | emptyDelimiter
  | invalidSegment (segment : String) (position : Nat)
deriving DecidableEq

namespace PathError

/-- The message of an error, that of a faulty pattern without its reason. -/
def message : PathError → String
  | .emptyPath => "YAML-path is empty"
  | .emptyDelimiter => "YAML-path delimiter must not be empty"
  | .invalidSegment s n => s!"Invalid YAML-path segment '{s}' at position {n}"

end PathError

namespace KeyPath

/-- The delimiter of a path for which none is given. -/
def defaultDelimiter : String := "."

/-- The segments with these texts, the first of them at a position. -/
def segmentsFrom (engine : Pattern.Engine) (position : Nat) :
    List (List Char) → Except PathError (List Segment)
  | [] => .ok []
  | raw :: raws =>
    match Segment.ofText? raw engine with
    | some s =>
      match segmentsFrom engine (position + 1) raws with
      | .ok ss => .ok (s :: ss)
      | .error e => .error e
    | none => .error (.invalidSegment (String.ofList raw) position)

/-- The path that a text writes. -/
def parse (text delimiter : String) (engine : Pattern.Engine := .standard) :
    Except PathError KeyPath :=
  let s := Text.trim text.toList
  if delimiter.isEmpty then .error .emptyDelimiter
  else if s.isEmpty then .error .emptyPath
  else
    match segmentsFrom engine 0 (Text.splitOn delimiter.toList s) with
    | .ok segments => .ok { text := String.ofList s, delimiter, segments }
    | .error e => .error e

/-! ### The cursor -/

def length (p : KeyPath) : Nat := p.segments.length

/-- There is a segment at the cursor. -/
def hasNext (p : KeyPath) : Bool := p.cursor < p.length

/-- The segment at the cursor. -/
def current? (p : KeyPath) : Option Segment := p.segments[p.cursor]?

/-- The path with the cursor behind the current segment, if there is one. -/
def advanced (p : KeyPath) : KeyPath := if p.hasNext then { p with cursor := p.cursor + 1 } else p

/-- A key matches the current segment. -/
def isMatch (p : KeyPath) (key : String) : Bool := p.current?.any (·.isMatch key)

/-- The texts of segments with the delimiter between them. -/
def joined (p : KeyPath) (segments : List Segment) : String :=
  Text.joined p.delimiter (segments.map (·.raw))

/-- The segments before the cursor, as text. -/
def before (p : KeyPath) : String := p.joined (p.segments.take p.cursor)

/-- The segments behind the current one, as text. -/
def behind (p : KeyPath) : String := p.joined (p.segments.drop (p.cursor + 1))

/-- The segments from the cursor on. -/
def remaining (p : KeyPath) : List Segment := p.segments.drop p.cursor

/-- Two paths have the same cursor and the same segments, whatever their delimiters. -/
def equivalent (p q : KeyPath) : Bool :=
  p.cursor == q.cursor && p.segments.map (·.raw) == q.segments.map (·.raw)

/-- Keys with the delimiter of the path between them. -/
def joinKeys (p : KeyPath) (keys : List String) : String := Text.joined p.delimiter keys

end KeyPath

end YamlQuery

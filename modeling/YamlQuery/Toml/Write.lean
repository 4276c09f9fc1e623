import YamlQuery.Text.Digits
import YamlQuery.Toml.Basic

/-!
# Toml.Write — values as TOML text

A string is written in the first of these ways that can hold it: between double quotes without any
escape, between single quotes, between three double quotes without any escape, between three single
quotes, or with escapes, between three double quotes if it has several lines.
-/

namespace YamlQuery.Toml

/-- A character that can only be written as an escape. -/
def needsEscape (c : Char) : Bool := (c ≤ '\x1f' && c != '\t' && c != '\n') || c == '\x7f'

/-- How many times in a row a character comes at most. -/
def longestRun (c : Char) (s : List Char) : Nat :=
  (s.foldl (fun (most, run) d => if d = c then (max most (run + 1), run + 1) else (most, 0))
    (0, 0)).1

/-- How a string is quoted. -/
inductive Quoting
  | double
  | single
  | threeDouble
  | threeSingle
deriving DecidableEq

/-- The quotes for a string. -/
def quoting (s : List Char) : Quoting :=
  let codes := s.any needsEscape
  let escapes := s.contains '\\'
  let lines := s.contains '\n'
  let doubles := longestRun '"' s
  let singles := longestRun '\'' s
  if !codes && !escapes && !lines && doubles = 0 then .double
  else if !codes && !lines && singles = 0 then .single
  else if !codes && !escapes && doubles ≤ 2 then .threeDouble
  else if !codes && singles ≤ 2 then .threeSingle
  else if lines then .threeDouble
  else .double

/-- A character between double quotes; a line feed between three of them stands for itself. -/
def escaped (many : Bool) (c : Char) : List Char :=
  if c = '\\' then ['\\', '\\']
  else if c = '\x08' then ['\\', 'b']
  else if c = '\t' then ['\\', 't']
  else if c = '\n' then if many then ['\n'] else ['\\', 'n']
  else if c = '\x0c' then ['\\', 'f']
  else if c = '\r' then ['\\', 'r']
  else if c ≤ '\x1f' || c == '\x7f' then '\\' :: 'u' :: Text.hex true 4 c.toNat
  else [c]

/-- The text between double quotes.  A double quote is escaped behind `run` others if no more than
`most` may come in a row. -/
def escapedFrom (many : Bool) (most : Nat) : (run : Nat) → List Char → List Char
  | _, [] => []
  | run, c :: s =>
    if c = '"' then
      if most ≤ run then '\\' :: '"' :: escapedFrom many most 0 s
      else '"' :: escapedFrom many most (run + 1) s
    else escaped many c ++ escapedFrom many most 0 s

/-- A line feed where a text between three quotes starts, if it has several lines. -/
def opening (s : List Char) : List Char := if s.contains '\n' then ['\n'] else []

/-- The string as text. -/
def writeString (s : List Char) : List Char :=
  let three := List.replicate 3
  match quoting s with
  | .double => '"' :: (escapedFrom false 0 0 s ++ ['"'])
  | .single => '\'' :: (s ++ ['\''])
  | .threeDouble => three '"' ++ opening s ++ escapedFrom true 2 0 s ++ three '"'
  | .threeSingle => three '\'' ++ opening s ++ s ++ three '\''

end YamlQuery.Toml

import YamlQuery.Double.Decimal
import YamlQuery.Json.Basic

/-!
# Json.Write — values to JSON text

One item or member a line, each level indented by the same number of spaces; an empty container
stands on one line.  Only quotes, backslashes and control characters are escaped.
-/

namespace YamlQuery.Json

open YamlQuery.Text

/-- A character inside a string. -/
def escape (c : Char) : List Char :=
  match c with
  | '"' => ['\\', '"']
  | '\\' => ['\\', '\\']
  | '\x08' => ['\\', 'b']
  | '\x0c' => ['\\', 'f']
  | '\n' => ['\\', 'n']
  | '\r' => ['\\', 'r']
  | '\t' => ['\\', 't']
  | c => if c.toNat < 0x20 then ['\\', 'u'] ++ hex false 4 c.toNat else [c]

/-- A string in quotes. -/
def quoted (s : String) : List Char := '"' :: (s.toList.flatMap escape ++ ['"'])

/-- A number. -/
def numeral : Numeral → List Char
  | .integer i => decimalInt i.toInt
  | .double x => Double.Layout.json.write x

/-- A line feed, and the indentation of a level. -/
def newline (indent level : Nat) : List Char := '\n' :: List.replicate (indent * level) ' '

mutual

/-- A value whose first line stands at a level. -/
def write (indent level : Nat) : Json → List Char
  | .null => "null".toList
  | .boolean b => (if b then "true" else "false").toList
  | .number n => numeral n
  | .string s => quoted s
  | .array [] => ['[', ']']
  | .array (v :: vs) =>
    '[' :: (writeItems indent (level + 1) (v :: vs) ++ newline indent level ++ [']'])
  | .object [] => ['\x7b', '\x7d']
  | .object (m :: ms) =>
    '\x7b' :: (writeMembers indent (level + 1) (m :: ms) ++ newline indent level ++ ['\x7d'])

def writeItems (indent level : Nat) : List Json → List Char
  | [] => []
  | [v] => newline indent level ++ write indent level v
  | v :: vs => newline indent level ++ write indent level v ++ ',' :: writeItems indent level vs

def writeMembers (indent level : Nat) : List (String × Json) → List Char
  | [] => []
  | [(k, v)] => newline indent level ++ quoted k ++ [':', ' '] ++ write indent level v
  | (k, v) :: ms =>
    newline indent level ++ quoted k ++ [':', ' '] ++ write indent level v ++
      ',' :: writeMembers indent level ms

end

end YamlQuery.Json

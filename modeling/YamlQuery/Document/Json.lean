import YamlQuery.Document.Value
import YamlQuery.Json.Read
import YamlQuery.Json.Write

/-!
# Document.Json — documents and JSON

An integer that does not fit 64 bits with a sign becomes a double; a double that is not finite is
written as `null`.
-/

namespace YamlQuery

/-- The number of a document for a number of a text. -/
def Number.ofNumeral : Numeral → Number
  | .integer i =>
    match i.toInt64? with
    | some n => .integer n
    | none => .double (.ofInt i.toInt)
  | .double x => .double x

/-- The number of a text for a number of a document. -/
def Number.toNumeral : Number → Numeral
  | .integer n => .integer (.ofInt64 n)
  | .double x => .double x

namespace Value

mutual

/-- The document of a JSON value. -/
def ofJson : Json → Value
  | .null => .null
  | .boolean b => .boolean b
  | .number n => .number (.ofNumeral n)
  | .string s => .string s
  | .array items => .sequence (ofJsonItems items)
  | .object members => .mapping (Entries.ofList (ofJsonMembers members))

def ofJsonItems : List Json → List Value
  | [] => []
  | v :: vs => ofJson v :: ofJsonItems vs

def ofJsonMembers : List (String × Json) → List (String × Value)
  | [] => []
  | (k, v) :: ms => (k, ofJson v) :: ofJsonMembers ms

end

mutual

/-- The JSON value of a document. -/
def toJson : Value → Json
  | .null => .null
  | .boolean b => .boolean b
  | .number (.integer n) => .number (.integer (.ofInt64 n))
  | .number (.double x) => if x.isFinite then .number (.double x) else .null
  | .string s => .string s
  | .sequence items => .array (toJsonItems items)
  | .mapping entries => .object (toJsonMembers entries)

def toJsonItems : List Value → List Json
  | [] => []
  | v :: vs => toJson v :: toJsonItems vs

def toJsonMembers : List (String × Value) → List (String × Json)
  | [] => []
  | (k, v) :: es => (k, toJson v) :: toJsonMembers es

end

/-- The document that a JSON text holds. -/
def readJson? (text : String) : Option Value := (Json.read? text.toList).map ofJson

/-- The document as JSON text, each level indented by so many spaces, and a line feed. -/
def writeJson (indent : Nat) (v : Value) : String :=
  String.ofList (v.toJson.write indent 0 ++ ['\n'])

end Value

end YamlQuery

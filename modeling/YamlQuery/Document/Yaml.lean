import YamlQuery.Document.Json
import YamlQuery.Yaml.Read
import YamlQuery.Yaml.Write

/-!
# Document.Yaml — documents and YAML

Tags are dropped, and keys of any kind become their text; keys that get the same text are one key.
-/

namespace YamlQuery.Value

/-- The key of a document for a key that is a scalar. -/
def keyText? : Yaml → Option String
  | .null => some "null"
  | .boolean b => some (booleanText b)
  | .number (.integer i) => some (String.ofList (Text.decimalInt i.toInt))
  | .number (.double x) => some (String.ofList (Double.Layout.yaml.write x))
  | .string s => some s
  | .sequence _ | .mapping _ | .tagged .. => none

mutual

/-- The document of a YAML value. -/
def ofYaml : Yaml → Value
  | .null => .null
  | .boolean b => .boolean b
  | .number n => .number (.ofNumeral n)
  | .string s => .string s
  | .sequence items => .sequence (ofYamlItems items)
  | .mapping entries => .mapping (Entries.ofList (ofYamlEntries entries))
  | .tagged _ v => ofYaml v

def ofYamlItems : List Yaml → List Value
  | [] => []
  | v :: vs => ofYaml v :: ofYamlItems vs

def ofYamlEntries : List (Yaml × Yaml) → List (String × Value)
  | [] => []
  | (k, v) :: es =>
    ((keyText? k).getD (String.ofList (ofYaml k).compact), ofYaml v) :: ofYamlEntries es

end

mutual

/-- The YAML value of a document. -/
def toYaml : Value → Yaml
  | .null => .null
  | .boolean b => .boolean b
  | .number n => .number n.toNumeral
  | .string s => .string s
  | .sequence items => .sequence (toYamlItems items)
  | .mapping entries => .mapping (toYamlEntries entries)

def toYamlItems : List Value → List Yaml
  | [] => []
  | v :: vs => toYaml v :: toYamlItems vs

def toYamlEntries : List (String × Value) → List (Yaml × Yaml)
  | [] => []
  | (k, v) :: es => (.string k, toYaml v) :: toYamlEntries es

end

/-- The document that a YAML text holds. -/
def readYaml? (text : String) : Option Value := (Yaml.read? text.toList).map ofYaml

/-- The document as YAML text. -/
def writeYaml (v : Value) : String := v.toYaml.write

end YamlQuery.Value

import YamlQuery.Settings.Basic
import YamlQuery.Toml.Read
import YamlQuery.Toml.Write

/-!
# Settings.Toml — settings as TOML

A setting that a text does not name has its usual value; names that are no settings are passed over.
-/

namespace YamlQuery

namespace Toml

/-- The text of a string. -/
def asString? : Toml → Option String
  | .string s => some s
  | _ => none

/-- The truth value of a boolean. -/
def asBoolean? : Toml → Option Bool
  | .boolean b => some b
  | _ => none

/-- The number of an integer that is not negative. -/
def asNatural? : Toml → Option Nat
  | .integer (.ofNat n) => some n
  | _ => none

end Toml

namespace Settings

/-- The value of a setting, which has to be of its kind if it is there. -/
def setting? {α : Type} (table : List (String × Toml)) (name : String) (value? : Toml → Option α)
    (usual : α) : Option α :=
  match Entries.get? name table with
  | none => some usual
  | some v => value? v

/-- The settings of a table. -/
def ofToml? (table : List (String × Toml)) : Option Settings := do
  let usual : Settings := {}
  return {
    delimiter := ← setting? table "delimiter" Toml.asString? usual.delimiter
    tokenNamespace := ← setting? table "macro_namespace" Toml.asString? usual.tokenNamespace
    outputFormat := ← setting? table "output_format" Toml.asString? usual.outputFormat
    createBackup := ← setting? table "create_backup" Toml.asBoolean? usual.createBackup
    indentSize := ← setting? table "indent_size" Toml.asNatural? usual.indentSize
    strictSequences :=
      ← setting? table "strict_sequences" Toml.asBoolean? usual.strictSequences }

/-- The settings that a text writes. -/
def parse? (text : String) : Option Settings := (Toml.read? text.toList).bind ofToml?

/-- The line of a setting. -/
def line (name : String) (value : List Char) : List Char :=
  name.toList ++ " = ".toList ++ value ++ ['\n']

def booleanText (b : Bool) : List Char := if b then "true".toList else "false".toList

/-- The settings as text, all of them. -/
def write (s : Settings) : String :=
  String.ofList (
    line "delimiter" (Toml.writeString s.delimiter.toList) ++
    line "macro_namespace" (Toml.writeString s.tokenNamespace.toList) ++
    line "output_format" (Toml.writeString s.outputFormat.toList) ++
    line "create_backup" (booleanText s.createBackup) ++
    line "indent_size" (Text.decimal s.indentSize) ++
    line "strict_sequences" (booleanText s.strictSequences))

end Settings

end YamlQuery

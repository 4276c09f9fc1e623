import YamlQuery.Properties.Basic
import YamlQuery.Session

/-!
# Reference — texts that stand for documents

`@path` stands for the document in a file and `!name` for a stored value; any other text is a
document itself, in JSON or YAML, or else a string.  Blanks at the ends of a reference do not count.
-/

namespace YamlQuery

/-- Why a reference stands for nothing, or cannot be saved to. -/
inductive ReferenceError
  | inaccessible (path : String)
  | unparsed (path : String)
  | nothingStored (name : String)
  | unsupported (path : String)
  | noMapping (reference kind : String)
deriving DecidableEq

/-- The message of an error, where it does not end in the reason of a failure of a file. -/
def ReferenceError.message? : ReferenceError → Option String
  | .inaccessible _ | .unparsed _ => none
  | .nothingStored n => some s!"Nothing stored in memory under '{n}'"
  | .unsupported p => some s!"Unsupported file type for '{p}': expected .json, .yaml or .yml"
  | .noMapping r k => some s!"Properties from '{r}' must be a mapping, found {k}"

/-- A reference, by its form. -/
inductive Reference
  | file (path : String)
  | stored (name : String)
  | inline (text : String)
deriving DecidableEq

namespace Reference

/-- The reference that a text writes. -/
def parse (text : String) : Reference :=
  match Text.trim text.toList with
  | '@' :: path => .file (String.ofList path)
  | '!' :: name => .stored (String.ofList name)
  | s => .inline (String.ofList s)

/-- The document that a text itself writes. -/
def inlineValue (text : String) : Value :=
  match Value.readJson? text with
  | some v => v
  | none => (Value.readYaml? text).getD (.string text)

/-- The document of a file with a format in its path. -/
def load (fs : Files) (path : String) : Except ReferenceError Value :=
  match DocumentFormat.ofPath? path with
  | none => .error (.unsupported path)
  | some format =>
    match fs.readText path with
    | .error _ => .error (.inaccessible path)
    | .ok text =>
      match format.read? text with
      | some v => .ok v
      | none => .error (.unparsed path)

/-- The value stored under a name. -/
def storedValue (memory : Memory) (name : String) : Except ReferenceError Value :=
  match memory.get? name with
  | some v => .ok v
  | none => .error (.nothingStored name)

/-- The document that a reference stands for. -/
def value (fs : Files) (memory : Memory) : Reference → Except ReferenceError Value
  | .file path => load fs path
  | .stored name => storedValue memory name
  | .inline text => .ok (inlineValue text)

/-- The document that a text stands for. -/
def resolve (fs : Files) (memory : Memory) (text : String) : Except ReferenceError Value :=
  (parse text).value fs memory

/-- The document that a text stands for, which may also be the name of a stored value. -/
def resolveNamed (fs : Files) (memory : Memory) (text : String) : Except ReferenceError Value :=
  match parse text with
  | .inline name =>
    match memory.get? name with
    | some v => .ok v
    | none => .ok (inlineValue name)
  | r => r.value fs memory

/-- The properties that a text stands for: those of a file of properties, or the scalars of a
mapping. -/
def properties (fs : Files) (memory : Memory) (text : String) :
    Except ReferenceError Properties :=
  let mapped (r : Reference) : Except ReferenceError Properties :=
    match r.value fs memory with
    | .error e => .error e
    | .ok (.mapping es) => .ok (.ofScalars Value.scalarText? es)
    | .ok v => .error (.noMapping (Text.trimmed text) v.kind)
  match parse text with
  | .file path =>
    if (DocumentFormat.ofPath? path).isSome then mapped (.file path)
    else
      match fs.readText path with
      | .ok text => .ok (.parse text)
      | .error _ => .error (.inaccessible path)
  | r => mapped r

/-- Saves a value to a file, or in memory under a name with or without `!`. -/
def save (settings : Settings) (text : String) (v : Value) (memory : Memory) (fs : Files) :
    Except ReferenceError Memory × Files :=
  match parse text with
  | .file path =>
    if (DocumentFormat.ofPath? path).isNone then (.error (.unsupported path), fs)
    else
      match fs.save settings path v with
      | (.ok (), fs) => (.ok memory, fs)
      | (.error _, fs) => (.error (.inaccessible path), fs)
  | .stored name | .inline name => (.ok (memory.put name v), fs)

end Reference

end YamlQuery

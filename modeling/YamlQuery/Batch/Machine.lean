import YamlQuery.Batch.Script
import YamlQuery.Command.Run
import YamlQuery.Properties.Sets

/-!
# Batch.Machine — what the statements of a script work on

A machine has a session, files, sets of properties and the text printed so far.  `Machine.execute`
is the effect of a statement that neither opens or closes a loop nor runs another script: the new
current value, or a fault.
-/

namespace YamlQuery.Batch

/-- What goes wrong at a line of a script.  That scripts run each other too deeply stands for the end of
the call stack; no script is faulty for it. -/
inductive Fault
  | malformed (e : StatementError)
  | noSource (reference : String)
  | openLoop
  | strayEnd
  | loopShape (found : String)
  | command (e : CommandError)
  | reference (e : ReferenceError)
  | unreadable
  | tooDeep
deriving DecidableEq

/-- The message of a fault that is not a command's or a reference's. -/
def Fault.message? : Fault → Option String
  | .malformed e => some e.message
  | .noSource r => some s!"properties must come from @file or !memory, got '{r}'"
  | .openLoop => some "'foreach' has no matching 'end'"
  | .strayEnd => some "'end' without a matching 'foreach'"
  | .loopShape found =>
    some <| "foreach needs a sequence of scalars or mappings, " ++
      s!"or a mapping of scalars; found {found}"
  | .tooDeep => some "batch files run each other too deeply"
  | .command _ | .reference _ | .unreadable => none

/-- A fault and where it is: the name of the source, the number of the line and its text.  The
number is zero where a script cannot be read. -/
structure Failure where
  source : String
  line : Nat
  text : String
  fault : Fault
deriving DecidableEq

/-- A fault at a line of a script. -/
def Fault.at (f : Fault) (s : Script) (l : Line) : Failure := ⟨s.source, l.number, l.text, f⟩

structure Machine where
  session : Session := {}
  files : Files := {}
  properties : PropertySets := {}
  output : String := ""

/-- The name of the property with the number of the current round of a loop. -/
def roundIndex : String := "foreach.index"

/-- The name of the property with the key of the current entry of a mapping. -/
def roundKey : String := "foreach.iteration.key"

/-- The name of the stored value that the current round is about. -/
def roundValue : String := "foreach.iteration.value"

namespace Machine

/-- The text with its tokens replaced. -/
def expand (m : Machine) (text : String) : String :=
  (Substitute.text m.properties.lookup m.session.settings.tokenNamespace text).1

/-- The machine with another memory. -/
def withMemory (m : Machine) (memory : Memory) : Machine :=
  { m with session := { m.session with memory } }

/-- The properties of a file or of a stored mapping. -/
def loadProperties (m : Machine) (reference : String) : Except Fault Properties :=
  match Reference.parse reference with
  | .inline text => .error (.noSource text)
  | _ =>
    match Reference.properties m.files m.session.memory reference with
    | .ok ps => .ok ps
    | .error e => .error (.reference e)

/-- A value as it is printed: a scalar as its text, a container as YAML without the last line
end. -/
def printed (v : Value) : String :=
  match v.scalarText? with
  | some text => text
  | none => Text.trimmedEnd v.writeYaml

/-- The text that an argument of `print` stands for: `-` for the current value, `!name` for a stored
one, any other text for itself. -/
def printedText (m : Machine) (v : Value) : List Char → Except Fault String
  | ['-'] => .ok (printed v)
  | '!' :: name =>
    match Reference.storedValue m.session.memory (String.ofList name) with
    | .ok v => .ok (printed v)
    | .error e => .error (.reference e)
  | text => .ok (String.ofList text)

/-- The text to print for an argument; `\n` at its end asks for a line feed. -/
def printout (m : Machine) (v : Value) (text : String) : Except Fault String :=
  let s := text.toList
  if ['\\', 'n'].isSuffixOf s then
    (m.printedText v (s.take (s.length - 2))).map (· ++ "\n")
  else m.printedText v s

/-- The value that a command makes of the current one. -/
def command (m : Machine) (v : Value) (line : String) : Except Fault Value :=
  match Command.parse line with
  | .error e => .error (.command (.usage e))
  | .ok c =>
    match c.run m.properties.lookup m.session m.files v with
    | .ok v => .ok v
    | .error e => .error (.command e)

/-- The effect of a statement. -/
def execute (m : Machine) (v : Value) : Statement → Except Fault Value × Machine
  | .properties name reference =>
    match m.loadProperties (m.expand reference) with
    | .ok ps => (.ok v, { m with properties := m.properties.insert name ps })
    | .error f => (.error f, m)
  | .setProperty key value =>
    (.ok v, { m with properties := m.properties.set key (m.expand value) })
  | .print text =>
    match m.printout v (m.expand text) with
    | .ok s => (.ok v, { m with output := m.output ++ s })
    | .error f => (.error f, m)
  | .saveTo target =>
    match Reference.save m.session.settings (m.expand target) v m.session.memory m.files with
    | (.ok memory, files) => (.ok v, { m.withMemory memory with files })
    | (.error e, files) => (.error (.reference e), { m with files })
  | .useAsInput source =>
    match Reference.resolveNamed m.files m.session.memory (m.expand source) with
    | .ok v => (.ok v, m)
    | .error e => (.error (.reference e), m)
  | .command name arguments =>
    let line := ((Statement.command name arguments).commandLine?).getD name
    (m.command v (m.expand line), m)
  | .foreach | .close | .script _ => (.ok v, m)

/-! ### Rounds of loops -/

/-- The machine at the start of a round. -/
def enterRound (m : Machine) (index : Nat) (key : Option String) (v : Value) : Machine :=
  let ps := m.properties.set roundIndex (String.ofList (Text.decimal index))
  let ps := match key with
    | some k => ps.set roundKey k
    | none => ps
  { m.withMemory (m.session.memory.put roundValue v) with properties := ps }

/-- The machine behind a loop: what the loop says about its rounds is as it was before. -/
def leaveLoop (before m : Machine) : Machine :=
  let ps := m.properties.restore roundIndex (before.properties.get? roundIndex)
  let ps := ps.restore roundKey (before.properties.get? roundKey)
  let memory := match before.session.memory.get? roundValue with
    | some v => m.session.memory.put roundValue v
    | none => m.session.memory.erase roundValue
  { m.withMemory memory with properties := ps }

end Machine

end YamlQuery.Batch

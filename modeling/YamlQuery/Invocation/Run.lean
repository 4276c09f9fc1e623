import YamlQuery.Batch.Run
import YamlQuery.Invocation.Basic

/-!
# Invocation.Run — what the program does with its arguments

The program reads a document from a file or from its input, does its task, and writes the result to
a file or to its output.  It leaves with code 0, with 1 after an error and with 2 after a misuse.
-/

namespace YamlQuery

/-- What a run of the program leaves: its code, what it printed, what it has to say about an error,
and the files. -/
structure Invocation.Result where
  code : Nat := 0
  output : String := ""
  complaint : Option String := none
  files : Files

namespace Invocation

/-- The line that names the program and its version. -/
def versionText : String := "yamlpipe 0.1.0\n"

/-- How the program is used. -/
def usageText : String :=
  "Usage: yamlpipe [-i FILE] [-o FILE] [--json] [-v] [--config FILE] COMMAND\n" ++
  "Commands:\n" ++
  "  read PATH            the values at a path\n" ++
  "  list PATH            the paths that a path matches\n" ++
  "  table PATH FIELDS    rows of fields\n" ++
  "  delete PATH          the document without what a path matches\n" ++
  "  insert PATH DATA     the document with data set or created at a path\n" ++
  "  replace PATH DATA    the document with data set at a path\n" ++
  "  macro PROPERTIES     the document with its tokens replaced\n" ++
  "  batch SCRIPT         run a script\n" ++
  "Commands with a path take -d DELIMITER.\n"

/-- What is said about a faulty file. -/
def fileComplaint (e : FileError) : String := e.message?.getD "Failed to write file"

/-- What is said about a faulty command. -/
def commandComplaint : CommandError → String
  | .path e => e.message
  | .edit e => e.message
  | .reference (.inaccessible path) => s!"Cannot access '{path}'"
  | .reference (.unparsed path) => s!"Cannot parse '{path}'"
  | .reference e => e.message?.getD ""
  | .usage e => e.message?.getD usageText

/-- What is said about a faulty script. -/
def scriptComplaint (e : Batch.Failure) : String :=
  let reason := match e.fault with
    | .command c => commandComplaint c
    | .reference r => commandComplaint (.reference r)
    | .unreadable => s!"Failed to read batch file {e.source}"
    | f => f.message?.getD ""
  s!"{e.source}:{e.line}: {reason}\n    {e.text}"

/-- The settings of a run. -/
def loadSettings (i : Invocation) (home : String) (fs : Files) : Except FileError Settings :=
  match (match i.settings with
    | some path => fs.loadSettings path
    | none => .ok (fs.userSettings home)) with
  | .error e => .error e
  | .ok s => .ok (if i.json then { s with outputFormat := "json" } else s)

/-- The document of a run. -/
def loadInput (i : Invocation) (stdin : ByteArray) (fs : Files) : Except String Value :=
  match i.input.filter (· != "-") with
  | some path =>
    match fs.load path with
    | .ok v => .ok v
    | .error e => .error (fileComplaint e)
  | none =>
    match Files.loadBytes? stdin with
    | some v => .ok v
    | none => .error "Failed to parse document from stdin"

/-- The rows of a table that a command has given. -/
def rows : Value → List (List Value)
  | .sequence items => items.map fun
    | .sequence cells => cells
    | _ => []
  | _ => []

/-- The text of a result on the output, which ends with a line end if it is not empty. -/
def rendered (s : Settings) (asTable : Bool) (v : Value) : String :=
  let text :=
    if s.writesJson then v.writeJson s.indentSize
    else if asTable then String.ofList (Table.format (rows v))
    else v.writeYaml
  if text.isEmpty || text.toList.getLast? = some '\n' then text else text ++ "\n"

/-- Writes the result of a run behind what it has printed. -/
def deliver (i : Invocation) (s : Settings) (asTable : Bool) (v : Value) (printed : String)
    (fs : Files) : Result :=
  match i.output.filter (· != "-") with
  | some path =>
    match fs.save s path v with
    | (.ok (), fs) => { output := printed, files := fs }
    | (.error e, fs) =>
      { code := 1, output := printed, complaint := some (fileComplaint e), files := fs }
  | none => { output := printed ++ rendered s asTable v, files := fs }

/-- Does the task of a run on a document. -/
def perform (i : Invocation) (s : Settings) (v : Value) (fs : Files) : Result :=
  match i.task with
  | .command c =>
    match c.run (.ofEntries []) { settings := s } fs v with
    | .error e => { code := 1, complaint := some (commandComplaint e), files := fs }
    | .ok v =>
      let asTable := match c with
        | .table .. => true
        | _ => false
      i.deliver s asTable v "" fs
  | .script path =>
    match Batch.runFile path v { session := { settings := s }, files := fs } with
    | (.error e, m) =>
      { code := 1, output := m.output, complaint := some (scriptComplaint e), files := m.files }
    | (.ok v, m) =>
      if i.output.isSome then i.deliver s false v m.output m.files
      else { output := m.output, files := m.files }

/-- Runs the program for its arguments, with a home directory and the bytes of its input. -/
def run (arguments : List String) (home : String) (stdin : ByteArray) (fs : Files) : Result :=
  match parse arguments with
  | .error .version => { output := versionText, files := fs }
  | .error .help => { output := usageText, files := fs }
  | .error .misuse => { code := 2, complaint := some usageText, files := fs }
  | .ok i =>
    match i.loadSettings home fs with
    | .error e => { code := 1, complaint := some (fileComplaint e), files := fs }
    | .ok s =>
      match i.loadInput stdin fs with
      | .error e => { code := 1, complaint := some e, files := fs }
      | .ok v => i.perform s v fs

end Invocation

end YamlQuery

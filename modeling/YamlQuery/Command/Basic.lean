import YamlQuery.Command.Options
import YamlQuery.Command.Words

/-!
# Command.Basic — commands and their lines

A line of a command is the name of the command, its arguments and, for commands with a path, an
option for the delimiter of that path.
-/

namespace YamlQuery

/-- A path as it is given to a command. -/
structure PathText where
  text : String
  delimiter : Option String := none
deriving DecidableEq

inductive Command
  /-- the values that the path leads to -/
  | read (path : PathText)
  /-- the paths to them -/
  | list (path : PathText)
  /-- a row of fields for each of them -/
  | table (path : PathText) (fields : String)
  /-- the document without them -/
  | delete (path : PathText)
  /-- the document with new data there, and where the path ends early -/
  | insert (path : PathText) (data : String)
  /-- the document with new data there -/
  | replace (path : PathText) (data : String)
  /-- the document with its tokens replaced -/
  | substitute (properties : String)
deriving DecidableEq

/-- Why a line is no command. -/
inductive UsageError
  | openQuote (line : String)
  | empty
  | misfit
deriving DecidableEq

/-- The message of an error, unless it is one of the words of the line. -/
def UsageError.message? : UsageError → Option String
  | .openQuote line => some s!"Cannot tokenize '{line}': missing closing quote"
  | .empty => some "Empty command"
  | .misfit => none

namespace Command

/-- The name of a command. -/
def name : Command → String
  | .read _ => "read"
  | .list _ => "list"
  | .table .. => "table"
  | .delete _ => "delete"
  | .insert .. => "insert"
  | .replace .. => "replace"
  | .substitute _ => "macro"

/-- How many words follow the name of a command. -/
def arity? (name : String) : Option Nat :=
  if ["read", "list", "delete", "macro"].contains name then some 1
  else if ["table", "insert", "replace"].contains name then some 2
  else none

/-- The option for the delimiter. -/
def delimiterForm : OptionForm := { name := "delimiter", letter := some 'd' }

/-- The options of the command with a name. -/
def forms (name : String) : List OptionForm := if name = "macro" then [] else [delimiterForm]

/-- The command with a name and arguments. -/
def ofArguments? (name : String) (delimiter : Option String) : List String → Option Command
  | [a] =>
    if name = "read" then some (.read ⟨a, delimiter⟩)
    else if name = "list" then some (.list ⟨a, delimiter⟩)
    else if name = "delete" then some (.delete ⟨a, delimiter⟩)
    else if name = "macro" then some (.substitute a)
    else none
  | [a, b] =>
    if name = "table" then some (.table ⟨a, delimiter⟩ b)
    else if name = "insert" then some (.insert ⟨a, delimiter⟩ b)
    else if name = "replace" then some (.replace ⟨a, delimiter⟩ b)
    else none
  | _ => none

/-- The command with a name among further options, and those. -/
def readArguments (further : List OptionForm) (name : String) (words : List String) :
    Except OptionStop (Command × Entries String) :=
  match arity? name with
  | none => .error .misuse
  | some n =>
    match Options.read (forms name ++ further) n words with
    | .error e => .error e
    | .ok o =>
      match ofArguments? name (o.values.get? delimiterForm.name) o.words with
      | some c => .ok (c, o.values)
      | none => .error .misuse

/-- The command that the words of a line give. -/
def ofWords? : List String → Option Command
  | [] => none
  | name :: words =>
    match readArguments [] name words with
    | .ok (c, _) => some c
    | .error _ => none

/-- The command that a line writes. -/
def parse (line : String) : Except UsageError Command :=
  match words? line.toList with
  | none => .error (.openQuote line)
  | some [] => .error .empty
  | some ws =>
    match ofWords? (ws.map String.ofList) with
    | some c => .ok c
    | none => .error .misfit

end Command

end YamlQuery

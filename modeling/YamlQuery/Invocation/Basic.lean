import YamlQuery.Command.Basic

/-!
# Invocation — the arguments of the program

Options for the program as a whole stand before or behind the name of the command; behind it they
count more.  Besides the commands there is `batch`, which runs a script.
-/

namespace YamlQuery

/-- What the program is to do. -/
inductive Task
  | command (c : Command)
  | script (path : String)
deriving DecidableEq

structure Invocation where
  input : Option String := none
  output : Option String := none
  json : Bool := false
  settings : Option String := none
  task : Task
deriving DecidableEq

namespace Invocation

/-- The document comes from the input of the program. -/
def readsStdin (i : Invocation) : Bool := i.input.all (· == "-")

/-- The options that ask for help. -/
def helpForm : Command.OptionForm := { name := "help", letter := some 'h', kind := .help }

/-- The options for the program as a whole. -/
def commonForms : List Command.OptionForm :=
  [{ name := "input", letter := some 'i' },
    { name := "output", letter := some 'o' },
    { name := "json", kind := .flag },
    { name := "verbose", letter := some 'v', kind := .flag },
    { name := "config", kind := .path },
    helpForm]

/-- The options before the name of the command. -/
def leadingForms : List Command.OptionForm :=
  commonForms ++ [{ name := "version", letter := some 'V', kind := .version }]

/-- The task of a name and the words behind it, and the options among them. -/
def readTask (name : String) (words : List String) :
    Except Command.OptionStop (Task × Entries String) :=
  if name = "help" then .error .help
  else if name = "batch" then
    match Command.Options.read commonForms 1 words with
    | .error e => .error e
    | .ok o =>
      match o.words with
      | [path] => if path.isEmpty then .error .misuse else .ok (.script path, o.values)
      | _ => .error .misuse
  else
    match Command.readArguments commonForms name words with
    | .ok (c, values) => .ok (.command c, values)
    | .error e => .error e

/-- What the arguments of the program ask for. -/
def parse (arguments : List String) : Except Command.OptionStop Invocation :=
  match Command.Options.readBefore leadingForms {} arguments with
  | .error e => .error e
  | .ok (leading, name, words) =>
    match readTask name words with
    | .error e => .error e
    | .ok (task, values) =>
      let given (option : String) : Option String :=
        (values.get? option).or (leading.values.get? option)
      .ok {
        input := given "input"
        output := given "output"
        json := (given "json").isSome
        settings := given "config"
        task }

end Invocation

end YamlQuery

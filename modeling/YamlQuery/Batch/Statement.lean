import YamlQuery.Batch.Line

/-!
# Batch.Statement — what a line asks for

The first word says what a statement is, in small or capital letters.  A word that is none of the
words for statements starts a command.
-/

namespace YamlQuery.Batch

/-- Why a text is no statement. -/
inductive StatementError
  | empty
  | noArgument (word : String)
  | unusedArgument (word rest : String)
  | noAssignment (word rest : String)
deriving DecidableEq

def StatementError.message : StatementError → String
  | .empty => "Empty statement"
  | .noArgument w => s!"'{w}' needs an argument"
  | .unusedArgument w r => s!"'{w}' takes no arguments, got '{r}'"
  | .noAssignment w r => s!"'{w}' expects name=value, got '{r}'"

/-- A statement of a script. -/
inductive Statement
  /-- load a set of properties -/
  | properties (name reference : String)
  /-- set one property -/
  | setProperty (key value : String)
  /-- print a text, the current value or a stored one -/
  | print (text : String)
  /-- save the current value -/
  | saveTo (target : String)
  /-- go on with another value -/
  | useAsInput (source : String)
  /-- open a loop -/
  | foreach
  /-- close a loop -/
  | close
  /-- run another script -/
  | script (path : String)
  /-- run a command -/
  | command (name arguments : String)
deriving DecidableEq

namespace Statement

/-- The words that open and close a loop. -/
def openWord : List Char := "foreach".toList

def closeWord : List Char := "end".toList

/-- An argument that has to be there. -/
def required (word rest : List Char) (f : String → Statement) :
    Except StatementError Statement :=
  if rest.isEmpty then .error (.noArgument (String.ofList word)) else .ok (f (String.ofList rest))

/-- No argument may be there. -/
def alone (word rest : List Char) (s : Statement) : Except StatementError Statement :=
  if rest.isEmpty then .ok s
  else .error (.unusedArgument (String.ofList word) (String.ofList rest))

/-- An argument with a name, `=` and a value, blanks at the ends of both removed. -/
def assignment (word rest : List Char) (f : String → String → Statement) :
    Except StatementError Statement :=
  match Text.cutAt (· == '=') rest with
  | some (name, value) =>
    if (Text.trim name).isEmpty then refuse
    else .ok (f (String.ofList (Text.trim name)) (String.ofList (Text.trim value)))
  | none => refuse
where
  refuse := .error (.noAssignment (String.ofList word) (String.ofList rest))

/-- The statement with a first word and the rest of its text. -/
def ofWords (word rest : List Char) : Except StatementError Statement :=
  let w := Text.lower word
  if w = "properties".toList then assignment word rest .properties
  else if w = "setproperty".toList then assignment word rest .setProperty
  else if w = "print".toList then .ok (.print (String.ofList rest))
  else if w = "saveto".toList then required word rest .saveTo
  else if w = "useasinput".toList then required word rest .useAsInput
  else if w = "batch".toList then required word rest .script
  else if w = openWord then alone word rest .foreach
  else if w = closeWord then alone word rest .close
  else if w.isEmpty then .error .empty
  else .ok (.command (String.ofList word) (String.ofList rest))

/-- The statement that a text writes. -/
def parse (text : String) : Except StatementError Statement :=
  let s := Text.trim text.toList
  ofWords (s.takeWhile (! Text.isBlank ·)) (Text.trim (s.dropWhile (! Text.isBlank ·)))

/-- The whole line of a command. -/
def commandLine? : Statement → Option String
  | .command name arguments =>
    some (if arguments.isEmpty then name else name ++ " " ++ arguments)
  | _ => none

end Statement

end YamlQuery.Batch

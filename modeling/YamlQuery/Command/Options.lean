import YamlQuery.Document.Entries
import YamlQuery.Text.Split

/-!
# Command.Options — options among the words of a command line

An option is written `--name value`, `--name=value`, `-n value`, `-nvalue` or `-n=value`; one
without a value is a flag, and flags may share a dash.  Behind a lone `--` no word is an option, and
a lone `-` never is one.  A value may not look like an option unless it is attached.  No option may
be given twice.
-/

namespace YamlQuery.Command

/-- What an option takes: nothing, any text, or a text that is not empty; or it asks for a text
about the program instead of a run. -/
inductive OptionKind
  | flag
  | text
  | path
  | help
  | version
deriving DecidableEq

/-- An option: its long name, its letter and what it takes. -/
structure OptionForm where
  name : String
  letter : Option Char := none
  kind : OptionKind := .text
deriving DecidableEq

/-- Why reading options stops. -/
inductive OptionStop
  | misuse
  | help
  | version
deriving DecidableEq

/-- The options and the other words read so far, the option that waits for its value, and whether
`--` has been passed. -/
structure Options where
  values : Entries String := []
  words : List String := []
  waiting : Option OptionForm := none
  closed : Bool := false

namespace Options

/-- Enters the value of an option. -/
def enter (f : OptionForm) (value : String) (o : Options) : Except OptionStop Options :=
  if (o.values.get? f.name).isSome || f.kind = .path && value.isEmpty then .error .misuse
  else .ok { o with values := o.values.put f.name value, waiting := none }

/-- Enters an option without a value, or stops for one that asks for a text. -/
def enterFlag (f : OptionForm) (o : Options) : Except OptionStop Options :=
  match f.kind with
  | .help => .error .help
  | .version => .error .version
  | _ => o.enter f ""

def takesValue (f : OptionForm) : Bool := f.kind = .text || f.kind = .path

/-- Reads an option by its long name, with the value attached to it. -/
def readLong (forms : List OptionForm) (name : List Char) (value : Option (List Char))
    (o : Options) : Except OptionStop Options :=
  match forms.find? (·.name == String.ofList name), value with
  | none, _ => .error .misuse
  | some f, some v => if takesValue f then o.enter f (String.ofList v) else .error .misuse
  | some f, none => if takesValue f then .ok { o with waiting := some f } else o.enterFlag f

/-- Reads options by their letters. -/
def readLetters (forms : List OptionForm) : List Char → Options → Except OptionStop Options
  | [], o => .ok o
  | c :: s, o =>
    match forms.find? (·.letter == some c) with
    | none => .error .misuse
    | some f =>
      if takesValue f then
        match s with
        | [] => .ok { o with waiting := some f }
        | '=' :: v => o.enter f (String.ofList v)
        | v => o.enter f (String.ofList v)
      else
        match o.enterFlag f with
        | .ok o => readLetters forms s o
        | .error e => .error e

/-- The word is read as an option or as `--`. -/
def isOption : List Char → Bool
  | '-' :: _ :: _ => true
  | _ => false

/-- Reads a word, which may be the value of the option before. -/
def readWord (forms : List OptionForm) (limit : Nat) (o : Options) (word : String) :
    Except OptionStop Options :=
  let w := word.toList
  if !o.closed && isOption w then
    if o.waiting.isSome then .error .misuse
    else
      match w with
      | ['-', '-'] => .ok { o with closed := true }
      | '-' :: '-' :: s =>
        match Text.cutAt (· == '=') s with
        | some (name, value) => o.readLong forms name (some value)
        | none => o.readLong forms s none
      | _ => o.readLetters forms (w.drop 1)
  else
    match o.waiting with
    | some f => o.enter f word
    | none => if o.words.length < limit then .ok { o with words := o.words ++ [word] }
      else .error .misuse

/-- Reads words, of which at most `limit` may be no options. -/
def read (forms : List OptionForm) (limit : Nat) (words : List String) :
    Except OptionStop Options := do
  let o ← words.foldlM (readWord forms limit) {}
  if o.waiting.isSome then .error .misuse else .ok o

/-- Reads options up to the first word that is none, which is given with the words behind it. -/
def readBefore (forms : List OptionForm) :
    Options → List String → Except OptionStop (Options × String × List String)
  | _, [] => .error .misuse
  | o, word :: rest =>
    if o.waiting.isNone && !o.closed && !isOption word.toList then .ok (o, word, rest)
    else
      match o.readWord forms 0 word with
      | .ok o => readBefore forms o rest
      | .error e => .error e

end Options

end YamlQuery.Command

import YamlQuery.Yaml.Pen
import YamlQuery.Yaml.Plain

/-!
# Yaml.Write — values to YAML text

Collections stand in blocks, two columns to a level, a sequence in a mapping no further right than
its key; empty collections are `[]` and `{}`.  A string of several lines is literal, one that would
be read as something else is in single quotes, any other is plain; where a style cannot hold the
text, quotes take its place.  A key of several lines or of more than 128 octets has an indicator of
its own.
-/

namespace YamlQuery.Yaml

/-- How a scalar is to be written, if it can be. -/
inductive Wish
  | plain
  | singleQuoted
  | literal
deriving DecidableEq

/-- The style of a string. -/
def Wish.ofString (s : String) : Wish :=
  if s.toList.contains '\n' then .literal
  else
    match resolve? s with
    | some (.string _) => if isPaddedNumber s.toList then .singleQuoted else .plain
    | _ => .singleQuoted

/-- A scalar whose further lines stand at column `indent`. -/
def writeScalar (indent : Nat) (wish : Wish) (s : List Char) (p : Pen) : Pen :=
  let x := Pen.shape s
  if wish = .literal then if x.block then p.literal indent s else p.doubleQuoted s
  else if wish = .plain && x.plain then p.plain s
  else if x.singleQuoted then p.singleQuoted indent s
  else p.doubleQuoted s

/-- The text of a scalar and how it is to be written. -/
def scalarText? : Yaml → Option (List Char × Wish)
  | .null => some ("null".toList, .plain)
  | .boolean b => some ((if b then "true" else "false").toList, .plain)
  | .number (.integer i) => some (Text.decimalInt i.toInt, .plain)
  | .number (.double x) => some (Double.Layout.yaml.write x, .plain)
  | .string s => some (s.toList, .ofString s)
  | .sequence _ | .mapping _ | .tagged .. => none

/-- The longest key that needs no indicator, in octets. -/
def simpleKeyLimit : Nat := 128

/-- A key that stands on the line of its colon. -/
def isSimpleKey : Yaml → Bool
  | .sequence vs => vs.isEmpty
  | .mapping es => es.isEmpty
  | .tagged .. => false
  | v =>
    match scalarText? v with
    | some (s, _) => !s.any isBreak && (String.ofList s).utf8ByteSize ≤ simpleKeyLimit
    | none => false

/-- The column of a block inside another. -/
def deeper : Option Nat → Nat
  | none => 0
  | some n => n + 2

mutual

/-- A value inside a block at column `indent`. -/
def writeNode (indent : Option Nat) (inMapping : Bool) (p : Pen) : Yaml → Pen
  | .sequence [] => (p.mark "[" true).mark "]" false
  | .sequence (v :: vs) =>
    writeItems (if inMapping && !p.fresh then indent.getD 0 else deeper indent) p (v :: vs)
  | .mapping [] => (p.mark "\x7b" true).mark "\x7d" false
  | .mapping (e :: es) => writeEntries (deeper indent) p (e :: es)
  | .tagged tag v => writeNode indent inMapping (p.mark (String.ofList ('!' :: bareTag tag)) true) v
  | v =>
    match scalarText? v with
    | some (s, wish) => writeScalar (indent.getD 0 + 2) wish s p
    | none => p

def writeItems (indent : Nat) (p : Pen) : List Yaml → Pen
  | [] => p
  | v :: vs =>
    writeItems indent (writeNode (some indent) false ((p.indent indent).markEntry "-") v) vs

def writeEntries (indent : Nat) (p : Pen) : List (Yaml × Yaml) → Pen
  | [] => p
  | (k, v) :: es =>
    let p := p.indent indent
    let p :=
      if isSimpleKey k then (writeNode (some indent) true p k).mark ":" false
      else ((writeNode (some indent) true (p.markEntry "?") k).indent indent).markEntry ":"
    writeEntries indent (writeNode (some indent) true p v) es

end

/-- The text of a value. -/
def write (v : Yaml) : String := ((writeNode none false {} v).indent 0).text

end YamlQuery.Yaml

import YamlQuery.Double.Decimal
import YamlQuery.Yaml.Basic

/-!
# Yaml.Plain — what a plain scalar stands for

A plain scalar is null, a boolean, an integer, a double or, if it is none of them, a string.
Integers have a sign and a base: `0x`, `0o`, `0b` or ten.  A decimal with a leading zero is a
string.  `resolve?` is `none` on an integer too large for any number of a document and too small
for a double.
-/

namespace YamlQuery.Yaml

open YamlQuery.Text

/-- The texts of null. -/
def isNullText (s : String) : Bool := s == "null" || s == "Null" || s == "NULL" || s == "~"

/-- The texts of the booleans. -/
def booleanOf? (s : String) : Option Bool :=
  if s == "true" || s == "True" || s == "TRUE" then some true
  else if s == "false" || s == "False" || s == "FALSE" then some false
  else none

/-- Digits behind an optional sign, the first of several a zero. -/
def isPaddedNumber (s : List Char) : Bool :=
  let digits :=
    match s with
    | '-' :: s => s
    | '+' :: s => s
    | s => s
  match digits with
  | '0' :: c :: s => (c :: s).all isDigit
  | _ => false

/-- The natural number with or without the mark of its base. -/
def magnitude? (s : List Char) : Option Nat :=
  match s with
  | '0' :: 'x' :: s => natOf? 16 s
  | '0' :: 'o' :: s => natOf? 8 s
  | '0' :: 'b' :: s => natOf? 2 s
  | s => natOf? 10 s

/-- The integer that a text writes. -/
def integerOf? (s : List Char) : Option Int :=
  if isPaddedNumber s then none
  else
    match s with
    | '+' :: s => (magnitude? s).map Int.ofNat
    | '-' :: s => (magnitude? s).map fun n => -(n : Int)
    | s => (magnitude? s).map Int.ofNat

/-- The integers that count as integers when they are read, though not all of them fit a number. -/
def isIntegerRange (i : Int) : Bool := -(Int.pow 2 127) ≤ i && i < Int.pow 2 128

def isInfinityText (s : List Char) : Bool :=
  s == ".inf".toList || s == ".Inf".toList || s == ".INF".toList

def isNaNText (s : List Char) : Bool :=
  s == ".nan".toList || s == ".NaN".toList || s == ".NAN".toList

/-- The double that a text writes. -/
def doubleOf? (s : List Char) : Option Double :=
  let unsigned :=
    match s with
    | '+' :: s => if s.head? == some '+' || s.head? == some '-' then [] else s
    | s => s
  if isInfinityText unsigned then some (.infinity false)
  else if s.head? == some '-' && isInfinityText (s.drop 1) then some (.infinity true)
  else if isNaNText s then some .nan
  else (Double.ofText? unsigned).filter Double.isFinite

/-- What a plain scalar without a tag stands for. -/
def resolve? (text : String) : Option Yaml :=
  let s := text.toList
  if text.isEmpty || isNullText text then some .null
  else
    match booleanOf? text with
    | some b => some (.boolean b)
    | none =>
      match (integerOf? s).filter isIntegerRange with
      | some i => (WideInt.ofInt? i).map fun i => .number (.integer i)
      | none =>
        if isPaddedNumber s then some (.string text)
        else
          match doubleOf? s with
          | some x => some (.number (.double x))
          | none => some (.string text)

/-! ### Tags -/

/-- The tags that say what a scalar is. -/
inductive CoreTag
  | boolean
  | integer
  | double
  | null
deriving DecidableEq

def CoreTag.ofName? (tag : String) : Option CoreTag :=
  if tag = "tag:yaml.org,2002:bool" then some .boolean
  else if tag = "tag:yaml.org,2002:int" then some .integer
  else if tag = "tag:yaml.org,2002:float" then some .double
  else if tag = "tag:yaml.org,2002:null" then some .null
  else none

/-- The value of a scalar that has to be of this kind. -/
def CoreTag.resolve? (t : CoreTag) (text : String) : Option Yaml :=
  match t with
  | .boolean => (booleanOf? text).map .boolean
  | .integer =>
    ((integerOf? text.toList).bind WideInt.ofInt?).map fun i => .number (.integer i)
  | .double => (doubleOf? text.toList).map fun x => .number (.double x)
  | .null => if isNullText text then some .null else none

end YamlQuery.Yaml

import YamlQuery.Document.Value
import YamlQuery.Text.Split

/-!
# Substitute — properties in texts and documents

A token is a name between `${` and `}` with none of the characters `$`, `{` and `}` in it.  A name
with `::` in it counts only if what stands before is the namespace; the property is named by what
stands behind.  Tokens of defined properties are replaced by their values, all else stays as it is,
and values are not searched for tokens again.
-/

namespace YamlQuery

/-- The values of properties. -/
abbrev Lookup := String → Option String

namespace Lookup

/-- The properties of a map. -/
def ofEntries (es : Entries String) : Lookup := fun name => es.get? name

/-- The first of several maps that has a property. -/
def ofSets (sets : List (Entries String)) : Lookup := fun name => sets.findSome? (·.get? name)

/-- The scalars of a mapping. -/
def ofMapping (es : Entries Value) : Lookup := fun name => (es.get? name).bind (·.scalarText?)

end Lookup

namespace Substitute

/-- A character that names in tokens may have. -/
def isNameChar (c : Char) : Bool := c != '$' && c != '\x7b' && c != '\x7d'

/-- The name of a token behind its `${`, and what follows its brace. -/
def nameOf? (s : List Char) : Option (List Char × List Char) :=
  match s.span isNameChar with
  | (c :: name, '\x7d' :: rest) => some (c :: name, rest)
  | _ => none

/-- The property that the name in a token asks for. -/
def propertyOf? (ns : List Char) (name : List Char) : Option (List Char) :=
  match Text.cut [':', ':'] name with
  | some (before, rest) => if before = ns then some rest else none
  | none => some name

/-- The value that stands for a token, if it has one. -/
def valueOf? (lookup : Lookup) (ns : List Char) (name : List Char) : Option (List Char) :=
  (propertyOf? ns name).bind fun p => (lookup (String.ofList p)).map String.toList

/-- The value of the token that a text starts with, and how long the token is. -/
def tokenAt? (lookup : Lookup) (ns : List Char) : List Char → Option (List Char × Nat)
  | '$' :: '\x7b' :: s =>
    match nameOf? s with
    | some (name, _) => (valueOf? lookup ns name).map (·, name.length + 3)
    | none => none
  | _ => none

/-- The text with its tokens replaced behind `skip` characters that belong to a token already seen,
and whether there were any. -/
def charsFrom (lookup : Lookup) (ns : List Char) : Nat → List Char → List Char × Bool
  | _, [] => ([], false)
  | skip + 1, _ :: s => charsFrom lookup ns skip s
  | 0, c :: s =>
    match tokenAt? lookup ns (c :: s) with
    | some (value, n) => (value ++ (charsFrom lookup ns (n - 1) s).1, true)
    | none =>
      let (t, changed) := charsFrom lookup ns 0 s
      (c :: t, changed)

/-- The text with its tokens replaced, and whether there were any. -/
def chars (lookup : Lookup) (ns s : List Char) : List Char × Bool := charsFrom lookup ns 0 s

/-- `chars` on strings. -/
def text (lookup : Lookup) (ns s : String) : String × Bool :=
  let (t, changed) := chars lookup ns.toList s.toList
  (String.ofList t, changed)

mutual

/-- The document with the tokens replaced in all its keys and strings, and whether there were any.
Of keys that become the same the last value wins, at the place of the first. -/
def value (lookup : Lookup) (ns : String) : Value → Value × Bool
  | .mapping es =>
    let (es, changed) := entries lookup ns es
    (.mapping (Entries.ofList es), changed)
  | .sequence items =>
    let (items, changed) := elements lookup ns items
    (.sequence items, changed)
  | .string s =>
    let (s, changed) := text lookup ns s
    (.string s, changed)
  | v => (v, false)

def elements (lookup : Lookup) (ns : String) : List Value → List Value × Bool
  | [] => ([], false)
  | v :: vs =>
    let (v, changed) := value lookup ns v
    let (vs, rest) := elements lookup ns vs
    (v :: vs, changed || rest)

def entries (lookup : Lookup) (ns : String) :
    List (String × Value) → List (String × Value) × Bool
  | [] => ([], false)
  | (k, v) :: es =>
    let (k, keyChanged) := text lookup ns k
    let (v, changed) := value lookup ns v
    let (es, rest) := entries lookup ns es
    ((k, v) :: es, keyChanged || changed || rest)

end

end Substitute

end YamlQuery

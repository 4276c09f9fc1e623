import YamlQuery.Yaml.Node
import YamlQuery.Yaml.Plain
import YamlQuery.Yaml.Token.Read

/-!
# Yaml.Read — YAML text to values

A text holds one document.  Containers nest at most 128 deep, those that an alias stands for
included, and at most a hundred times as many aliases are followed as the text has marks, so that an
alias inside its own anchor and a tree of aliases that grows without bound are errors.  So is a key
that comes twice in a mapping.
-/

namespace YamlQuery.Yaml

/-- The containers that may be open at once. -/
def depthLimit : Nat := 128

/-- The values are read with the number of aliases that may still be followed. -/
abbrev Resolver := StateT Nat Option

/-- The node of an alias, and whether it was one. -/
def follow (anchors : List (Nat × Node)) (n : Node) : Resolver (Node × Bool) := do
  match n with
  | .alias a => do
    match ← get with
    | 0 => failure
    | jumps + 1 => do
      set jumps
      match anchors.find? (·.1 == a) with
      | some (_, n) => return (n, true)
      | none => failure
  | n => return (n, false)

/-- A local tag, which a value keeps. -/
def localTag? (tag : Option String) : Option String :=
  match tag with
  | some t =>
    match t.toList with
    | ['!'] => some t
    | '!' :: s => some (String.ofList s)
    | _ => none
  | none => none

/-- The value of a scalar whose local tag, if any, has been taken off. -/
def scalar? (tag : Option String) (bare plain : Bool) (text : String) : Option Yaml :=
  match if bare then none else tag with
  | some t =>
    match CoreTag.ofName? t with
    | some t => t.resolve? text
    | none => some (.string text)
  | none => if plain && (bare || tag.isNone) then resolve? text else some (.string text)

/-- A key comes twice. -/
def hasRepeatedKey : List (Yaml × Yaml) → Bool
  | [] => false
  | (k, _) :: es => es.any (·.1.sameKey k) || hasRepeatedKey es

/-- The value of a node.  `bare` says that the node has given away its tag already. -/
def value (anchors : List (Nat × Node)) : Nat → Bool → Node → Resolver Yaml
  | depth, bare, n => do
    let (n, jumped) ← follow anchors n
    let bare := bare && !jumped
    let n :=
      match n with
      | .anchored _ n => n
      | n => n
    let wrap (tag : Option String) (v : Yaml) : Yaml :=
      match if bare then none else localTag? tag with
      | some t => .tagged t v
      | none => v
    match n with
    | .scalar tag plain text =>
      let bare := bare || (localTag? tag).isSome
      match scalar? tag bare plain text with
      | some v => return wrap tag v
      | none => failure
    | .sequence tag items =>
      match depth with
      | 0 => failure
      | depth + 1 => do
        let vs ← items.mapM (value anchors depth false)
        return wrap tag (.sequence vs)
    | .mapping tag entries =>
      match depth with
      | 0 => failure
      | depth + 1 => do
        let keyBare := bare || (localTag? tag).isSome
        let es ← entries.mapM fun (k, v) => do
          let k ← value anchors depth keyBare k
          let v ← value anchors depth false v
          return (k, v)
        guard (!hasRepeatedKey es)
        return wrap tag (.mapping es)
    | .alias _ | .anchored .. => failure

/-- The value of the document with this root. -/
def ofNode? (n : Node) : Option Yaml :=
  (value n.anchors.reverse depthLimit false n |>.run (100 * n.size)).map (·.1)

/-- The value that a text holds; null if it holds no document. -/
def read? (text : List Char) : Option Yaml :=
  match (tokens? text).bind Node.ofTokens? with
  | none => none
  | some none => some .null
  | some (some n) => ofNode? n

end YamlQuery.Yaml

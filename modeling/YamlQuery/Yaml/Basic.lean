import YamlQuery.Numeral

/-!
# Yaml — YAML values

Any value may be a key.  `sameKey` is the equality of keys: the order of the entries of a mapping
does not count, and a tag may be written with its exclamation mark or without.
-/

namespace YamlQuery

/-- A YAML value. -/
inductive Yaml
  | null
  | boolean (b : Bool)
  | number (n : Numeral)
  | string (s : String)
  | sequence (items : List Yaml)
  | mapping (entries : List (Yaml × Yaml))
  | tagged (tag : String) (value : Yaml)
deriving Inhabited

/-- Two numbers are one key. -/
def Numeral.sameKey : Numeral → Numeral → Bool
  | .integer a, .integer b => a = b
  | .double a, .double b => a.sameKey b
  | _, _ => false

namespace Yaml

/-- A tag without the exclamation mark it may start with. -/
def bareTag (tag : String) : List Char :=
  match tag.toList with
  | '!' :: c :: s => c :: s
  | s => s

mutual

/-- Two values are one key. -/
def sameKey : Yaml → Yaml → Bool
  | .null, .null => true
  | .boolean a, .boolean b => a = b
  | .number a, .number b => a.sameKey b
  | .string a, .string b => a = b
  | .sequence as, .sequence bs => sameItems as bs
  | .mapping as, .mapping bs => as.length == bs.length && sameEntries as bs
  | .tagged s a, .tagged t b => bareTag s = bareTag t && sameKey a b
  | _, _ => false

def sameItems : List Yaml → List Yaml → Bool
  | [], [] => true
  | a :: as, b :: bs => sameKey a b && sameItems as bs
  | _, _ => false

def sameEntries : List (Yaml × Yaml) → List (Yaml × Yaml) → Bool
  | [], _ => true
  | (k, v) :: as, bs => bs.any (fun (l, w) => sameKey k l && sameKey v w) && sameEntries as bs

end

mutual

/-- No mapping in the value has a key twice. -/
def Distinct : Yaml → Prop
  | .sequence items => DistinctItems items
  | .mapping entries =>
    entries.Pairwise (fun a b => a.1.sameKey b.1 = false) ∧ DistinctEntries entries
  | .tagged _ v => Distinct v
  | _ => True

def DistinctItems : List Yaml → Prop
  | [] => True
  | v :: vs => Distinct v ∧ DistinctItems vs

def DistinctEntries : List (Yaml × Yaml) → Prop
  | [] => True
  | (k, v) :: es => Distinct k ∧ Distinct v ∧ DistinctEntries es

end

end Yaml

end YamlQuery

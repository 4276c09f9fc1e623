import YamlQuery.Document.Value

/-!
# Document.Address — nodes of a document by the way to them

An address is the list of steps from the root: a key into a mapping, an index into a sequence.
`get?` finds the node at an address; `modify?` changes it and gives `none` exactly where `get?`
does.
-/

namespace YamlQuery

/-- A step to a child of a node. -/
inductive Step
  | key (k : String)
  | index (i : Nat)
deriving DecidableEq, Repr

/-- The text of a step alone. -/
def Step.text : Step → List Char
  | .key k => k.toList
  | .index i => '[' :: (Text.decimal i ++ [']'])

/-- The steps from the root to a node. -/
abbrev Address := List Step

namespace Address

/-- The address of the root. -/
def root : Address := []

/-- The address of a child. -/
def child (a : Address) (s : Step) : Address := a ++ [s]

/-- The steps behind the first one. -/
def tailText : Address → List Char
  | [] => []
  | .key k :: a => '.' :: k.toList ++ tailText a
  | .index i :: a => (Step.index i).text ++ tailText a

/-- The text of an address, such as `a.b[0].c`. -/
def text : Address → String
  | [] => "<root>"
  | s :: a => String.ofList (s.text ++ tailText a)

/-- The keys of an address, in order. -/
def keys (a : Address) : List String :=
  a.filterMap fun
    | .key k => some k
    | .index _ => none

end Address

namespace Value

/-- The node at an address.  `none` if a key is missing, an index is out of range or a step does
not fit the kind of node. -/
def get? : Value → Address → Option Value
  | v, [] => some v
  | .mapping es, .key k :: a => (Entries.get? k es).bind (·.get? a)
  | .sequence items, .index i :: a => items[i]?.bind (·.get? a)
  | _, _ :: _ => none

/-- The document with the node at an address changed. -/
def modify? (f : Value → Value) : Value → Address → Option Value
  | v, [] => some (f v)
  | .mapping es, .key k :: a =>
    (Entries.get? k es).bind fun c => (c.modify? f a).map fun c => .mapping (Entries.put k c es)
  | .sequence items, .index i :: a =>
    items[i]?.bind fun c => (c.modify? f a).map fun c => .sequence (items.set i c)
  | _, _ :: _ => none

/-- The document with another value at an address. -/
def replace? (v : Value) (a : Address) (new : Value) : Option Value := v.modify? (fun _ => new) a

/-! ### Small facts -/

@[simp] theorem get?_root (v : Value) : v.get? [] = some v := by cases v <;> rfl

@[simp] theorem modify?_root (f : Value → Value) (v : Value) : v.modify? f [] = some (f v) := by
  cases v <;> rfl

/-- A node can be changed where it can be found. -/
theorem isSome_modify? (f : Value → Value) (a : Address) (v : Value) :
    (v.modify? f a).isSome = (v.get? a).isSome := by
  induction a generalizing v with
  | nil => simp
  | cons s a ih =>
    cases v <;> cases s <;> simp only [get?, modify?]
    · next items i => cases h : items[i]? <;> simp [ih]
    · next es k => cases h : Entries.get? k es <;> simp [ih]

end Value

end YamlQuery

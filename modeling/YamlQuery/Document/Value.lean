import YamlQuery.Document.Entries
import YamlQuery.Double.Decimal

/-!
# Document.Value — documents

A document is a tree of mappings with texts as keys, sequences and scalars.  A mapping keeps its
entries in the order of insertion.  `Value.Distinct` says that no mapping of the tree has a key
twice, which holds of everything that the readers and the edits build.

`scalarText?` is the plain text of a scalar, which keys, tokens and printed values are compared
with; `compact` is the text of a whole value on one line.
-/

namespace YamlQuery

/-- A number of a document.  An integer and a double of equal value are different numbers. -/
inductive Number
  | integer (n : Int64)
  | double (x : Double)
deriving DecidableEq, Repr

/-- The number as a double, rounded if it has to be. -/
def Number.toDouble : Number → Double
  | .integer n => .ofInt n.toInt
  | .double x => x

/-- All digits of the number. -/
def Number.text : Number → List Char
  | .integer n => Text.decimalInt n.toInt
  | .double x => Double.Layout.text.write x

/-- A document or a node of one. -/
inductive Value
  | null
  | boolean (b : Bool)
  | number (n : Number)
  | string (s : String)
  | sequence (items : List Value)
  | mapping (entries : List (String × Value))
deriving Inhabited

namespace Value

/-! ### Equality -/

mutual

def decEq : (a b : Value) → Decidable (a = b)
  | .null, .null => isTrue rfl
  | .boolean a, .boolean b => if h : a = b then isTrue (h ▸ rfl) else isFalse (by simp [h])
  | .number a, .number b => if h : a = b then isTrue (h ▸ rfl) else isFalse (by simp [h])
  | .string a, .string b => if h : a = b then isTrue (h ▸ rfl) else isFalse (by simp [h])
  | .sequence a, .sequence b =>
    match decEqItems a b with
    | isTrue h => isTrue (h ▸ rfl)
    | isFalse h => isFalse (by simp [h])
  | .mapping a, .mapping b =>
    match decEqEntries a b with
    | isTrue h => isTrue (h ▸ rfl)
    | isFalse h => isFalse (by simp [h])
  | .null, .boolean _ | .null, .number _ | .null, .string _ | .null, .sequence _
  | .null, .mapping _ | .boolean _, .null | .boolean _, .number _ | .boolean _, .string _
  | .boolean _, .sequence _ | .boolean _, .mapping _ | .number _, .null | .number _, .boolean _
  | .number _, .string _ | .number _, .sequence _ | .number _, .mapping _ | .string _, .null
  | .string _, .boolean _ | .string _, .number _ | .string _, .sequence _ | .string _, .mapping _
  | .sequence _, .null | .sequence _, .boolean _ | .sequence _, .number _ | .sequence _, .string _
  | .sequence _, .mapping _ | .mapping _, .null | .mapping _, .boolean _ | .mapping _, .number _
  | .mapping _, .string _ | .mapping _, .sequence _ => isFalse (by simp)

def decEqItems : (a b : List Value) → Decidable (a = b)
  | [], [] => isTrue rfl
  | [], _ :: _ => isFalse (by simp)
  | _ :: _, [] => isFalse (by simp)
  | a :: as, b :: bs =>
    match decEq a b, decEqItems as bs with
    | isTrue h, isTrue t => isTrue (by simp [h, t])
    | isFalse h, _ => isFalse (by simp [h])
    | _, isFalse t => isFalse (by simp [t])

def decEqEntries : (a b : List (String × Value)) → Decidable (a = b)
  | [], [] => isTrue rfl
  | [], _ :: _ => isFalse (by simp)
  | _ :: _, [] => isFalse (by simp)
  | (k, a) :: as, (l, b) :: bs =>
    if hk : k = l then
      match decEq a b, decEqEntries as bs with
      | isTrue h, isTrue t => isTrue (by simp [hk, h, t])
      | isFalse h, _ => isFalse (by simp [h])
      | _, isFalse t => isFalse (by simp [t])
    else isFalse (by simp [hk])

end

instance : DecidableEq Value := decEq

/-! ### Kinds of nodes -/

/-- The word for the kind of a node. -/
def kind : Value → String
  | .mapping _ => "mapping"
  | .sequence _ => "sequence"
  | .string _ => "string"
  | .number _ => "number"
  | .boolean _ => "boolean"
  | .null => "null"

def isMapping : Value → Bool
  | .mapping _ => true
  | _ => false

def isSequence : Value → Bool
  | .sequence _ => true
  | _ => false

def isNull : Value → Bool
  | .null => true
  | _ => false

/-- A mapping or a sequence. -/
def isContainer (v : Value) : Bool := v.isMapping || v.isSequence

def isScalar (v : Value) : Bool := !v.isContainer

/-- A mapping of scalars. -/
def isShallowMapping : Value → Bool
  | .mapping es => es.all (·.2.isScalar)
  | _ => false

def entries? : Value → Option (Entries Value)
  | .mapping es => some es
  | _ => none

/-! ### Text -/

def booleanText (b : Bool) : String := if b then "true" else "false"

/-- The plain text of a scalar. -/
def scalarText? : Value → Option String
  | .string s => some s
  | .number n => some (String.ofList n.text)
  | .boolean b => some (booleanText b)
  | .null => some "null"
  | .sequence _ | .mapping _ => none

mutual

/-- The value on one line, texts without quotes. -/
def compact : Value → List Char
  | .null => "null".toList
  | .boolean b => (booleanText b).toList
  | .number n => n.text
  | .string s => s.toList
  | .sequence items => '[' :: (compactItems true items ++ [']'])
  | .mapping entries => '\x7b' :: (compactEntries true entries ++ ['\x7d'])

def compactItems (first : Bool) : List Value → List Char
  | [] => []
  | v :: vs => (if first then [] else [',', ' ']) ++ compact v ++ compactItems false vs

def compactEntries (first : Bool) : List (String × Value) → List Char
  | [] => []
  | (k, v) :: es =>
    (if first then [] else [',', ' ']) ++ k.toList ++ [':', ' '] ++ compact v ++
      compactEntries false es

end

/-! ### Distinct keys -/

mutual

/-- No mapping in the value has a key twice. -/
def Distinct : Value → Prop
  | .sequence items => DistinctItems items
  | .mapping entries => Entries.Distinct entries ∧ DistinctEntries entries
  | _ => True

def DistinctItems : List Value → Prop
  | [] => True
  | v :: vs => Distinct v ∧ DistinctItems vs

def DistinctEntries : List (String × Value) → Prop
  | [] => True
  | (_, v) :: es => Distinct v ∧ DistinctEntries es

end

theorem distinctItems_iff {items : List Value} : DistinctItems items ↔ ∀ v ∈ items, v.Distinct := by
  induction items with
  | nil => simp [DistinctItems]
  | cons v vs ih => simp [DistinctItems, ih]

theorem distinctEntries_iff {entries : List (String × Value)} :
    DistinctEntries entries ↔ ∀ e ∈ entries, e.2.Distinct := by
  induction entries with
  | nil => simp [DistinctEntries]
  | cons e es ih => simp [DistinctEntries, ih]

end Value

end YamlQuery

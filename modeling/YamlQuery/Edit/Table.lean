import YamlQuery.Edit.Visitor

/-!
# Edit.Table — tables of fields

Every mapping that a path leads to is a row with the values of the given fields, and so is every
mapping in a sequence it leads to.  `Table.format` sets the rows in columns.
-/

namespace YamlQuery

/-- The fields of a table and its rows so far. -/
structure Table where
  fields : List String
  rows : List (List Value) := []

namespace Table

/-- The values of the fields in a mapping. -/
def row (path : String) (es : Entries Value) : List String → Except EditError (List Value)
  | [] => .ok []
  | f :: fs =>
    match es.get? f with
    | none => .error (.missingField f path)
    | some v =>
      match row path es fs with
      | .ok vs => .ok (v :: vs)
      | .error e => .error e

/-- Adds a row for every mapping in turn. -/
def addRows (path : String) : List (Entries Value) → Table → Table × Option EditError
  | [], t => (t, none)
  | es :: rest, t =>
    match row path es t.fields with
    | .ok r => addRows path rest { t with rows := t.rows ++ [r] }
    | .error e => (t, some e)

/-- The mappings that are rows where a path leads to this value. -/
def mappings : Value → List (Entries Value)
  | .mapping [] => []
  | .mapping es => [es]
  | .sequence items => items.filterMap (·.entries?)
  | _ => []

def visitor : Visitor Table := .ofSites fun site t =>
  let path := site.path.joinKeys site.trail
  match mappings site.value with
  | [] => (t, some (.noSubElements path))
  | rows => addRows path rows t

/-! ### Columns -/

/-- The text filled up with blanks to a width. -/
def pad (width : Nat) (s : List Char) : List Char :=
  s ++ List.replicate (width - s.length) ' '

/-- The width of a column: that of its widest cell. -/
def width (cells : List (List (List Char))) (column : Nat) : Nat :=
  cells.foldl (fun w row => max w ((row[column]?.getD []).length)) 0

/-- The widths of all columns. -/
def widths (cells : List (List (List Char))) : List Nat :=
  (List.range (cells.foldl (fun n row => max n row.length) 0)).map (width cells)

/-- The cells of a row, each filled up to the width of its column, two blanks between them. -/
def line : List Nat → List (List Char) → List Char
  | w :: _, [c] => pad w c
  | w :: ws, c :: cs => pad w c ++ ' ' :: ' ' :: line ws cs
  | _, _ => []

/-- The rows in columns, a line for each, without blanks at the ends of lines. -/
def format (rows : List (List Value)) : List Char :=
  let cells := rows.map (·.map Value.compact)
  let ws := widths cells
  cells.flatMap fun row => Text.trimEnd (line ws row) ++ ['\n']

end Table

end YamlQuery

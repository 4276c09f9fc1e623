import YamlQuery.Document.Entries

/-!
# Toml — values and tables

A TOML text is a table of values.  Numbers with a fraction and moments are kept as written.  How a
table came to be decides in which ways a text may add to it.
-/

namespace YamlQuery

/-- How a table came to be: by a header of its own, on the way to another header, by a key with
dots, or between braces. -/
inductive TableOrigin
  | header
  | passed
  | dotted
  | braces
deriving DecidableEq

inductive Toml
  | string (s : String)
  | integer (i : Int)
  | float (text : String)
  | boolean (b : Bool)
  | moment (text : String)
  | array (items : List Toml)
  | table (origin : TableOrigin) (entries : List (String × Toml))
  /-- tables with one header each -/
  | tables (items : List (List (String × Toml)))

namespace Toml

/-- Changes the table that keys lead to; a table that is missing on the way is made, of an array of
tables the last one is meant.  Keys with dots may not lead through tables with headers of their
own. -/
def modify? (made : TableOrigin) (keys : List String)
    (change? : TableOrigin → List (String × Toml) → Option (List (String × Toml)))
    (origin : TableOrigin) (table : List (String × Toml)) : Option (List (String × Toml)) :=
  match keys with
  | [] => change? origin table
  | k :: ks =>
    match Entries.get? k table with
    | none => (modify? made ks change? made []).map fun t => Entries.put k (.table made t) table
    | some (.table o t) =>
      if o = .braces || made = .dotted && o = .header then none
      else (modify? made ks change? o t).map fun t => Entries.put k (.table o t) table
    | some (.tables ts) =>
      match ts.getLast? with
      | some t => (modify? made ks change? .header t).map fun t =>
        Entries.put k (.tables (ts.dropLast ++ [t])) table
      | none => none
    | some _ => none

/-- Enters a new key, which may have dots. -/
def enter? (keys : List String) (key : String) (value : Toml) (table : List (String × Toml)) :
    Option (List (String × Toml)) :=
  modify? .dotted keys (fun origin t =>
    if (Entries.get? key t).isSome || (origin = .dotted) != !keys.isEmpty then none
    else some (Entries.put key value t)) .header table

/-- Opens the table of a header. -/
def open? (keys : List String) (key : String) (table : List (String × Toml)) :
    Option (List (String × Toml)) :=
  modify? .passed keys (fun _ t =>
    match Entries.get? key t with
    | none => some (Entries.put key (.table .header []) t)
    | some (.table .passed t') => some (Entries.put key (.table .header t') t)
    | some _ => none) .header table

/-- Opens another table of an array of tables. -/
def append? (keys : List String) (key : String) (table : List (String × Toml)) :
    Option (List (String × Toml)) :=
  modify? .passed keys (fun _ t =>
    match Entries.get? key t with
    | none => some (Entries.put key (.tables [[]]) t)
    | some (.tables ts) => some (Entries.put key (.tables (ts ++ [[]])) t)
    | some _ => none) .header table

end Toml

end YamlQuery

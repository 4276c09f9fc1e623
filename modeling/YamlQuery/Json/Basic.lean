import YamlQuery.Numeral

/-!
# Json — JSON values

An object keeps its members in the order of the text.
-/

namespace YamlQuery

/-- A JSON value. -/
inductive Json
  | null
  | boolean (b : Bool)
  | number (n : Numeral)
  | string (s : String)
  | array (items : List Json)
  | object (members : List (String × Json))
deriving Inhabited

end YamlQuery

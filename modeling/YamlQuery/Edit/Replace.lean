import YamlQuery.Edit.Visitor

/-!
# Edit.Replace — new values for the entries that match

Values are replaced at the end of the walk.
-/

namespace YamlQuery

/-- The new value, the entries to replace, and how many have been replaced. -/
structure Replace where
  data : Value
  pending : List Target := []
  replaced : Nat := 0

def Replace.visitor : Visitor Replace where
  visit
    | .fully site, r => ({ r with pending := r.pending ++ [.ofSite site] }, none)
    | _, r => (r, none)
  finish doc r :=
    let (doc, replaced) := Target.applyAll (·.replace? r.data) r.pending doc r.replaced
    ({ r with pending := [], replaced }, .ok doc)

end YamlQuery

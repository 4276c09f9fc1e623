import YamlQuery.Edit.Visitor

/-!
# Edit.Delete — deleting the entries that match

Entries are deleted at the end of the walk.
-/

namespace YamlQuery

/-- The entries to delete, and how many have been deleted. -/
structure Delete where
  pending : List Target := []
  deleted : Nat := 0

def Delete.visitor : Visitor Delete where
  visit
    | .fully site, d => ({ d with pending := d.pending ++ [.ofSite site] }, none)
    | _, d => (d, none)
  finish doc d :=
    let (doc, deleted) := Target.applyAll Target.erase? d.pending doc d.deleted
    ({ pending := [], deleted }, .ok doc)

end YamlQuery

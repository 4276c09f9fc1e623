import YamlQuery.Edit.Visitor

/-!
# Edit.Collect — reading values and listing paths

`Read` collects the values of the keys that match, `ListPaths` the keys on the way to them.
-/

namespace YamlQuery

/-- The values read so far. -/
structure Read where
  values : List Value := []

def Read.visitor : Visitor Read :=
  .ofSites fun site r => ({ values := r.values ++ [site.value] }, none)

/-- The paths listed so far. -/
structure ListPaths where
  paths : List String := []

def ListPaths.visitor : Visitor ListPaths :=
  .ofSites fun site l => ({ paths := l.paths ++ [site.path.joinKeys site.trail] }, none)

end YamlQuery

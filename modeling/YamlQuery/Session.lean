import YamlQuery.Files.Document

/-!
# Session — what the statements of a run share

The settings of a run, and the values that have been stored under names.
-/

namespace YamlQuery

/-- Values by name, in the order in which the names came in. -/
abbrev Memory := Entries Value

structure Session where
  settings : Settings := {}
  memory : Memory := []

end YamlQuery

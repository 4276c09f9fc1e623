import YamlQuery.Files.Basic

/-!
# Files.Change — what turns some files into others

The changes between two states of the files, in an order in which they can be made: directories
before the files in them.
-/

namespace YamlQuery

inductive Change
  | makeDirectory (place : String)
  | write (place : String) (content : ByteArray)
  | remove (place : String)

namespace Files

/-- The change that a new node asks for, if the old files do not have it already. -/
def newNode? (old : Files) : String × Node → Option Change
  | (place, .directory) => if old.isDirectory place then none else some (.makeDirectory place)
  | (place, .file content) =>
    match old.node? place with
    | some (.file before) => if before.toList = content.toList then none
      else some (.write place content)
    | _ => some (.write place content)

/-- The changes that turn the old files into the new ones. -/
def changes (old new : Files) : List Change :=
  new.nodes.filterMap old.newNode? ++
    (old.nodes.filter fun (place, _) => (new.node? place).isNone).map fun (place, _) =>
      .remove place

end Files

end YamlQuery

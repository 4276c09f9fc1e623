import YamlQuery.Text.Split

/-!
# Files.Path — paths as texts

The names in a path stand between slashes.  Pieces that are empty or `.` count for nothing, apart
from a `.` at the very start.  The functions here look at the text alone, never at files.
-/

namespace YamlQuery.Path

/-- The pieces between the slashes of a path. -/
def pieces (path : String) : List (List Char) := Text.splitOn ['/'] path.toList

def isAbsolute (path : String) : Bool := path.toList.head? == some '/'

/-- A piece that counts for nothing. -/
def isIdle (piece : List Char) : Bool := piece == [] || piece == ['.']

/-- The pieces up to the last one that counts. -/
def upToName (pieces : List (List Char)) : List (List Char) :=
  (pieces.reverse.dropWhile isIdle).reverse

/-- The last name of a path, if it is not `..`. -/
def fileName? (path : String) : Option (List Char) :=
  (upToName (pieces path)).getLast?.filter (· != ['.', '.'])

/-- The texts before and behind the last dot of a name, unless nothing stands before it. -/
def cutExtension? (name : List Char) : Option (List Char × List Char) :=
  let behind := name.reverse.takeWhile (· != '.')
  match name.reverse.drop behind.length with
  | _ :: c :: before => some ((c :: before).reverse, behind.reverse)
  | _ => none

/-- What stands behind the last dot of the last name. -/
def extension? (path : String) : Option (List Char) :=
  ((fileName? path).bind cutExtension?).map (·.2)

/-- The path with another extension on its last name, and without what follows that name. -/
def withExtension (extension : List Char) (path : String) : String :=
  match fileName? path with
  | none => path
  | some name =>
    let stem := match cutExtension? name with
      | some (stem, _) => stem
      | none => name
    String.ofList (Text.join ['/']
      ((upToName (pieces path)).dropLast ++ [stem ++ '.' :: extension]))

/-- The directory that a path names before its last name. -/
def base? (path : String) : Option String :=
  match (upToName (pieces path)).dropLast with
  | [] => none
  | front =>
    match upToName front with
    | [] => some (if isAbsolute path then "/" else ".")
    | ps => some (String.ofList (Text.join ['/'] ps))

/-- A path that starts in a directory, unless it is absolute. -/
def within (dir path : String) : String :=
  if isAbsolute path then path
  else if dir.toList.getLast? = some '/' then dir ++ path
  else dir ++ "/" ++ path

/-- The path beside another one with a last name of its own. -/
def beside (path name : String) : String :=
  match base? path with
  | some dir => within dir name
  | none => name

end YamlQuery.Path

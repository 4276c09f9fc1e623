import YamlQuery.Document.Entries
import YamlQuery.Files.Path

/-!
# Files — files and directories as a value

Files and directories stand at places, which are texts with a slash before each name; the root is
the empty text and always a directory.  A path leads to a place if every name on the way is that of
a directory; the last name may be that of nothing yet.

`read?` and `write?` are tied by `read?_write?`: what is written is read back, and every place that
is not written keeps what it had.
-/

namespace YamlQuery

/-- What stands at a place. -/
inductive Node
  | file (content : ByteArray)
  | directory

/-- The files by their places, and the place at which relative paths start. -/
structure Files where
  nodes : Entries Node := []
  current : String := ""

namespace Files

/-- What stands at a place. -/
def node? (fs : Files) (place : String) : Option Node :=
  if place.isEmpty then some .directory else fs.nodes.get? place

def isDirectory (fs : Files) (place : String) : Bool :=
  match fs.node? place with
  | some .directory => true
  | _ => false

/-- The place above a place. -/
def above (place : String) : String :=
  String.ofList ((place.toList.reverse.dropWhile (· != '/')).drop 1).reverse

/-- The longest name in bytes. -/
def longestName : Nat := 255

/-- A name that files can have. -/
def isName (name : List Char) : Bool :=
  !name.contains '\x00' && (String.ofList name).utf8ByteSize ≤ longestName

/-- The place to which a piece of a path leads from a place. -/
def enter? (fs : Files) (place : String) (piece : List Char) : Option String :=
  if !fs.isDirectory place then none
  else if Path.isIdle piece then some place
  else if piece = ['.', '.'] then some (above place)
  else if isName piece then some (place ++ "/" ++ String.ofList piece)
  else none

/-- The place at which a path starts. -/
def start (fs : Files) (path : String) : String :=
  if Path.isAbsolute path then "" else fs.current

/-- The place to which a path leads. -/
def place? (fs : Files) (path : String) : Option String :=
  if path.isEmpty then none else (Path.pieces path).foldlM fs.enter? (fs.start path)

/-- A file or a directory stands where the path leads. -/
def holds (fs : Files) (path : String) : Bool :=
  ((fs.place? path).bind fs.node?).isSome

/-- The content of a file. -/
def read? (fs : Files) (path : String) : Option ByteArray :=
  match (fs.place? path).bind fs.node? with
  | some (.file content) => some content
  | _ => none

/-- The files with a file at a place. -/
def put (fs : Files) (place : String) (content : ByteArray) : Files :=
  { fs with nodes := fs.nodes.put place (.file content) }

/-- The files after a file has been written, in the place of an old one or as a new one. -/
def write? (fs : Files) (path : String) (content : ByteArray) : Option Files :=
  match fs.place? path with
  | none => none
  | some place => if fs.isDirectory place then none else some (fs.put place content)

/-- The files after a file has been written with the content of another. -/
def copy? (fs : Files) (source target : String) : Option Files :=
  (fs.read? source).bind (fs.write? target)

/-- The files after a file has got another path, and any old file there is gone. -/
def move? (fs : Files) (source target : String) : Option Files :=
  match fs.place? source, fs.read? source, fs.place? target with
  | some place, some content, some new =>
    if fs.isDirectory new then none
    else some ({ fs with nodes := fs.nodes.erase place }.put new content)
  | _, _, _ => none

/-- The files and the place to which a piece of a path leads, where a directory is made if nothing
is there. -/
def enterMade? : Files × String → List Char → Option (Files × String)
  | (fs, place), piece =>
    (fs.enter? place piece).map fun place =>
      match fs.node? place with
      | some _ => (fs, place)
      | none => ({ fs with nodes := fs.nodes.put place .directory }, place)

/-- The files after all directories on a path have been made that were missing. -/
def makeDirectory? (fs : Files) (path : String) : Option Files :=
  match (Path.pieces path).foldlM enterMade? (fs, fs.start path) with
  | some (fs, place) => if fs.isDirectory place then some fs else none
  | none => none

/-! ### What is written is read -/

theorem node?_put {fs : Files} {place : String} (h : fs.isDirectory place = false)
    (content : ByteArray) (p : String) :
    (fs.put place content).node? p = if p = place then some (.file content) else fs.node? p := by
  have hp : place.isEmpty = false := by
    rw [Bool.eq_false_iff]
    intro he
    simp [isDirectory, node?, he] at h
  simp only [node?, put, Entries.get?_put]
  by_cases hpe : p.isEmpty
  · have : p ≠ place := by
      rintro rfl
      simp [hpe] at hp
    simp [hpe, this]
  · simp [hpe]

theorem isDirectory_put {fs : Files} {place : String} (h : fs.isDirectory place = false)
    (content : ByteArray) : (fs.put place content).isDirectory = fs.isDirectory := by
  funext p
  by_cases hp : p = place
  · subst hp
    rw [h, isDirectory, node?_put h]
    simp
  · simp [isDirectory, node?_put h, hp]

theorem place?_put {fs : Files} {place : String} (h : fs.isDirectory place = false)
    (content : ByteArray) (path : String) :
    (fs.put place content).place? path = fs.place? path := by
  have : (fs.put place content).enter? = fs.enter? := by
    funext p piece
    simp [enter?, isDirectory_put h]
  rw [place?, place?, this]
  rfl

/-- What is written is read back, and what another place holds stays. -/
theorem read?_write? {fs fs' : Files} {path : String} {content : ByteArray}
    (h : fs.write? path content = some fs') (path' : String) :
    fs'.read? path' =
      if fs.place? path' = fs.place? path then some content else fs.read? path' := by
  rw [write?] at h
  split at h
  · cases h
  · next place hplace =>
    split at h
    · cases h
    · next hdir =>
      cases h
      have hdir : fs.isDirectory place = false := by simpa using hdir
      simp only [read?, place?_put hdir, hplace]
      cases hp : fs.place? path' with
      | none => simp
      | some p =>
        by_cases hpp : p = place
        · simp [hpp, node?_put hdir]
        · simp [hpp, node?_put hdir]

end Files

end YamlQuery

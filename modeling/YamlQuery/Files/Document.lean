import YamlQuery.Document.Yaml
import YamlQuery.Files.Basic
import YamlQuery.Gzip.Basic
import YamlQuery.Settings.Toml

/-!
# Files.Document — documents and settings in files

The end of a path says in which format a document is: `.json`, `.yaml` or `.yml`, in small or
capital letters, perhaps with `.gz` behind it for a compressed file.  A document is saved by writing
a file beside the target and moving it there.
-/

namespace YamlQuery

inductive DocumentFormat
  | yaml
  | json
deriving DecidableEq

namespace DocumentFormat

/-- A text without an ending, if it has that. -/
def withoutEnd (ending s : List Char) : List Char :=
  if ending.isSuffixOf s then s.take (s.length - ending.length) else s

/-- The ending of the paths of compressed files. -/
def compressedEnd : List Char := ".gz".toList

/-- The format that a path names. -/
def ofPath? (path : String) : Option DocumentFormat :=
  let s := withoutEnd compressedEnd (Text.lower path.toList)
  if ".json".toList.isSuffixOf s then some .json
  else if ".yaml".toList.isSuffixOf s || ".yml".toList.isSuffixOf s then some .yaml
  else none

/-- The document that a text in the format holds. -/
def read? (f : DocumentFormat) (text : String) : Option Value :=
  match f with
  | .yaml => Value.readYaml? text
  | .json => Value.readJson? text

/-- The document as a text in the format; JSON is indented. -/
def write (f : DocumentFormat) (indent : Nat) (v : Value) : String :=
  match f with
  | .yaml => v.writeYaml
  | .json => v.writeJson indent

end DocumentFormat

/-- The format of output that no path decides. -/
def Settings.format (s : Settings) : DocumentFormat := if s.writesJson then .json else .yaml

/-- Why a file cannot be read or written. -/
inductive FileError
  | unread (path : String)
  | unexpanded (path : String)
  | unparsed (path : String)
  | unsaved (path : String)
  | noFileName
  | noBackup
  | settingsUnread (path : String)
  | settingsUnparsed (path : String)
  | settingsUnsaved
deriving DecidableEq

/-- The message of an error, where it has one of its own. -/
def FileError.message? : FileError → Option String
  | .unread p => some s!"Failed to read {p}"
  | .unexpanded p => some s!"Failed to decompress {p}"
  | .unparsed p => some s!"Failed to load {p}"
  | .unsaved p => some s!"Failed to save {p}"
  | .noFileName => some "Invalid file name"
  | .noBackup => some "Failed to create backup"
  | .settingsUnread p => some s!"Failed to read config file: {p}"
  | .settingsUnparsed p => some s!"Failed to parse config file: {p}"
  | .settingsUnsaved => none

namespace Files

/-! ### Texts -/

/-- The text that compressed bytes hold. -/
def expandText? (bytes : ByteArray) : Option String :=
  (Gzip.expand? bytes.data.toList).bind fun out => String.fromUTF8? ⟨out.toArray⟩

/-- The text as compressed bytes. -/
def compressText (text : String) : ByteArray :=
  ⟨(Gzip.compress text.toUTF8.data.toList).toArray⟩

/-- The path is that of a compressed file, to be read. -/
def isCompressed (path : String) : Bool :=
  (Path.extension? path).any fun e => Text.lower e == ['g', 'z']

/-- The text of a file. -/
def readText (fs : Files) (path : String) : Except FileError String :=
  match fs.read? path with
  | none => .error (.unread path)
  | some bytes =>
    if isCompressed path then
      match expandText? bytes with
      | some text => .ok text
      | none => .error (.unexpanded path)
    else
      match String.fromUTF8? bytes with
      | some text => .ok text
      | none => .error (.unread path)

/-! ### Documents -/

/-- The document of a file; one without a format in its path is YAML. -/
def load (fs : Files) (path : String) : Except FileError Value :=
  match fs.readText path with
  | .error e => .error e
  | .ok text =>
    match ((DocumentFormat.ofPath? path).getD .yaml).read? text with
    | some v => .ok v
    | none => .error (.unparsed path)

/-- The document that comes in as bytes, which may be compressed. -/
def loadBytes? (bytes : ByteArray) : Option Value :=
  (if Gzip.magic.isPrefixOf bytes.data.toList then expandText? bytes
    else String.fromUTF8? bytes).bind Value.readYaml?

/-- The bytes of a document under a path. -/
def encode (settings : Settings) (path : String) (v : Value) : ByteArray :=
  let text := ((DocumentFormat.ofPath? path).getD settings.format).write settings.indentSize v
  if DocumentFormat.compressedEnd.isSuffixOf path.toList then compressText text else text.toUTF8

/-- The path at which a file is kept before it is overwritten. -/
def backupPath? (path : String) : Option String :=
  (Path.fileName? path).map fun n => Path.beside path (String.ofList (n ++ ".bak".toList))

/-- The files with a file kept as a backup. -/
def backUp (fs : Files) (path : String) : Except FileError Files :=
  match backupPath? path with
  | none => .error .noFileName
  | some backup =>
    match fs.copy? path backup with
    | some fs => .ok fs
    | none => .error .noBackup

/-- The path at which a file is written before it is moved. -/
def draftPath (path : String) : String := Path.withExtension "tmp".toList path

/-- Writes a file by way of its draft path.  The draft stays where it cannot be moved. -/
def replace (fs : Files) (path : String) (content : ByteArray) : Except FileError Unit × Files :=
  match fs.write? (draftPath path) content with
  | none => (.error (.unsaved path), fs)
  | some fs =>
    match fs.move? (draftPath path) path with
    | none => (.error (.unsaved path), fs)
    | some fs => (.ok (), fs)

/-- Saves a document, with a backup of an old file if the settings ask for that. -/
def save (fs : Files) (settings : Settings) (path : String) (v : Value) :
    Except FileError Unit × Files :=
  match if settings.createBackup && fs.holds path then fs.backUp path else .ok fs with
  | .error e => (.error e, fs)
  | .ok fs => fs.replace path (encode settings path v)

/-! ### Settings -/

/-- The settings in a file. -/
def loadSettings (fs : Files) (path : String) : Except FileError Settings :=
  match (fs.read? path).bind (String.fromUTF8? ·) with
  | none => .error (.settingsUnread path)
  | some text =>
    match Settings.parse? text with
    | some s => .ok s
    | none => .error (.settingsUnparsed path)

/-- The path of the settings of a user with a home directory. -/
def settingsPath (home : String) : String := Path.within home ".config/yamlpipe/config.toml"

/-- The settings of a user, the usual ones where they cannot be read. -/
def userSettings (fs : Files) (home : String) : Settings :=
  match fs.loadSettings (settingsPath home) with
  | .ok s => s
  | .error _ => {}

/-- Writes settings to a file, in a directory that is made if it is missing. -/
def saveSettings (fs : Files) (path : String) (s : Settings) : Except FileError Unit × Files :=
  match (match Path.base? path with
    | some dir => fs.makeDirectory? dir
    | none => some fs) with
  | none => (.error .settingsUnsaved, fs)
  | some fs =>
    match fs.write? path s.write.toUTF8 with
    | some fs => (.ok (), fs)
    | none => (.error .settingsUnsaved, fs)

end Files

end YamlQuery

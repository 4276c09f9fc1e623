import YamlQuery.Command.Basic
import YamlQuery.Edit.Collect
import YamlQuery.Edit.Delete
import YamlQuery.Edit.Insert
import YamlQuery.Edit.Replace
import YamlQuery.Edit.Table
import YamlQuery.Reference
import YamlQuery.Substitute

/-!
# Command.Run — what commands give

A command turns a document into a document: `read`, `list` and `table` into a sequence of what they
find, the others into the changed document.  It changes nothing else.
-/

namespace YamlQuery

/-- Why a command fails. -/
inductive CommandError
  | path (e : PathError)
  | edit (e : EditError)
  | reference (e : ReferenceError)
  | usage (e : UsageError)
deriving DecidableEq

namespace Command

/-- The path of a command. -/
def keyPath (settings : Settings) (p : PathText) : Except CommandError KeyPath :=
  match KeyPath.parse p.text (p.delimiter.getD settings.delimiter) with
  | .ok path => .ok path
  | .error e => .error (.path e)

/-- The document of a reference in a command. -/
def data (fs : Files) (memory : Memory) (text : String) : Except CommandError Value :=
  match Reference.resolve fs memory text with
  | .ok v => .ok v
  | .error e => .error (.reference e)

/-- The state and the document after a visitor has run. -/
def visited {σ : Type} (v : Visitor σ) (settings : Settings) (path : KeyPath) (doc : Value)
    (state : σ) : Except CommandError (σ × Value) :=
  match v.run settings.strictSequences path doc state with
  | ⟨state, doc, .ok _⟩ => .ok (state, doc)
  | ⟨_, _, .error e⟩ => .error (.edit e)

/-- The names of fields in a text, with the delimiter of a path between them. -/
def fieldNames (delimiter fields : String) : List String :=
  ((Text.splitOn delimiter.toList fields.toList).map Text.trim).filter (! ·.isEmpty)
    |>.map String.ofList

/-- The document to insert into: an empty mapping where there is none. -/
def insertable : Value → Value
  | .null => .mapping []
  | v => v

/-- The document that a command makes of a document.  Properties that it does not bring itself are
taken from others. -/
def run (inherited : Lookup) (session : Session) (fs : Files) (doc : Value) :
    Command → Except CommandError Value
  | .read p => do
    let path ← keyPath session.settings p
    let (state, _) ← visited Read.visitor session.settings path doc {}
    return .sequence state.values
  | .list p => do
    let path ← keyPath session.settings p
    let (state, _) ← visited ListPaths.visitor session.settings path doc {}
    return .sequence (state.paths.map .string)
  | .table p fields => do
    let path ← keyPath session.settings p
    let start : Table := { fields := fieldNames path.delimiter fields }
    let (state, _) ← visited Table.visitor session.settings path doc start
    return .sequence (state.rows.map .sequence)
  | .delete p => do
    let path ← keyPath session.settings p
    let (_, doc) ← visited Delete.visitor session.settings path doc {}
    return doc
  | .insert p text => do
    let path ← keyPath session.settings p
    let data ← data fs session.memory text
    let (_, doc) ← visited Insert.visitor session.settings path (insertable doc) { data }
    return doc
  | .replace p text => do
    let path ← keyPath session.settings p
    let data ← data fs session.memory text
    let (_, doc) ← visited Replace.visitor session.settings path doc { data }
    return doc
  | .substitute text =>
    match Reference.properties fs session.memory text with
    | .error e => .error (.reference e)
    | .ok ps =>
      let lookup : Lookup := fun name => (ps.get? name).or (inherited name)
      .ok (Substitute.value lookup session.settings.tokenNamespace doc).1

end Command

end YamlQuery

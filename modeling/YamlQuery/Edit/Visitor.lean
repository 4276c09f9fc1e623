import YamlQuery.Walk

/-!
# Edit.Visitor — what is done on a walk

A visitor has a state.  It sees the events of a walk one by one, and at the end of the walk it may
change the document.  An event that it refuses, or an obstacle, ends the run: the document stays as
it is, and the state stays what it was by then, for the next run.
-/

namespace YamlQuery

/-- Why a run fails. -/
inductive EditError
  | shapeMismatch (path kind pattern : String)
  | missingField (field path : String)
  | noSubElements (path : String)
deriving DecidableEq

namespace EditError

def message : EditError → String
  | .shapeMismatch path kind pattern =>
    s!"Cannot descend into {kind} at '{path}' while matching '{pattern}'"
  | .missingField field path => s!"Field '{field}' not found under '{path}'"
  | .noSubElements path => s!"'{path}' has no sub-elements to build a table row from"

/-- The error of a walk that stopped. -/
def ofObstacle (o : Obstacle) : EditError := .shapeMismatch o.place.text o.kind o.path.text

end EditError

/-- A visitor of walks with states of type `σ`. -/
structure Visitor (σ : Type) where
  visit : Event → σ → σ × Option EditError
  finish : Value → σ → σ × Except EditError Value

namespace Visitor

variable {σ : Type}

/-- Shows events to the visitor up to one that it refuses. -/
def visitAll (v : Visitor σ) : List Event → σ → σ × Option EditError
  | [], s => (s, none)
  | e :: es, s =>
    match v.visit e s with
    | (s, none) => visitAll v es s
    | (s, some err) => (s, some err)

/-- What a run leaves: the state, the document, and whether a key matched. -/
structure Outcome (σ : Type) where
  state : σ
  doc : Value
  result : Except EditError Bool

/-- Runs the visitor along a path.  A path without a segment left is not walked at all. -/
def run (v : Visitor σ) (strict : Bool) (path : KeyPath) (doc : Value) (s : σ) : Outcome σ :=
  if !path.hasNext then ⟨s, doc, .ok false⟩
  else
    let w := doc.walk strict path
    match v.visitAll w.events s with
    | (s, some err) => ⟨s, doc, .error err⟩
    | (s, none) =>
      match w.stop with
      | some o => ⟨s, doc, .error (.ofObstacle o)⟩
      | none =>
        match v.finish doc s with
        | (s, .ok doc) => ⟨s, doc, .ok w.matched⟩
        | (s, .error err) => ⟨s, doc, .error err⟩

/-- A visitor that looks at the keys that match fully and leaves the document alone. -/
def ofSites (visit : Site → σ → σ × Option EditError) : Visitor σ where
  visit
    | .fully site, s => visit site s
    | _, s => (s, none)
  finish doc s := (s, .ok doc)

end Visitor

/-- An entry of a mapping, by the address of the mapping and the key. -/
structure Target where
  parent : Address
  key : String
deriving DecidableEq

namespace Target

def ofSite (s : Site) : Target := ⟨s.parent, s.key⟩

/-- The document with the entry's value set, if the entry is there. -/
def replace? (t : Target) (value : Value) (doc : Value) : Option Value :=
  match doc.get? t.parent with
  | some (.mapping es) =>
    if (Entries.get? t.key es).isSome then
      doc.replace? t.parent (.mapping (Entries.put t.key value es))
    else none
  | _ => none

/-- The document without the entry, if the entry is there. -/
def erase? (t : Target) (doc : Value) : Option Value :=
  match doc.get? t.parent with
  | some (.mapping es) =>
    if (Entries.get? t.key es).isSome then
      doc.replace? t.parent (.mapping (Entries.erase t.key es))
    else none
  | _ => none

/-- Changes the document at each target in turn where that is possible, and counts the changes. -/
def applyAll (change? : Target → Value → Option Value) :
    List Target → Value → Nat → Value × Nat
  | [], doc, n => (doc, n)
  | t :: ts, doc, n =>
    match change? t doc with
    | some doc => applyAll change? ts doc (n + 1)
    | none => applyAll change? ts doc n

end Target

end YamlQuery

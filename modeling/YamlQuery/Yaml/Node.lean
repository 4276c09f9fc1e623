import YamlQuery.Document.Entries
import YamlQuery.Yaml.Token.Basic

/-!
# Yaml.Node — the nodes of a YAML document

A node is a scalar, a sequence or a mapping with the full name of its tag, or an alias.  Anchors are
numbered in the order of the text; an alias holds the number of the anchor that had its name last.
A name that is given again takes the number that the next new name would take, so that number may
come to stand for a later node: of two nodes with one number the later one counts.

`ofTokens?` reads the one document of a text.  What is missing where a node may be missing is the
empty plain scalar.
-/

namespace YamlQuery.Yaml

/-- A node.  `anchored n v` is the node `v` with the anchor of number `n`. -/
inductive Node
  | scalar (tag : Option String) (plain : Bool) (text : String)
  | sequence (tag : Option String) (items : List Node)
  | mapping (tag : Option String) (entries : List (Node × Node))
  | alias (anchor : Nat)
  | anchored (anchor : Nat) (node : Node)
deriving Inhabited

namespace Node

/-- The node that stands where nothing stands. -/
def missing : Node := .scalar none true ""

/-! ### Reading -/

/-- What is left to read, and what the names in the text stand for. -/
structure Reading where
  tokens : List Token
  anchors : Entries Nat := []
  handles : Entries String := []

/-- A step of reading. -/
abbrev Reader := StateT Reading Option

/-- The next token. -/
def peek : Reader Token := do
  match (← get).tokens with
  | t :: _ => return t
  | [] => failure

/-- Behind the next token. -/
def skip : Reader Unit := modify fun r => { r with tokens := r.tokens.drop 1 }

/-- Behind the next token, if it is `t`. -/
def accept (t : Token) : Reader Bool := do
  if (← peek) = t then
    skip
    return true
  else return false

/-- Behind the next token, which has to be `t`. -/
def expect (t : Token) : Reader Unit := do guard (← accept t)

/-- The number of a new anchor. -/
def newAnchor (name : String) : Reader Nat := do
  let r ← get
  set { r with anchors := Entries.put name r.anchors.length r.anchors }
  return r.anchors.length

/-- The full name of a tag. -/
def tagName (handle suffix : String) : Reader String := do
  if handle.isEmpty then return suffix
  else
    match Entries.get? handle (← get).handles with
    | some start => return start ++ suffix
    | none => failure

/-- An anchor that may stand here. -/
def anchor? : Reader (Option String) := do
  match ← peek with
  | .anchor name => do skip; return some name
  | _ => return none

/-- A tag that may stand here. -/
def tag? : Reader (Option String) := do
  match ← peek with
  | .tag handle suffix => do skip; return some (← tagName handle suffix)
  | _ => return none

/-- An anchor and a tag, in any order. -/
def properties : Reader (Option String × Option String) := do
  match ← anchor? with
  | some name => return (some name, ← tag?)
  | none =>
    match ← tag? with
    | some tag => return (← anchor?, some tag)
    | none => return (none, none)

/-- The node of a scalar token.  On a scalar the tag `!` is the same as none. -/
def ofScalar (tag : Option String) (text : String) (style : Style) : Node :=
  .scalar (if tag = some "!" then none else tag) (style = .plain) text

/-- A node with the anchor it may have. -/
def withAnchor (anchor : Option Nat) (n : Node) : Node :=
  match anchor with
  | some a => .anchored a n
  | none => n

/-- Where a node stands decides how it may be written: in a block, also as the value or key of a
block mapping, where a sequence needs no indentation, or in a flow collection. -/
inductive Place
  | block
  | blockMapping
  | flow
deriving DecidableEq

mutual

/-- A node.  The fuel is a bound on the tokens. -/
def node : Nat → Place → Reader Node
  | 0, _ => failure
  | fuel + 1, place => do
    match ← peek with
    | .alias name => do
      skip
      match Entries.get? name (← get).anchors with
      | some a => return .alias a
      | none => failure
    | _ => do
      let (name, tag) ← properties
      let anchor ← name.mapM newAnchor
      let next ← peek
      if place = .blockMapping && next = .entry then
        return withAnchor anchor (.sequence tag (← looseEntries fuel))
      match next with
      | .scalar text style => do
        skip
        return withAnchor anchor (ofScalar tag text style)
      | .flowSequence => do
        skip
        return withAnchor anchor (.sequence tag (← flowItems fuel true))
      | .flowMapping => do
        skip
        return withAnchor anchor (.mapping tag (← flowEntries fuel true))
      | .blockSequence => do
        guard (place ≠ .flow)
        skip
        return withAnchor anchor (.sequence tag (← blockItems fuel))
      | .blockMapping => do
        guard (place ≠ .flow)
        skip
        return withAnchor anchor (.mapping tag (← blockEntries fuel))
      | _ => do
        guard (name.isSome || tag.isSome)
        return withAnchor anchor (.scalar tag true "")

/-- A node, unless one of these tokens comes next. -/
def nodeUnless : Nat → Place → List Token → Reader Node
  | 0, _, _ => failure
  | fuel + 1, place, ends => do
    if ends.contains (← peek) then return missing else node fuel place

/-- The items of a block sequence. -/
def blockItems : Nat → Reader (List Node)
  | 0 => failure
  | fuel + 1 => do
    if ← accept .blockEnd then return []
    expect .entry
    let n ← nodeUnless fuel .block [.entry, .blockEnd]
    return n :: (← blockItems fuel)

/-- The items of a sequence that is indented no more than the mapping around it. -/
def looseEntries : Nat → Reader (List Node)
  | 0 => failure
  | fuel + 1 => do
    if ← accept .entry then
      let n ← nodeUnless fuel .block [.entry, .key, .value, .blockEnd]
      return n :: (← looseEntries fuel)
    else return []

/-- The entries of a block mapping. -/
def blockEntries : Nat → Reader (List (Node × Node))
  | 0 => failure
  | fuel + 1 => do
    if ← accept .blockEnd then return []
    expect .key
    let k ← nodeUnless fuel .blockMapping [.key, .value, .blockEnd]
    let v ←
      if ← accept .value then nodeUnless fuel .blockMapping [.key, .value, .blockEnd]
      else pure missing
    return (k, v) :: (← blockEntries fuel)

/-- The items of a flow sequence.  An item that starts with a key is a mapping with one entry; a
missing key takes the token behind its indicator with it. -/
def flowItems : Nat → Bool → Reader (List Node)
  | 0, _ => failure
  | fuel + 1, first => do
    if ← accept .flowSequenceEnd then return []
    if !first then expect .comma
    if ← accept .key then
      let k ←
        if [.value, .comma, .flowSequenceEnd].contains (← peek) then do skip; pure missing
        else node fuel .flow
      let v ←
        if ← accept .value then nodeUnless fuel .flow [.comma, .flowSequenceEnd]
        else pure missing
      return .mapping none [(k, v)] :: (← flowItems fuel false)
    if ← accept .flowSequenceEnd then return []
    let n ← node fuel .flow
    return n :: (← flowItems fuel false)

/-- The entries of a flow mapping. -/
def flowEntries : Nat → Bool → Reader (List (Node × Node))
  | 0, _ => failure
  | fuel + 1, first => do
    if ← accept .flowMappingEnd then return []
    if !first then expect .comma
    if ← accept .key then
      let k ← nodeUnless fuel .flow [.value, .comma, .flowMappingEnd]
      let v ←
        if ← accept .value then nodeUnless fuel .flow [.comma, .flowMappingEnd]
        else pure missing
      return (k, v) :: (← flowEntries fuel false)
    if ← accept .flowMappingEnd then return []
    let k ← node fuel .flow
    return (k, missing) :: (← flowEntries fuel false)

end

/-! ### Documents -/

/-- The handles that need no directive. -/
def defaultHandles : Entries String := [("!", "!"), ("!!", "tag:yaml.org,2002:")]

/-- The directives, the version and every handle at most once; true if there are any. -/
def directives : Nat → Bool → Reader Bool
  | 0, _ => failure
  | fuel + 1, versioned => do
    match ← peek with
    | .version major minor => do
      guard (!versioned && major = 1 && (minor = 1 || minor = 2))
      skip
      let _ ← directives fuel true
      return true
    | .tagDirective handle start => do
      let r ← get
      guard (!(Entries.keys r.handles).contains handle)
      set { r with handles := r.handles ++ [(handle, start)] }
      skip
      let _ ← directives fuel versioned
      return true
    | _ => return false

/-- Behind the ends of the document. -/
def passEnds : Nat → Reader Unit
  | 0 => failure
  | fuel + 1 => do if ← accept .documentEnd then passEnds fuel

/-- The document of a text, `none` inside if there is none. -/
def document (fuel : Nat) : Reader (Option Node) := do
  if ← accept .streamEnd then return none
  let directed ← directives fuel false
  modify fun r => { r with handles := r.handles ++ defaultHandles }
  let n ←
    if ← accept .documentStart then
      match ← peek with
      | .version .. | .tagDirective .. | .documentStart | .documentEnd | .streamEnd => pure missing
      | _ => node fuel .block
    else do
      guard !directed
      node fuel .block
  passEnds fuel
  expect .streamEnd
  return some n

/-- The document of a text with these tokens, `none` inside if there is none; `none` if the tokens
are no document, or more than one. -/
def ofTokens? (tokens : List Token) : Option (Option Node) :=
  (document (4 * tokens.length + 4) |>.run { tokens }).map (·.1)

/-! ### Anchors -/

mutual

/-- The nodes with anchors, in the order of the text. -/
def anchors : Node → List (Nat × Node)
  | .scalar .. | .alias _ => []
  | .sequence _ items => anchorsOfItems items
  | .mapping _ entries => anchorsOfEntries entries
  | .anchored a n => (a, n) :: anchors n

def anchorsOfItems : List Node → List (Nat × Node)
  | [] => []
  | n :: ns => anchors n ++ anchorsOfItems ns

def anchorsOfEntries : List (Node × Node) → List (Nat × Node)
  | [] => []
  | (k, v) :: es => anchors k ++ anchors v ++ anchorsOfEntries es

end

mutual

/-- How many marks a node consists of: one for a scalar or an alias, two for a collection. -/
def size : Node → Nat
  | .scalar .. | .alias _ => 1
  | .sequence _ items => sizeOfItems items + 2
  | .mapping _ entries => sizeOfEntries entries + 2
  | .anchored _ n => size n

def sizeOfItems : List Node → Nat
  | [] => 0
  | n :: ns => size n + sizeOfItems ns

def sizeOfEntries : List (Node × Node) → Nat
  | [] => 0
  | (k, v) :: es => size k + size v + sizeOfEntries es

end

end Node

end YamlQuery.Yaml

import YamlQuery.Edit.Visitor

/-!
# Edit.Insert — new values, and new branches where a path ends early

Entries that match get the new value.  Of the places where nothing matched, those count at which no
other key matched either; at the deepest of them the rest of the path is created, if its segments
are plain keys.
-/

namespace YamlQuery

/-- A place where nothing matched. -/
structure Missing where
  parent : Address
  path : KeyPath

/-- The new value, the entries that match, the places without a match, the levels (an address and a
cursor) at which some key matched, and how many entries have been replaced and created.  The levels
are kept for the following runs. -/
structure Insert where
  data : Value
  existing : List Target := []
  missing : List Missing := []
  levels : List (Address × Nat) := []
  replaced : Nat := 0
  created : Nat := 0

namespace Insert

/-- The places at which no key matched. -/
def barren (i : Insert) : List Missing :=
  i.missing.filter fun m => !i.levels.contains (m.parent, m.path.cursor)

/-- The first of all places with the same address and path. -/
def distinct : List Missing → List Missing → List Missing
  | kept, [] => kept
  | kept, m :: ms =>
    if kept.any fun k => k.parent = m.parent && k.path.equivalent m.path then distinct kept ms
    else distinct (kept ++ [m]) ms

/-- The deepest places, each once. -/
def deepest (ms : List Missing) : List Missing :=
  let depth := ms.foldl (fun d m => max d m.path.cursor) 0
  distinct [] (ms.filter (·.path.cursor == depth))

/-- The keys of segments that are plain. -/
def keys? (segments : List Segment) : Option (List String) := segments.mapM (·.literal?)

/-- The value below nested mappings of one key each. -/
def nest (data : Value) : List String → Value
  | [] => data
  | k :: ks => .mapping [(k, nest data ks)]

/-- The first key of the rest of a path, and the branch below it. -/
def branch? (data : Value) (path : KeyPath) : Option (String × Value) :=
  match keys? path.remaining with
  | some (k :: ks) => some (k, nest data ks)
  | _ => none

/-- The document with the rest of a path created at a place, if that is possible. -/
def create? (data : Value) (m : Missing) (doc : Value) : Option Value :=
  match branch? data m.path, doc.get? m.parent with
  | some (k, branch), some (.mapping es) =>
    doc.replace? m.parent (.mapping (Entries.put k branch es))
  | _, _ => none

/-- Creates branches at all places in turn, and counts them. -/
def createAll (data : Value) : List Missing → Value → Nat → Value × Nat
  | [], doc, n => (doc, n)
  | m :: ms, doc, n =>
    match create? data m doc with
    | some doc => createAll data ms doc (n + 1)
    | none => createAll data ms doc n

def visitor : Visitor Insert where
  visit
    | .partly site, i =>
      ({ i with levels := (site.parent, site.path.cursor) :: i.levels }, none)
    | .fully site, i =>
      ({ i with
          levels := (site.parent, site.path.cursor) :: i.levels
          existing := i.existing ++ [.ofSite site] }, none)
    | .miss gap, i => ({ i with missing := i.missing ++ [⟨gap.parent, gap.path⟩] }, none)
  finish doc i :=
    let (doc, replaced) := Target.applyAll (·.replace? i.data) i.existing doc i.replaced
    let (doc, created) := createAll i.data (deepest i.barren) doc i.created
    ({ i with existing := [], missing := [], replaced, created }, .ok doc)

end Insert

end YamlQuery

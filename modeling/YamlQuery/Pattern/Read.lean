import YamlQuery.Pattern.Class

/-!
# Pattern.Read — the text of a pattern

A pattern is read from left to right.  Every open group is a level with the alternatives read so
far; a closing parenthesis makes the level one part of the level around it.  Flags hold from where
they are set to the end of the group.

A pattern that nests too deep is none, and neither is one that is too large.  How large a pattern may
be, and which sets it may name, is up to an `Engine`; what is said of patterns and of paths holds for
each, unless it is about `Engine.standard`.
-/

namespace YamlQuery.Pattern

open YamlQuery.Text

/-- A part of a pattern: how deep it nests and about how much room it takes.  Only an element can be
repeated. -/
structure Part where
  re : Re
  depth : Nat := 0
  room : Nat := 0
  repeatable : Bool := true

/-- An open group: the flags behind it, and its alternatives, the last one and its last part
first. -/
structure Level where
  flags : Flags
  branches : List Part := []
  parts : List Part := []

/-- A pattern while it is read. -/
structure Reading where
  rest : List Char
  flags : Flags
  level : Level
  outer : List Level := []
  names : List (List Char) := []

/-- A pattern of which nothing has been read. -/
def Reading.start (sets : NamedSets) (text : List Char) : Reading where
  rest := text
  flags := { sets }
  level := ⟨{ sets }, [], []⟩

/-- The room of one state. -/
def stateRoom : Nat := 32

/-- About how much room a set takes.  In ASCII two states do for all of its runs.  Beyond it each byte
of a character takes one, and sets that go on to the last character have them all. -/
def setRoom (s : CharSet) : Nat :=
  if s.wide then (if s.has (Char.ofNat 0x10FFFF) then 320 else 64) + 25 * s.runs
  else 2 * stateRoom + if 1 < s.runs then 8 * s.runs else 0

/-- The parts one after another, the last one given first. -/
def sequence (parts : List Part) : Part where
  re := parts.foldl (fun r p => .cat p.re r) .empty
  depth := parts.foldl (fun d p => max d p.depth) 0 + if 1 < parts.length then 1 else 0
  room := parts.foldl (fun n p => n + p.room) stateRoom

/-- The alternatives, the last one given first. -/
def alternatives (last : Part) : List Part → Part
  | [] => last
  | p :: ps => {
      re := ps.foldl (fun r p => .alt p.re r) (.alt p.re last.re)
      depth := (p :: ps).foldl (fun d p => max d p.depth) last.depth + 1
      room := (p :: ps).foldl (fun n p => n + p.room) (last.room + stateRoom) }

/-- The whole of a level. -/
def Level.close (l : Level) : Part := alternatives (sequence l.parts) l.branches

namespace Reading

/-- Adds a part to the innermost level. -/
def push (p : Part) (rest : List Char) (r : Reading) : Reading :=
  { r with rest, level := { r.level with parts := p :: r.level.parts } }

/-! ### Elements -/

/-- A character under the flags. -/
def charPart (f : Flags) (c : Char) : Part :=
  let room := setRoom ((CharSet.single c).anyCase (!f.unicode))
  if f.anyCase && f.unicode then { re := .set (Unicode.sameLetter c), room }
  else if f.anyCase && c.toNat < 128 then
    { re := .set fun x => x.toLower == c.toLower, room }
  else { re := .set (· == c), room := c.utf8Size * stateRoom }

def setPart (s : CharSet) (depth : Nat) : Part :=
  { re := .set s.has, depth, room := setRoom s }

def lookPart (l : Look) : Part := { re := .look l, room := stateRoom }

/-- An atom as a part.  An octet beyond ASCII is no text. -/
def atomPart? (f : Flags) : Atom → Option Part
  | .char c octet => if !f.unicode && octet && 128 ≤ c.toNat then none else some (charPart f c)
  | .set s => some (setPart s 0)
  | .look l => some (lookPart l)

/-- Any character but the ends of lines. -/
def dotPart? (f : Flags) : Option Part :=
  if !f.unicode then none
  else
    let p (c : Char) := f.dotAll || !(c == '\n' || (f.returns && c == '\r'))
    some (setPart ⟨p, 2, true⟩ 0)

def startLook (f : Flags) : Look :=
  if !f.multiLine then .textStart else if f.returns then .lineStartReturn else .lineStart

def endLook (f : Flags) : Look :=
  if !f.multiLine then .textEnd else if f.returns then .lineEndReturn else .lineEnd

/-! ### Repetition -/

/-- The largest number of a repetition. -/
def countLimit : Nat := 0x100000000

/-- A number, with white space around it. -/
def count? (f : Flags) (s : List Char) : Option (Option Nat × List Char) :=
  let s := s.dropWhile isBlank
  let visible (s : List Char) := passSpace f s
  let rec digits : Nat → List Char → List Char × List Char
    | 0, s => ([], s)
    | fuel + 1, s =>
      match s with
      | c :: t =>
        if isDigit c then
          let (ds, r) := digits fuel (visible t)
          (c :: ds, r)
        else ([], s)
      | [] => ([], [])
  let (ds, s) := digits (s.length + 1) s
  let s := visible (s.dropWhile isBlank)
  if ds.isEmpty then some (none, s)
  else
    match natOf? 10 ds with
    | some n => if n < countLimit then some (some n, s) else none
    | none => none

/-- The bounds of a repetition behind its brace. -/
def bounds? (f : Flags) (s : List Char) : Option (Nat × Option Nat × List Char) := do
  let (least, s) ← count? f (passSpace f s)
  let least ← least
  match s with
  | '\x7d' :: s => return (least, some least, s)
  | ',' :: s =>
    match passSpace f s with
    | '\x7d' :: s => return (least, none, s)
    | s =>
      let (most, s) ← count? f s
      let most ← most
      guard (least ≤ most)
      match s with
      | '\x7d' :: s => return (least, some most, s)
      | _ => none
  | _ => none

/-- A question mark behind a repetition asks for the shortest match first, which changes nothing
about whether there is one. -/
def passLazy : List Char → List Char
  | '?' :: s => s
  | s => s

/-- Repeats the last part. -/
def repeatLast? (least : Nat) (most : Option Nat) (rest : List Char) (r : Reading) :
    Option Reading :=
  match r.level.parts with
  | p :: ps =>
    if p.repeatable then
      let part : Part := {
        re := .times p.re least most
        depth := p.depth + 1
        room := stateRoom + p.room * most.getD (max least 1) }
      some { r with rest, level := { r.level with parts := part :: ps } }
    else none
  | [] => none

/-! ### Groups -/

/-- The flags behind `(?`, up to the colon or parenthesis that ends them.  No flag may come
twice. -/
def flags? (seen : List Char) (on : Bool) (f : Flags) :
    List Char → Option (Flags × Bool × List Char)
  | [] => none
  | c :: s =>
    if c == ':' || c == ')' then
      if seen.head? == some '-' || (c == ')' && seen.isEmpty) then none else some (f, c == ':', s)
    else if seen.contains c then none
    else
      match c with
      | '-' => flags? (c :: seen) false f s
      | 'i' => flags? (c :: seen) on { f with anyCase := on } s
      | 'm' => flags? (c :: seen) on { f with multiLine := on } s
      | 's' => flags? (c :: seen) on { f with dotAll := on } s
      | 'U' => flags? (c :: seen) on f s
      | 'u' => flags? (c :: seen) on { f with unicode := on } s
      | 'R' => flags? (c :: seen) on { f with returns := on } s
      | 'x' => flags? (c :: seen) on { f with verbose := on } s
      | _ => none

/-- A character that a name of a group may start with, or go on with. -/
def isNameChar (first : Bool) (c : Char) : Bool :=
  c == '_' || Unicode.alphabetic.has c ||
    (!first && (c == '.' || c == '[' || c == ']' || Unicode.hasCategory ["Nd", "Nl", "No"] c))

/-- The name of a group, up to the bracket that ends it. -/
def groupName? (names : List (List Char)) (s : List Char) : Option (List Char × List Char) :=
  match cutAt (· == '>') s with
  | some (name, s) =>
    if !name.isEmpty && (name.take 1).all (isNameChar true) && name.all (isNameChar false) &&
        !names.contains name then
      some (name, s)
    else none
  | none => none

/-- Opens a group. -/
def openGroup (inner : Flags) (rest : List Char) (r : Reading) : Reading :=
  { r with
    rest, flags := inner, level := ⟨r.flags, [], []⟩, outer := r.level :: r.outer }

/-- A group or flags behind the parenthesis. -/
def group? (s : List Char) (r : Reading) : Option Reading :=
  match passSpace r.flags s with
  | '?' :: s =>
    let named (s : List Char) := (groupName? r.names s).map fun (name, s) =>
      { r.openGroup r.flags s with names := name :: r.names }
    match s with
    | '=' :: _ => none
    | '!' :: _ => none
    | '<' :: '=' :: _ => none
    | '<' :: '!' :: _ => none
    | 'P' :: '<' :: s => named s
    | '<' :: s => named s
    | s =>
      (flags? [] true r.flags s).map fun (f, opens, s) =>
        if opens then r.openGroup f s
        else { r.push { re := .empty, repeatable := false } s with flags := f }
  | s => some (r.openGroup r.flags s)

/-- The end of a group. -/
def closeGroup? (rest : List Char) (r : Reading) : Option Reading :=
  match r.outer with
  | [] => none
  | l :: ls =>
    let p := r.level.close
    let part := { p with depth := p.depth + 1, room := p.room + 2 * stateRoom, repeatable := true }
    some { r with
      rest, flags := r.level.flags, level := { l with parts := part :: l.parts }, outer := ls }

/-- The end of an alternative. -/
def branch (rest : List Char) (r : Reading) : Reading :=
  let l := r.level
  { r with rest, level := { l with branches := sequence l.parts :: l.branches, parts := [] } }

/-! ### Patterns -/

/-- Reads the next element; the rest of the pattern starts with no space. -/
def step? (r : Reading) : Option Reading :=
  match r.rest with
  | [] => some r
  | c :: s =>
    match c with
    | '(' => r.group? s
    | ')' => r.closeGroup? s
    | '|' => some (r.branch s)
    | '[' => (bracketed? r.flags s).map fun (n, s) => r.push (setPart n.set n.depth) s
    | '?' => r.repeatLast? 0 (some 1) (passLazy s)
    | '*' => r.repeatLast? 0 none (passLazy s)
    | '+' => r.repeatLast? 1 none (passLazy s)
    | '\x7b' =>
      (bounds? r.flags s).bind fun (least, most, s) =>
        r.repeatLast? least most (passLazy (passSpace r.flags s))
    | '\\' =>
      (escape? r.flags s).bind fun (a, s) => (atomPart? r.flags a).map fun p => r.push p s
    | '.' => (dotPart? r.flags).map fun p => r.push p s
    | '^' => some (r.push (lookPart (startLook r.flags)) s)
    | '$' => some (r.push (lookPart (endLook r.flags)) s)
    | c => some (r.push (charPart r.flags c) s)

/-- Reads to the end of the pattern. -/
def run? : Nat → Reading → Option Reading
  | 0, _ => none
  | fuel + 1, r =>
    let r := { r with rest := passSpace r.flags r.rest }
    if r.rest.isEmpty then some r
    else
      match r.step? with
      | some r => run? fuel r
      | none => none

end Reading

/-- How deep a pattern may nest. -/
def depthLimit : Nat := 250

/-- How much room a pattern may take. -/
def roomLimit : Nat := 10 * 0x100000

/-- What patterns are read for: the sets that they may name, and whether a pattern with a text, which
is read as a part, is small enough. -/
structure Engine where
  sets : NamedSets
  fits : List Char → Part → Bool

/-- The sets of Unicode, and the room that the states of a pattern take.  This is exact for patterns
of plain characters; for those with sets it is an estimate. -/
def Engine.standard : Engine where
  sets := .unicode
  fits _ p := p.room ≤ roomLimit

@[simp] theorem Engine.standard_fits (text : List Char) (p : Part) :
    Engine.standard.fits text p = decide (p.room ≤ roomLimit) := rfl

/-- The expression that a pattern writes. -/
def read? (text : List Char) (engine : Engine := .standard) : Option Re :=
  match Reading.run? (text.length + 1) (.start engine.sets text) with
  | some r =>
    let p := r.level.close
    if r.outer.isEmpty && p.depth ≤ depthLimit && engine.fits text p then some p.re else none
  | none => none

end YamlQuery.Pattern

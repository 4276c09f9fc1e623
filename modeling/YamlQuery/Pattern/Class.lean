import YamlQuery.Pattern.CharSet
import YamlQuery.Pattern.Basic
import YamlQuery.Text.Digits
import YamlQuery.Text.Split

/-!
# Pattern.Class — single characters, escapes and bracketed sets in patterns

The readers here take one element of a pattern from the front of a text.  In verbose mode white
space and comments may stand between the parts of an element.
-/

namespace YamlQuery.Pattern

open YamlQuery.Text

/-- What the flags of a pattern say, and the sets that it may name. -/
structure Flags where
  sets : NamedSets := .unicode
  anyCase : Bool := false
  multiLine : Bool := false
  dotAll : Bool := false
  unicode : Bool := true
  returns : Bool := false
  verbose : Bool := false

/-- Behind a comment. -/
def passComment : List Char → List Char
  | [] => []
  | c :: s => if c == '\n' then s else passComment s

/-- Behind white space and comments, if the fuel suffices. -/
def passSpaceFrom : Nat → List Char → List Char
  | 0, s => s
  | _, [] => []
  | fuel + 1, c :: s =>
    if isBlank c then passSpaceFrom fuel s
    else if c == '#' then passSpaceFrom fuel (passComment s)
    else c :: s

/-- Behind white space and comments in verbose mode. -/
def passSpace (f : Flags) (s : List Char) : List Char :=
  if f.verbose then passSpaceFrom (s.length + 1) s else s

/-- Behind the next character and the space that follows it. -/
def advance (f : Flags) (s : List Char) : List Char := passSpace f (s.drop 1)

/-! ### Escapes -/

/-- An element of a pattern that is not composed.  An octet is a character that was written with two
hexadecimal digits. -/
inductive Atom
  | char (c : Char) (octet : Bool)
  | set (s : CharSet)
  | look (l : Look)

/-- The hexadecimal digits that a text starts with, at most `n`. -/
def hexDigits (f : Flags) : Nat → List Char → List Char × List Char
  | 0, s => ([], s)
  | n + 1, c :: s =>
    if isHex c then
      let (ds, s) := hexDigits f n (passSpace f s)
      (c :: ds, s)
    else ([], c :: s)
  | _ + 1, [] => ([], [])

/-- The character that hexadecimal digits stand for. -/
def charOfHex? (digits : List Char) : Option Char :=
  match natOf? 16 digits with
  | some n => if n.isValidChar then some (Char.ofNat n) else none
  | none => none

/-- A character in hexadecimal digits: so many, or any number of them in braces. -/
def hexChar? (f : Flags) (width : Nat) (s : List Char) : Option (Atom × List Char) :=
  match s with
  | '\x7b' :: s =>
    let (digits, s) := hexDigits f s.length (passSpace f s)
    match s with
    | '\x7d' :: s => (charOfHex? digits).map fun c => (.char c false, passSpace f s)
    | _ => none
  | s =>
    let (digits, s) := hexDigits f width s
    if digits.length < width then none
    else (charOfHex? digits).map fun c => (.char c (width = 2), s)

/-- The set in a class of letters under the flags, without or with negation. -/
def finishSet? (f : Flags) (negated : Bool) (s : CharSet) : Option CharSet :=
  let s := if f.anyCase then s.anyCase (!f.unicode) else s
  let s := if negated then s.compl (!f.unicode) else s
  if f.unicode || s.isAscii then some s else none

/-- The name of a property in braces. -/
def braced? (f : Flags) : Nat → List Char → Option (List Char × List Char)
  | 0, _ => none
  | _, [] => none
  | _, '\x7d' :: s => some ([], s)
  | fuel + 1, c :: s => (braced? f fuel (passSpace f s)).map fun (cs, s) => (c :: cs, s)

/-- A property of characters behind `p` or `P`. -/
def property? (f : Flags) (negated : Bool) (s : List Char) : Option (Atom × List Char) := do
  let (set, negated, s) ← match passSpace f s with
    | '\x7b' :: s => do
      let (name, s) ← braced? f (s.length + 1) (passSpace f s)
      match cut ['!', '='] name with
      | some (n, v) => pure (← f.sets.ofNameValue? n v, !negated, s)
      | none =>
        match cutAt (· == ':') name with
        | some (n, v) => pure (← f.sets.ofNameValue? n v, negated, s)
        | none =>
          match cutAt (· == '=') name with
          | some (n, v) => pure (← f.sets.ofNameValue? n v, negated, s)
          | none => pure (← f.sets.ofName? name, negated, s)
    | c :: s => if c == '\\' then none else pure (← f.sets.ofName? [c], negated, passSpace f s)
    | [] => none
  guard f.unicode
  return (.set (← finishSet? f negated set), s)

/-- The letters and hyphens that a text starts with. -/
def boundaryName (f : Flags) : Nat → List Char → List Char × List Char
  | fuel + 1, c :: s =>
    if c.isAlpha || c == '-' then
      let (name, s) := boundaryName f fuel (passSpace f s)
      (c :: name, s)
    else ([], c :: s)
  | _, s => ([], s)

/-- A word boundary behind `b`, which may say which one in braces. -/
def boundary? (f : Flags) (s : List Char) : Option (Atom × List Char) :=
  let ascii := !f.unicode
  match s with
  | '\x7b' :: rest =>
    match passSpace f rest with
    | [] => none
    | inner =>
      let (name, rest) := boundaryName f inner.length inner
      if name.isEmpty then some (.look (.wordBoundary ascii), s)
      else
        match rest, String.ofList name with
        | '\x7d' :: s, "start" => some (.look (.wordStart ascii), s)
        | '\x7d' :: s, "end" => some (.look (.wordEnd ascii), s)
        | '\x7d' :: s, "start-half" => some (.look (.wordStartHalf ascii), s)
        | '\x7d' :: s, "end-half" => some (.look (.wordEndHalf ascii), s)
        | _, _ => none
  | s => some (.look (.wordBoundary ascii), s)

/-- The ASCII characters that stand for themselves behind a backslash. -/
def isEscapable (c : Char) : Bool :=
  c.toNat < 128 && !c.isAlphanum && c != '<' && c != '>'

/-- What a backslash and the text behind it stand for. -/
def escape? (f : Flags) (s : List Char) : Option (Atom × List Char) :=
  let ascii := !f.unicode
  match s with
  | [] => none
  | 'x' :: s => hexChar? f 2 (passSpace f s)
  | 'u' :: s => hexChar? f 4 (passSpace f s)
  | 'U' :: s => hexChar? f 8 (passSpace f s)
  | 'p' :: s => property? f false s
  | 'P' :: s => property? f true s
  | 'a' :: s => some (.char '\x07' false, s)
  | 'f' :: s => some (.char '\x0c' false, s)
  | 't' :: s => some (.char '\t' false, s)
  | 'n' :: s => some (.char '\n' false, s)
  | 'r' :: s => some (.char '\r' false, s)
  | 'v' :: s => some (.char '\x0b' false, s)
  | 'A' :: s => some (.look .textStart, s)
  | 'z' :: s => some (.look .textEnd, s)
  | 'b' :: s => boundary? f s
  | 'B' :: s => some (.look (.noWordBoundary ascii), s)
  | '<' :: s => some (.look (.wordStart ascii), s)
  | '>' :: s => some (.look (.wordEnd ascii), s)
  | c :: s =>
    match CharSet.ofLetter? ascii c with
    | some set => some (.set set, s)
    | none =>
      if c == 'D' || c == 'S' || c == 'W' then
        match CharSet.ofLetter? ascii c.toLower with
        | some set => if ascii then none else some (.set (set.compl false), s)
        | none => none
      else if isEscapable c then some (.char c false, s)
      else none

/-! ### Bracketed sets -/

/-- Operations on sets inside brackets. -/
inductive SetOp
  | inter
  | diff
  | symmDiff

/-- A set with its depth: how deep brackets and operations nest in it. -/
structure Nested where
  set : CharSet
  depth : Nat := 0

/-- An open bracket: whether its set is negated, the operation whose left side has been read, and
the items behind that, how many they are and how deep they nest. -/
structure Bracket where
  negated : Bool
  left : Option (SetOp × Nested) := none
  items : CharSet := .none
  count : Nat := 0
  depth : Nat := 0

namespace Bracket

def add (n : Nested) (b : Bracket) : Bracket :=
  { b with items := b.items.union n.set, count := b.count + 1, depth := max b.depth n.depth }

/-- The items so far as one. -/
def operand (f : Flags) (b : Bracket) : Nested :=
  let right : Nested := ⟨b.items, if 1 < b.count then b.depth + 1 else b.depth⟩
  let fold (s : CharSet) := if f.anyCase then s.anyCase (!f.unicode) else s
  match b.left with
  | none => right
  | some (op, left) =>
    let l := fold left.set
    let r := fold right.set
    let set := match op with
      | .inter => l.inter r
      | .diff => l.diff r
      | .symmDiff => l.symmDiff r
    ⟨set, max left.depth right.depth + 1⟩

/-- Behind an operation. -/
def operate (f : Flags) (op : SetOp) (b : Bracket) : Bracket :=
  { negated := b.negated, left := some (op, b.operand f) }

/-- The set of a bracket that ends here. -/
def close? (f : Flags) (b : Bracket) : Option Nested :=
  let n := b.operand f
  (finishSet? f b.negated n.set).map fun s => ⟨s, n.depth + 1⟩

end Bracket

/-- Hyphens that a bracket starts with stand for themselves. -/
def leadingHyphens (f : Flags) : Nat → Bracket → List Char → Bracket × List Char
  | 0, b, s => (b, s)
  | fuel + 1, b, s =>
    match s with
    | '-' :: _ => leadingHyphens f fuel (b.add ⟨.single '-', 0⟩) (advance f s)
    | s => (b, s)

/-- A bracket behind its first character.  A closing bracket that comes first stands for itself. -/
def openBracket? (f : Flags) (s : List Char) : Option (Bracket × List Char) :=
  let s := passSpace f s
  let (negated, s) := match s with
    | '^' :: _ => (true, advance f s)
    | s => (false, s)
  let (b, s) := leadingHyphens f s.length { negated } s
  let (b, s) := match s with
    | ']' :: _ => if b.count = 0 then (b.add ⟨.single ']', 0⟩, advance f s) else (b, s)
    | s => (b, s)
  if s.isEmpty then none else some (b, s)

/-- A named set such as `[:alpha:]` behind its bracket. -/
def named? (f : Flags) (s : List Char) : Option (CharSet × List Char) :=
  match s with
  | ':' :: s =>
    let (negated, s) := match s with
      | '^' :: s => (true, s)
      | s => (false, s)
    match cutAt (· == ':') s with
    | some (name, ']' :: s) =>
      (CharSet.ofAsciiName? (String.ofList name)).map fun set =>
        let folded := if f.anyCase then set.anyCase (!f.unicode) else set
        (if negated then folded.compl (!f.unicode) else folded, s)
    | _ => none
  | _ => none

/-- A character or an escape in brackets. -/
def bracketAtom? (f : Flags) (s : List Char) : Option (Atom × List Char) :=
  match s with
  | [] => none
  | '\\' :: s => escape? f s
  | c :: s => some (.char c false, s)

/-- A single character in brackets; in octet mode only ASCII, or an octet. -/
def plainChar? (f : Flags) : Atom → Option Char
  | .char c octet => if f.unicode || c.toNat < 128 || octet then some c else none
  | _ => none

/-- The character that a range ends with, if a range starts here. -/
def startsRange (f : Flags) (s : List Char) : Bool :=
  match s with
  | '-' :: s =>
    match passSpace f s with
    | ']' :: _ => false
    | '-' :: _ => false
    | _ => true
  | _ => false

/-- An item in brackets: a range, a character or a set. -/
def bracketItem? (f : Flags) (s : List Char) : Option (CharSet × List Char) := do
  let (a, s) ← bracketAtom? f s
  let s := passSpace f s
  guard (!s.isEmpty)
  if startsRange f s then
    let (b, s) ← bracketAtom? f (advance f s)
    let low ← plainChar? f a
    let high ← plainChar? f b
    guard (low ≤ high)
    return (.range low high, s)
  else
    match a with
    | .set set => return (set, s)
    | .char c octet => return (.single (← plainChar? f (.char c octet)), s)
    | .look _ => none

/-- One step behind an open bracket, the brackets around it given innermost first; the whole set
once the outermost bracket ends. -/
def bracketStep? (f : Flags) (b : Bracket) (outer : List Bracket) (s : List Char) :
    Option ((Bracket × List Bracket × List Char) ⊕ (Nested × List Char)) := do
  match passSpace f s with
  | [] => none
  | '[' :: s =>
    match named? f s with
    | some (set, s) => return .inl (b.add ⟨set, 0⟩, outer, s)
    | none =>
      let (inner, s) ← openBracket? f s
      return .inl (inner, b :: outer, s)
  | ']' :: s =>
    let n ← b.close? f
    match outer with
    | [] => return .inr (n, s)
    | o :: outer => return .inl (o.add n, outer, s)
  | '&' :: '&' :: s => return .inl (b.operate f .inter, outer, s)
  | '-' :: '-' :: s => return .inl (b.operate f .diff, outer, s)
  | '~' :: '~' :: s => return .inl (b.operate f .symmDiff, outer, s)
  | s =>
    let (set, s) ← bracketItem? f s
    return .inl (b.add ⟨set, 0⟩, outer, s)

/-- The rest of a bracketed set. -/
def bracketFrom? (f : Flags) :
    Nat → Bracket → List Bracket → List Char → Option (Nested × List Char)
  | 0, _, _, _ => none
  | fuel + 1, b, outer, s =>
    match bracketStep? f b outer s with
    | none => none
    | some (.inr r) => some r
    | some (.inl (b, outer, s)) => bracketFrom? f fuel b outer s

/-- A bracketed set behind its first bracket. -/
def bracketed? (f : Flags) (s : List Char) : Option (Nested × List Char) :=
  match openBracket? f s with
  | some (b, s) => bracketFrom? f (s.length + 1) b [] s
  | none => none

end YamlQuery.Pattern

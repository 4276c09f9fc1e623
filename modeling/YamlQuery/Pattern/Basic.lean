import YamlQuery.Unicode.Property

/-!
# Pattern — regular expressions and the texts that they match

A set of places in a text is a natural number whose bit `i` stands for the place before character
`i`.  `Re.step` maps the places where a match may start to those where it may end; so it tries all
ways of matching at once.  A pattern matches a text if some part of the text, from one place to
another, matches.
-/

namespace YamlQuery

/-- Conditions on a place in a text. -/
inductive Look
  | textStart
  | textEnd
  | lineStart
  | lineEnd
  /-- The start of a line that carriage returns may end, too. -/
  | lineStartReturn
  | lineEndReturn
  | wordBoundary (ascii : Bool)
  | noWordBoundary (ascii : Bool)
  | wordStart (ascii : Bool)
  | wordEnd (ascii : Bool)
  | wordStartHalf (ascii : Bool)
  | wordEndHalf (ascii : Bool)
deriving DecidableEq

namespace Look

/-- The character at a side of a place is part of a word. -/
def isWordAt (ascii : Bool) (c : Option Char) : Bool :=
  c.any fun c => (!ascii || c.toNat < 128) && Unicode.isWord c

/-- The condition holds between two characters, the ends of the text being none. -/
def holds (before after : Option Char) : Look → Bool
  | .textStart => before.isNone
  | .textEnd => after.isNone
  | .lineStart => before.all (· == '\n')
  | .lineEnd => after.all (· == '\n')
  | .lineStartReturn => before.all fun c => c == '\n' || (c == '\r' && after != some '\n')
  | .lineEndReturn => after.all fun c => c == '\r' || (c == '\n' && before != some '\r')
  | .wordBoundary a => isWordAt a before != isWordAt a after
  | .noWordBoundary a => isWordAt a before == isWordAt a after
  | .wordStart a => !isWordAt a before && isWordAt a after
  | .wordEnd a => isWordAt a before && !isWordAt a after
  | .wordStartHalf a => !isWordAt a before
  | .wordEndHalf a => !isWordAt a after

end Look

/-- A regular expression. -/
inductive Re
  | empty
  | set (p : Char → Bool)
  | look (l : Look)
  | cat (a b : Re)
  | alt (a b : Re)
  /-- As many times as these bounds say. -/
  | times (a : Re) (least : Nat) (most : Option Nat)

namespace Re

/-! ### Sets of places -/

/-- The places before the characters that have `p`. -/
def mask (p : Char → Bool) : List Char → Nat
  | [] => 0
  | c :: s => (p c).toNat + 2 * mask p s

/-- The places where a condition holds. -/
def lookMask (l : Look) (before : Option Char) : List Char → Nat
  | [] => (l.holds before none).toNat
  | c :: s => (l.holds before (some c)).toNat + 2 * lookMask l (some c) s

/-- The places that so many steps lead to. -/
def repeated (f : Nat → Nat) : Nat → Nat → Nat
  | 0, places => places
  | n + 1, places => if places = 0 then 0 else repeated f n (f places)

/-- The places that at most so many steps lead to. -/
def upTo (f : Nat → Nat) : Nat → Nat → Nat
  | 0, places => places
  | n + 1, places =>
    let more := places ||| f places
    if more = places then places else upTo f n more

/-- The places where a match of the expression may end that starts at one of these places.  An
expression that may come any number of times needs to come no more often than the text has
characters. -/
def step (text : List Char) : Re → Nat → Nat
  | .empty, places => places
  | .set p, places => (places &&& mask p text) <<< 1
  | .look l, places => places &&& lookMask l none text
  | .cat a b, places => step text b (step text a places)
  | .alt a b, places => step text a places ||| step text b places
  | .times a least most, places =>
    let more := match most with
      | some most => most - least
      | none => text.length
    upTo (step text a) more (repeated (step text a) least places)

/-- Some part of the text matches. -/
def isMatch (r : Re) (text : List Char) : Bool :=
  r.step text (Nat.pow 2 (text.length + 1) - 1) != 0

end Re

end YamlQuery

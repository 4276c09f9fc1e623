import YamlQuery.Text.Digits
import YamlQuery.Text.Split

/-!
# Unicode.Runs — properties of all characters as tables

A table of runs labels every code point: its text is a sequence of labels, each with the number of
code points that have it.  A table of ranges is a set of code points, each range written in base
sixteen.
-/

namespace YamlQuery.Unicode

open YamlQuery.Text

/-- The first code point and the label of every run. -/
abbrev Runs := Array (Nat × String)

/-- The runs behind code point `start` that a text of labels and lengths writes; the fuel bounds
their number. -/
def runsFrom (start : Nat) (acc : Runs) : Nat → List Char → Runs
  | 0, _ => acc
  | fuel + 1, s =>
    let (label, s) := s.span Char.isAlpha
    let (digits, s) := s.span isDigit
    match natOf? 10 digits with
    | some n => runsFrom (start + n) (acc.push (start, String.ofList label)) fuel s
    | none => acc

/-- The runs that a text of labels and lengths writes. -/
def Runs.ofText (s : String) : Runs := runsFrom 0 #[] s.length s.toList

/-- The place of the last entry that starts at or before `n`, between `low` and `low + width`. -/
def Runs.bisect (t : Runs) (n : Nat) : Nat → Nat → Nat → Nat
  | 0, low, _ => low
  | fuel + 1, low, width =>
    if width ≤ 1 then low
    else
      let mid := low + width / 2
      match t[mid]? with
      | some (start, _) =>
        if start ≤ n then Runs.bisect t n fuel mid (width - width / 2)
        else Runs.bisect t n fuel low (width / 2)
      | none => low

/-- The label of a character. -/
def Runs.label (t : Runs) (c : Char) : String :=
  match t[t.bisect c.toNat 24 0 t.size]? with
  | some (_, label) => label
  | none => ""

/-- First and last code point of every range of a set. -/
abbrev Ranges := List (Nat × Nat)

/-- The ranges that a text writes. -/
def Ranges.ofText (s : String) : Ranges :=
  (words s.toList).filterMap fun w =>
    match cutAt (· == '-') w with
    | some (a, b) => (natOf? 16 a).bind fun a => (natOf? 16 b).map fun b => (a, b)
    | none => (natOf? 16 w).map fun a => (a, a)

/-- The character is in one of the ranges. -/
def Ranges.has (r : Ranges) (c : Char) : Bool :=
  r.any fun (a, b) => a ≤ c.toNat && c.toNat ≤ b

/-- A name in the form in which names are compared: in small letters, with nothing but ASCII and
without what may stand between words.  An `is` that it starts with does not count, but for that of
`isc`. -/
def looseName (s : List Char) : List Char :=
  let loose (s : List Char) :=
    (lower s).filter fun c => c.toNat < 128 && !(c == ' ' || c == '_' || c == '-')
  if lower (s.take 2) == ['i', 's'] then
    let rest := loose (s.drop 2)
    if rest == ['c'] then ['i', 's', 'c'] else rest
  else loose s

end YamlQuery.Unicode

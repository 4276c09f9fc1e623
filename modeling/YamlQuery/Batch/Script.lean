import YamlQuery.Batch.Statement
import YamlQuery.Files.Path

/-!
# Batch.Script — windows over the lines of a script

A script is a list of lines with statements, a window `start`, `stop` over them, and a position in
the window.  The body of a loop is another window over the same lines.

`takeBlock?` cuts off the body of a loop whose first line has just been passed: the lines up to the
first one that closes more loops than are open, counted by the first words of the lines.
-/

namespace YamlQuery.Batch

/-- A window over the lines of a script, and the place where its next line is. -/
structure Script where
  source : String
  lines : List Line
  start : Nat := 0
  stop : Nat := lines.length
  position : Nat := 0

/-- How many lines stand before the line that closes the last of `depth + 1` open loops. -/
def blockLength? (depth : Nat) : List Line → Option Nat
  | [] => none
  | l :: ls =>
    if l.keyword = Statement.openWord then (blockLength? (depth + 1) ls).map (· + 1)
    else if l.keyword = Statement.closeWord then
      if depth = 0 then some 0 else (blockLength? (depth - 1) ls).map (· + 1)
    else (blockLength? depth ls).map (· + 1)

theorem blockLength?_lt {depth : Nat} {ls : List Line} {n : Nat}
    (h : blockLength? depth ls = some n) : n < ls.length := by
  induction ls generalizing depth n with
  | nil => simp [blockLength?] at h
  | cons l ls ih =>
    have tail {d m : Nat} (h : (blockLength? d ls).map (· + 1) = some m) :
        m < (l :: ls).length := by
      obtain ⟨k, hk, rfl⟩ := Option.map_eq_some_iff.1 h
      simpa using ih hk
    rw [blockLength?] at h
    split at h
    · exact tail h
    · split at h
      · split at h
        · cases h
          simp
        · exact tail h
      · exact tail h

namespace Script

/-- The script that a text writes, under the name of its source. -/
def parse (source text : String) : Script where
  source
  lines := Line.ofTexts 1 (Text.lines text.toList)

/-- The directory that the name of the source names. -/
def base? (s : Script) : Option String := Path.base? s.source

/-- All lines of the window. -/
def window (s : Script) : List Line := (s.lines.take s.stop).drop s.start

/-- The lines of the window from the position on. -/
def rest (s : Script) : List Line := (s.lines.take s.stop).drop s.position

def length (s : Script) : Nat := s.stop - s.start

def isEmpty (s : Script) : Bool := s.start == s.stop

def isFinished (s : Script) : Bool := s.stop ≤ s.position

/-- The next line, and the script behind it. -/
def next? (s : Script) : Option (Line × Script) :=
  match s.rest with
  | [] => none
  | l :: _ => some (l, { s with position := s.position + 1 })

/-- The script at the start of its window. -/
def rewound (s : Script) : Script := { s with position := s.start }

/-- The next lines up to the end of a block as a script of their own, and the script behind that
end. -/
def takeBlock? (s : Script) : Option (Script × Script) :=
  match blockLength? 0 s.rest with
  | none => none
  | some n =>
    some ({ s with start := s.position, stop := s.position + n },
      { s with position := s.position + n + 1 })

/-! ### The lines that are left -/

theorem rest_of_next? {s t : Script} {l : Line} (h : s.next? = some (l, t)) :
    s.rest = l :: t.rest := by
  rw [next?] at h
  split at h
  · cases h
  · next l' ls hs =>
    cases h
    rw [hs, rest, ← List.tail_drop]
    simp only [rest] at hs
    rw [hs, List.tail_cons]

theorem rest_of_takeBlock? {s body t : Script} (h : s.takeBlock? = some (body, t)) :
    ∃ l, s.rest = body.rest ++ l :: t.rest := by
  rw [takeBlock?] at h
  split at h
  · cases h
  · next n hn =>
    cases h
    have hlt := blockLength?_lt hn
    have hb : (s.lines.take (s.position + n)).drop s.position = s.rest.take n := by
      simp only [rest, List.length_drop, List.length_take] at hlt ⊢
      rw [List.take_drop, List.take_take]
      congr 2
      omega
    have ht : (s.lines.take s.stop).drop (s.position + n + 1) = s.rest.drop (n + 1) := by
      simp [rest, List.drop_drop, Nat.add_assoc]
    refine ⟨s.rest[n], ?_⟩
    change s.rest = (s.lines.take (s.position + n)).drop s.position ++
      s.rest[n] :: (s.lines.take s.stop).drop (s.position + n + 1)
    rw [hb, ht, List.getElem_cons_drop, List.take_append_drop]

theorem length_rest_of_next? {s t : Script} {l : Line} (h : s.next? = some (l, t)) :
    t.rest.length < s.rest.length := by
  simp [rest_of_next? h]

theorem length_rest_of_takeBlock? {s body t : Script} (h : s.takeBlock? = some (body, t)) :
    body.rest.length + t.rest.length < s.rest.length := by
  obtain ⟨l, hl⟩ := rest_of_takeBlock? h
  simp [hl]

end Script

end YamlQuery.Batch

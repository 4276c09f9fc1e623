import YamlQuery.Text.Blank

/-!
# Text.Split — cutting a text at separators

* `after? start s`: what follows `start` in a text that starts with it.
* `cut sep s`: the texts before and after the first occurrence of `sep`.
* `splitOn sep s`: the pieces between the leftmost non-overlapping occurrences of a non-empty `sep`.
* `join sep ws`: the pieces with `sep` between them; `join sep (splitOn sep s) = s`.
* `lines s`: the lines of a text, each without its line feed and a carriage return before it.
* `words s`: the maximal runs of characters that are not blank.
-/

namespace YamlQuery.Text

/-- What follows `start` in a text that starts with it. -/
def after? : List Char → List Char → Option (List Char)
  | [], s => some s
  | _ :: _, [] => none
  | p :: start, c :: s => if p = c then after? start s else none

/-- The texts before and after the first occurrence of `sep`. -/
def cut (sep : List Char) : List Char → Option (List Char × List Char)
  | [] => if sep.isEmpty then some ([], []) else none
  | c :: s =>
    match after? sep (c :: s) with
    | some rest => some ([], rest)
    | none => (cut sep s).map fun (before, rest) => (c :: before, rest)

/-- The texts before and after the first character with `p`, which is dropped. -/
def cutAt (p : Char → Bool) : List Char → Option (List Char × List Char)
  | [] => none
  | c :: s =>
    if p c then some ([], s) else (cutAt p s).map fun (before, rest) => (c :: before, rest)

/-- A character put in front of the first piece. -/
def consHead (c : Char) : List (List Char) → List (List Char)
  | [] => [[c]]
  | w :: ws => (c :: w) :: ws

/-- `splitOn` behind `skip` characters that belong to a separator already seen. -/
def splitFrom (sep : List Char) : Nat → List Char → List (List Char)
  | _, [] => [[]]
  | skip + 1, _ :: s => splitFrom sep skip s
  | 0, c :: s =>
    if sep.isPrefixOf (c :: s) then [] :: splitFrom sep (sep.length - 1) s
    else consHead c (splitFrom sep 0 s)

/-- The pieces between the leftmost non-overlapping occurrences of a non-empty separator. -/
def splitOn (sep s : List Char) : List (List Char) := splitFrom sep 0 s

/-- The pieces with the separator between them. -/
def join (sep : List Char) : List (List Char) → List Char
  | [] => []
  | [w] => w
  | w :: ws => w ++ sep ++ join sep ws

/-- `join` on strings. -/
def joined (sep : String) (ws : List String) : String :=
  String.ofList (join sep.toList (ws.map String.toList))

/-- The pieces that end in a line feed, and what stands behind the last one. -/
def lineFeeds : List Char → List (List Char) × List Char
  | [] => ([], [])
  | c :: s =>
    let (full, last) := lineFeeds s
    if c = '\n' then ([] :: full, last)
    else
      match full with
      | [] => ([], c :: last)
      | w :: ws => ((c :: w) :: ws, last)

/-- A line without the carriage return it ends with. -/
def dropReturn (s : List Char) : List Char :=
  if s.getLast? = some '\r' then s.dropLast else s

/-- The lines of a text.  A line feed ends a line, together with a carriage return before it; an
empty last line does not count. -/
def lines (s : List Char) : List (List Char) :=
  let (full, last) := lineFeeds s
  full.map dropReturn ++ if last.isEmpty then [] else [last]

/-- The maximal runs of characters that are not blank. -/
def words (s : List Char) : List (List Char) :=
  s.foldr
    (fun c acc => if isBlank c then [] :: acc else consHead c acc) [[]] |>.filter (! ·.isEmpty)

/-- The letters `A` to `Z` as small letters, all else as it is. -/
def lower (s : List Char) : List Char := s.map Char.toLower

/-! ### Small facts -/

theorem consHead_ne_nil (c : Char) (ws : List (List Char)) : consHead c ws ≠ [] := by
  cases ws <;> simp [consHead]

theorem splitFrom_ne_nil (sep : List Char) : ∀ (n : Nat) (s : List Char), splitFrom sep n s ≠ []
  | 0, [] => by simp [splitFrom]
  | _ + 1, [] => by simp [splitFrom]
  | n + 1, _ :: s => by simpa [splitFrom] using splitFrom_ne_nil sep n s
  | 0, c :: s => by
    rw [splitFrom]
    split
    · simp
    · exact consHead_ne_nil _ _

theorem splitOn_eq_splitFrom (sep s : List Char) : splitOn sep s = splitFrom sep 0 s := rfl

theorem splitOn_ne_nil (sep s : List Char) : splitOn sep s ≠ [] := splitFrom_ne_nil sep 0 s

theorem join_consHead {sep : List Char} {c : Char} {ws : List (List Char)} (h : ws ≠ []) :
    join sep (consHead c ws) = c :: join sep ws := by
  match ws, h with
  | [w], _ => simp [consHead, join]
  | w :: v :: vs, _ => simp [consHead, join]

theorem join_cons {sep w : List Char} {ws : List (List Char)} (h : ws ≠ []) :
    join sep (w :: ws) = w ++ sep ++ join sep ws := by
  match ws, h with
  | _ :: _, _ => simp [join]

theorem join_splitFrom {sep : List Char} (hsep : sep ≠ []) :
    ∀ (n : Nat) (s : List Char), join sep (splitFrom sep n s) = s.drop n
  | 0, [] => by simp [splitFrom, join]
  | _ + 1, [] => by simp [splitFrom, join]
  | n + 1, _ :: s => by simpa [splitFrom] using join_splitFrom hsep n s
  | 0, c :: s => by
    rw [splitFrom]
    split
    · next h =>
      obtain ⟨t, ht⟩ := List.isPrefixOf_iff_prefix.1 h
      rw [join_cons (splitFrom_ne_nil _ _ _), join_splitFrom hsep]
      match sep, hsep with
      | x :: xs, _ =>
        simp only [List.cons_append, List.cons.injEq] at ht
        obtain ⟨rfl, rfl⟩ := ht
        simp
    · rw [join_consHead (splitFrom_ne_nil _ _ _), join_splitFrom hsep]
      rfl

/-- The pieces with the separator between them are the text again. -/
theorem join_splitOn {sep : List Char} (hsep : sep ≠ []) (s : List Char) :
    join sep (splitOn sep s) = s := by
  simpa [splitOn_eq_splitFrom] using join_splitFrom hsep 0 s

end YamlQuery.Text

import YamlQuery.Properties.Basic
import YamlQuery.Proofs.Document.Entries
import YamlQuery.Proofs.Text.Trimming

/-!
# Proofs.Properties.Lines — the logical lines of a text of properties

The lines of a text that are neither blank nor comments make up logical lines (`Cuts`): a line that
ends in an odd number of backslashes goes on with the next one.  A text is read as the pairs that its
logical lines write, with two exceptions.  A logical line that the text ends within is not read, and
one that begins with a backslash alone does not go on with a comment: that is still skipped
(`parse_eq_ofList_iff`).
-/

namespace YamlQuery.Properties

variable {line s : List Char} {c : Char}

/-! ### Single lines -/

/-- The lines of a text, each without the blanks it starts with. -/
def rows (text : String) : List (List Char) := (Text.lines text.toList).map Text.trimStart

/-- A blank line or a comment. -/
def IsIgnored (line : List Char) : Prop := line.head? ∈ [none, some '#', some '!']

instance (line : List Char) : Decidable (IsIgnored line) :=
  inferInstanceAs (Decidable (_ ∈ [none, some '#', some '!']))

theorem isSkipped_iff : isSkipped line ↔ IsIgnored line := by
  cases line <;> simp [isSkipped, IsIgnored]

/-- The line ends in an odd number of backslashes. -/
def EndsOdd (line : List Char) : Prop :=
  ∃ s n, s.getLast? ≠ some '\\' ∧ line = s ++ List.replicate (2 * n + 1) '\\'

theorem exists_backslashes (line : List Char) :
    ∃ s n, s.getLast? ≠ some '\\' ∧ line = s ++ List.replicate n '\\' := by
  induction line using List.reverseRecOn with
  | nil => exact ⟨[], 0, by simp, rfl⟩
  | append_singleton line c ih =>
    by_cases hc : c = '\\'
    · obtain ⟨s, n, hs, rfl⟩ := ih
      refine ⟨s, n + 1, hs, ?_⟩
      rw [hc, List.replicate_succ', List.append_assoc]
    · exact ⟨line ++ [c], 0, by simpa using hc, by simp⟩

theorem isContinued_append (hs : s.getLast? ≠ some '\\') (n : Nat) :
    isContinued (s ++ List.replicate n '\\') = (n % 2 == 1) := by
  have hstop : s.reverse.takeWhile (· == '\\') = [] := by
    rw [← List.head?_reverse] at hs
    cases h : s.reverse with
    | nil => rfl
    | cons c t =>
      rw [h] at hs
      exact List.takeWhile_cons_of_neg (by simpa using hs)
  unfold isContinued
  rw [List.reverse_append, List.reverse_replicate, List.takeWhile_append_of_pos (by simp), hstop]
  simp

theorem isContinued_iff : isContinued line ↔ EndsOdd line := by
  constructor
  · intro h
    obtain ⟨s, n, hs, rfl⟩ := exists_backslashes line
    rw [isContinued_append hs, beq_iff_eq] at h
    refine ⟨s, n / 2, hs, ?_⟩
    rw [show 2 * (n / 2) + 1 = n by omega]
  · rintro ⟨s, n, hs, rfl⟩
    rw [isContinued_append hs, beq_iff_eq]
    omega

instance (line : List Char) : Decidable (EndsOdd line) := decidable_of_iff _ isContinued_iff

theorem EndsOdd.ne_nil (h : EndsOdd line) : line ≠ [] := by
  obtain ⟨s, n, -, rfl⟩ := h
  simp [List.replicate_succ]

/-- What a line that goes on starts with is not its last backslash, unless that is all of it. -/
theorem EndsOdd.dropLast_cons (h : EndsOdd (c :: s)) (hc : c ≠ '\\') :
    (c :: s).dropLast = c :: s.dropLast := by
  refine List.dropLast_cons_of_ne_nil fun hs => ?_
  obtain ⟨s', n, -, heq⟩ := h
  have hlast := congrArg List.getLast? heq
  rw [hs, List.replicate_succ', ← List.append_assoc, List.getLast?_concat] at hlast
  exact hc (Option.some.inj hlast)

theorem EndsOdd.eq_of_dropLast_eq_nil (h : EndsOdd line) (hnil : line.dropLast = []) :
    line = ['\\'] := by
  obtain ⟨s, n, -, rfl⟩ := h
  rw [List.replicate_succ', ← List.append_assoc] at hnil ⊢
  rw [List.dropLast_concat] at hnil
  rw [hnil, List.nil_append]

/-! ### Logical lines -/

/-- Lines that are read as one: each but the last goes on with the next one. -/
structure LogicalLine where
  front : List (List Char)
  last : List Char
  front_endsOdd : ∀ line ∈ front, EndsOdd line
  last_not_endsOdd : ¬ EndsOdd last

/-- The text of lines that go on, each without its last backslash. -/
def stems (front : List (List Char)) : List Char := front.flatMap List.dropLast

namespace LogicalLine

/-- The lines that are read as one. -/
def lines (l : LogicalLine) : List (List Char) := l.front ++ [l.last]

/-- The line that they are read as. -/
def text (l : LogicalLine) : List Char := stems l.front ++ l.last

end LogicalLine

/-- The logical lines of a text, and the lines at its end that would go on behind it.  Blank lines and
comments are skipped where no logical line is going on. -/
inductive Cuts : List (List Char) → List LogicalLine → List (List Char) → Prop
  | ends {pending : List (List Char)} : (∀ line ∈ pending, EndsOdd line) →
      (∀ line ∈ pending.head?, ¬ IsIgnored line) → Cuts pending [] pending
  | skip {line : List Char} {rest pending : List (List Char)} {ls : List LogicalLine} :
      IsIgnored line → Cuts rest ls pending → Cuts (line :: rest) ls pending
  | take {l : LogicalLine} {rest pending : List (List Char)} {ls : List LogicalLine} :
      (∀ line ∈ l.lines.head?, ¬ IsIgnored line) → Cuts rest ls pending →
        Cuts (l.lines ++ rest) (l :: ls) pending

variable {pending : List (List Char)} {l : LogicalLine} {ls : List LogicalLine}

theorem exists_cuts : ∀ lines : List (List Char), ∃ ls pending, Cuts lines ls pending
  | [] => ⟨[], [], .ends (by simp) (by simp)⟩
  | line :: rest => by
    by_cases hline : IsIgnored line
    · obtain ⟨ls, pending, h⟩ := exists_cuts rest
      exact ⟨ls, pending, .skip hline h⟩
    · have hhead : ∀ first ∈ (line :: rest).head?, ¬ IsIgnored first := by simpa using hline
      let front := (line :: rest).takeWhile (EndsOdd ·)
      have hfront : ∀ first ∈ front, EndsOdd first := fun first hfirst => by
        simpa using List.mem_takeWhile_imp hfirst
      have hsplit : front ++ (line :: rest).dropWhile (EndsOdd ·) = line :: rest :=
        List.takeWhile_append_dropWhile
      cases hbehind : (line :: rest).dropWhile (EndsOdd ·) with
      | nil =>
        rw [hbehind, List.append_nil] at hsplit
        exact ⟨[], line :: rest, .ends (hsplit ▸ hfront) hhead⟩
      | cons last behind =>
        have hlast : ¬ EndsOdd last := by
          have hnot := List.head?_dropWhile_not (fun l => decide (EndsOdd l)) (line :: rest)
          rw [hbehind] at hnot
          simpa using hnot
        have hlength : behind.length < (line :: rest).length := by
          rw [← hsplit, hbehind, List.length_append, List.length_cons]
          omega
        obtain ⟨ls, pending, h⟩ := exists_cuts behind
        let l : LogicalLine := ⟨front, last, hfront, hlast⟩
        have hlines : l.lines ++ behind = line :: rest := by
          rw [← hsplit, hbehind]
          simp [LogicalLine.lines, l]
        refine ⟨l :: ls, pending, hlines ▸ .take ?_ h⟩
        rwa [← hlines, List.head?_append_of_ne_nil _ (by simp [LogicalLine.lines])] at hhead
termination_by lines => lines.length
decreasing_by
  · exact Nat.lt_succ_self _
  · exact hlength

theorem append_cons_inj {front front' rest rest' : List (List Char)} {last last' : List Char}
    (hfront : ∀ line ∈ front, EndsOdd line) (hlast : ¬ EndsOdd last)
    (hfront' : ∀ line ∈ front', EndsOdd line) (hlast' : ¬ EndsOdd last')
    (h : front ++ last :: rest = front' ++ last' :: rest') :
    front = front' ∧ last = last' ∧ rest = rest' := by
  induction front generalizing front' with
  | nil =>
    cases front' with
    | nil => simpa using h
    | cons first front' =>
      obtain ⟨rfl, -⟩ := List.cons.inj h
      exact absurd (hfront' last List.mem_cons_self) hlast
  | cons first front ih =>
    cases front' with
    | nil =>
      obtain ⟨rfl, -⟩ := List.cons.inj h
      exact absurd (hfront first List.mem_cons_self) hlast'
    | cons first' front' =>
      obtain ⟨rfl, htail⟩ := List.cons.inj h
      obtain ⟨rfl, hbehind⟩ :=
        ih (List.forall_mem_cons.1 hfront).2 (List.forall_mem_cons.1 hfront').2 htail
      exact ⟨rfl, hbehind⟩

namespace LogicalLine

theorem lines_append (l : LogicalLine) (rest : List (List Char)) :
    l.lines ++ rest = l.front ++ l.last :: rest := by
  simp [lines]

theorem head?_lines_append (l : LogicalLine) (rest : List (List Char)) :
    (l.lines ++ rest).head? = l.lines.head? :=
  List.head?_append_of_ne_nil _ (by simp [lines])

theorem append_inj {l l' : LogicalLine} {rest rest' : List (List Char)}
    (h : l.lines ++ rest = l'.lines ++ rest') : l = l' ∧ rest = rest' := by
  rw [lines_append, lines_append] at h
  obtain ⟨front, last, hfront, hlast⟩ := l
  obtain ⟨front', last', hfront', hlast'⟩ := l'
  obtain ⟨rfl, rfl, rfl⟩ := append_cons_inj hfront hlast hfront' hlast' h
  exact ⟨rfl, rfl⟩

end LogicalLine

/-- There is only one way to cut a text into logical lines. -/
theorem Cuts.unique {lines pending' : List (List Char)} {ls' : List LogicalLine}
    (h : Cuts lines ls pending) (h' : Cuts lines ls' pending') : ls = ls' ∧ pending = pending' := by
  induction h generalizing ls' pending' with
  | ends hodd hhead =>
    cases h' with
    | ends => exact ⟨rfl, rfl⟩
    | skip hline => exact absurd hline (hhead _ rfl)
    | @take l => exact absurd (hodd l.last (by simp [LogicalLine.lines])) l.last_not_endsOdd
  | @skip line rest _ _ hline _ ih =>
    generalize hlines : line :: rest = lines at h'
    cases h' with
    | ends _ hhead => exact absurd hline (hhead line (hlines ▸ rfl))
    | skip _ h' =>
      obtain ⟨rfl, rfl⟩ := List.cons.inj hlines
      exact ih h'
    | @take l rest' _ _ hhead =>
      have hfirst : l.lines.head? = some line := by
        rw [← l.head?_lines_append rest', ← hlines]
        rfl
      exact absurd hline (hhead line hfirst)
  | @take l rest _ _ hhead _ ih =>
    generalize hlines : l.lines ++ rest = lines at h'
    cases h' with
    | ends hodd =>
      exact absurd (hodd l.last (by simp [← hlines, LogicalLine.lines])) l.last_not_endsOdd
    | @skip line rest' _ _ hline =>
      have hfirst : l.lines.head? = some line := by
        rw [← l.head?_lines_append rest, hlines]
        rfl
      exact absurd hline (hhead line hfirst)
    | take _ h' =>
      obtain ⟨rfl, rfl⟩ := LogicalLine.append_inj hlines
      obtain ⟨rfl, rfl⟩ := ih h'
      exact ⟨rfl, rfl⟩

/-! ### Keys and values -/

/-- The characters that a key ends at. -/
def isSeparator (c : Char) : Bool := c == '=' || c == ':'

/-- The trimmed texts before and behind the first separator of a line.  Without one, all of the line
is before it. -/
def pair (line : List Char) : String × String :=
  (String.ofList (Text.trim (line.takeWhile (! isSeparator ·))),
    String.ofList (Text.trim (line.dropWhile (! isSeparator ·)).tail))

/-- The keys and values that lines write; without a key there is no value. -/
def pairs (lines : List (List Char)) : List (String × String) :=
  (lines.map pair).filter (·.1 ≠ "")

theorem pairs_append (lines lines' : List (List Char)) :
    pairs (lines ++ lines') = pairs lines ++ pairs lines' := by
  simp [pairs]

theorem pairs_cons (line : List Char) (lines : List (List Char)) :
    pairs (line :: lines) = pairs [line] ++ pairs lines :=
  pairs_append [line] lines

theorem cutAt_eq (p : Char → Bool) (s : List Char) : Text.cutAt p s =
    if s.any p then some (s.takeWhile (! p ·), (s.dropWhile (! p ·)).tail) else none := by
  induction s with
  | nil => rfl
  | cons c s ih =>
    unfold Text.cutAt
    by_cases hc : p c
    · simp [hc]
    · rw [if_neg hc, ih]
      by_cases hs : s.any p <;> simp [hc, hs]

theorem entry_eq_pair (line : List Char) : entry line = pair line := by
  unfold entry pair
  rw [show (fun c => c == '=' || c == ':') = isSeparator from rfl, cutAt_eq]
  by_cases h : line.any isSeparator
  · simp [h]
  · have hnone : ∀ c ∈ line, (! isSeparator c) = true := by simpa using h
    rw [if_neg h, List.takeWhile_eq_self_iff.2 hnone, List.dropWhile_eq_nil_iff.2 hnone]
    rfl

theorem foldl_enter (lines : List (List Char)) (ps : Properties) : lines.foldl enter ps =
    (pairs lines).foldl (fun es e => Entries.put e.1 e.2 es) ps := by
  induction lines generalizing ps with
  | nil => rfl
  | cons line lines ih =>
    have henter : enter ps line = if (pair line).1 = "" then ps
        else Entries.put (pair line).1 (pair line).2 ps := by
      simp [enter, entry_eq_pair, String.isEmpty_iff]
    rw [List.foldl_cons, ih, henter, pairs_cons, List.foldl_append]
    by_cases h : (pair line).1 = "" <;> simp [pairs, h]

/-! ### Reading -/

variable {start : List Char} {front rest : List (List Char)}

/-- A line without blanks at its start. -/
def IsRow (line : List Char) : Prop := Text.trimStart line = line

theorem isRow_of_mem_rows {text : String} (h : line ∈ rows text) : IsRow line := by
  obtain ⟨raw, -, rfl⟩ := List.mem_map.1 h
  exact Text.trimStart_trimStart raw

theorem joinedLines_cons (hrow : IsRow line) (start : List Char) (rest : List (List Char)) :
    joinedLines start (line :: rest) =
      if start = [] ∧ IsIgnored line then joinedLines [] rest
      else if EndsOdd line then joinedLines (start ++ line.dropLast) rest
      else (start ++ line) :: joinedLines [] rest := by
  rw [joinedLines, hrow]
  simp [isSkipped_iff, isContinued_iff]

theorem joinedLines_of_isIgnored (hrow : IsRow line) (h : IsIgnored line)
    (rest : List (List Char)) : joinedLines [] (line :: rest) = joinedLines [] rest := by
  rw [joinedLines_cons hrow, if_pos ⟨rfl, h⟩]

theorem joinedLines_of_endsOdd (hrow : IsRow line) (hstart : ¬ (start = [] ∧ IsIgnored line))
    (h : EndsOdd line) (rest : List (List Char)) :
    joinedLines start (line :: rest) = joinedLines (start ++ line.dropLast) rest := by
  rw [joinedLines_cons hrow, if_neg hstart, if_pos h]

theorem joinedLines_of_not_endsOdd (hrow : IsRow line) (hstart : ¬ (start = [] ∧ IsIgnored line))
    (h : ¬ EndsOdd line) (rest : List (List Char)) :
    joinedLines start (line :: rest) = (start ++ line) :: joinedLines [] rest := by
  rw [joinedLines_cons hrow, if_neg hstart, if_neg h]

/-- Behind a start that is not empty nothing is skipped. -/
theorem joinedLines_front (hrow : ∀ line ∈ front, IsRow line) (hodd : ∀ line ∈ front, EndsOdd line)
    (hstart : start ≠ []) (rest : List (List Char)) :
    joinedLines start (front ++ rest) = joinedLines (start ++ stems front) rest := by
  induction front generalizing start with
  | nil => simp [stems]
  | cons line front ih =>
    obtain ⟨hline, hrow⟩ := List.forall_mem_cons.1 hrow
    obtain ⟨hlineOdd, hodd⟩ := List.forall_mem_cons.1 hodd
    rw [List.cons_append, joinedLines_of_endsOdd hline (fun h => hstart h.1) hlineOdd,
      ih hrow hodd (by simp [hstart])]
    simp [stems]

/-- What the text ends within is not read. -/
theorem joinedLines_pending (hrow : ∀ line ∈ front, IsRow line)
    (hodd : ∀ line ∈ front, EndsOdd line) : joinedLines start front = [] := by
  induction front generalizing start with
  | nil => rfl
  | cons line front ih =>
    obtain ⟨hline, hrow⟩ := List.forall_mem_cons.1 hrow
    obtain ⟨hlineOdd, hodd⟩ := List.forall_mem_cons.1 hodd
    by_cases hskip : start = [] ∧ IsIgnored line
    · rw [hskip.1, joinedLines_of_isIgnored hline hskip.2]
      exact ih hrow hodd
    · rw [joinedLines_of_endsOdd hline hskip hlineOdd]
      exact ih hrow hodd

theorem joinedLines_map_trimStart (start : List Char) (raws : List (List Char)) :
    joinedLines start (raws.map Text.trimStart) = joinedLines start raws := by
  induction raws generalizing start with
  | nil => rfl
  | cons raw raws ih => simp [joinedLines, ih]

/-- Lines of a backslash alone make no difference. -/
theorem joinedLines_filter (start : List Char) (lines : List (List Char)) :
    joinedLines start (lines.filter (· ≠ ['\\'])) = joinedLines start lines := by
  induction lines generalizing start with
  | nil => rfl
  | cons line lines ih =>
    by_cases h : line = ['\\']
    · have hrow : IsRow ['\\'] := rfl
      have hignored : ¬ IsIgnored ['\\'] := by decide
      rw [List.filter_cons_of_neg (by simpa using h), ih, h,
        joinedLines_of_endsOdd hrow (fun hskip => hignored hskip.2) (by decide)]
      simp
    · rw [List.filter_cons_of_pos (by simpa using h), joinedLines, joinedLines]
      simp only [ih]

theorem parse_eq (text : String) : parse text = .ofList (pairs (joinedLines [] (rows text))) := by
  rw [parse, foldl_enter, rows, joinedLines_map_trimStart]
  rfl

/-! ### Comments that are skipped within a logical line -/

def IsComment (line : List Char) : Prop := line.head? ∈ [some '#', some '!']

instance (line : List Char) : Decidable (IsComment line) :=
  inferInstanceAs (Decidable (_ ∈ [some '#', some '!']))

theorem isIgnored_iff : IsIgnored line ↔ line = [] ∨ IsComment line := by
  simp [IsIgnored, IsComment]

/-- The lines begin with backslashes alone, and then there is a comment. -/
def HidesComment (lines : List (List Char)) : Prop :=
  ∃ n comment rest, IsComment comment ∧ lines = List.replicate n ['\\'] ++ comment :: rest

theorem HidesComment.cons {lines : List (List Char)} (h : HidesComment lines) :
    HidesComment (['\\'] :: lines) := by
  obtain ⟨n, comment, rest, hcomment, rfl⟩ := h
  exact ⟨n + 1, comment, rest, hcomment, rfl⟩

theorem not_isComment_of_not_hidesComment {lines : List (List Char)}
    (h : ¬ HidesComment (line :: lines)) : ¬ IsComment line :=
  fun hcomment => h ⟨0, line, lines, hcomment, rfl⟩

/-- A logical line that hides no comment is read as one. -/
theorem pairs_joinedLines {last : List Char} (hrow : ∀ line ∈ front ++ [last], IsRow line)
    (hodd : ∀ line ∈ front, EndsOdd line) (hlast : ¬ EndsOdd last)
    (hhides : ¬ HidesComment (front ++ [last])) (rest : List (List Char)) :
    pairs (joinedLines [] (front ++ last :: rest)) =
      pairs [stems front ++ last] ++ pairs (joinedLines [] rest) := by
  induction front with
  | nil =>
    have hrow : IsRow last := hrow last (by simp)
    by_cases hignored : IsIgnored last
    · obtain rfl | hcomment := isIgnored_iff.1 hignored
      · rw [List.nil_append, joinedLines_of_isIgnored hrow hignored]
        rfl
      · exact absurd hcomment (not_isComment_of_not_hidesComment hhides)
    · rw [List.nil_append, joinedLines_of_not_endsOdd hrow (fun h => hignored h.2) hlast, pairs_cons]
      rfl
  | cons line front ih =>
    obtain ⟨hline, hrow⟩ := List.forall_mem_cons.1 hrow
    obtain ⟨hlineOdd, hodd⟩ := List.forall_mem_cons.1 hodd
    have hignored : ¬ IsIgnored line := by
      rw [isIgnored_iff]
      rintro (hnil | hcomment)
      · exact hlineOdd.ne_nil hnil
      · exact not_isComment_of_not_hidesComment hhides hcomment
    rw [List.cons_append, joinedLines_of_endsOdd hline (fun h => hignored h.2) hlineOdd,
      List.nil_append]
    by_cases hbare : line.dropLast = []
    · -- a backslash alone leaves no trace, so the next line is taken for the first one
      have hslash : line = ['\\'] := hlineOdd.eq_of_dropLast_eq_nil hbare
      rw [hbare, ih hrow hodd fun h => hhides (hslash ▸ h.cons)]
      simp [stems, hbare]
    · have hrowFront : ∀ line ∈ front, IsRow line :=
        fun line hmem => hrow line (List.mem_append_left _ hmem)
      rw [joinedLines_front hrowFront hodd hbare,
        joinedLines_of_not_endsOdd (hrow last (by simp)) (by simp [hbare]) hlast, pairs_cons]
      simp [stems]

/-- The logical lines of a text are read one after another. -/
theorem Cuts.pairs_joinedLines {lines : List (List Char)} (h : Cuts lines ls pending)
    (hrow : ∀ line ∈ lines, IsRow line) (hhides : ∀ l ∈ ls, ¬ HidesComment l.lines) :
    pairs (joinedLines [] lines) = pairs (ls.map (·.text)) := by
  induction h with
  | ends hodd => rw [joinedLines_pending hrow hodd]; rfl
  | skip hline _ ih =>
    obtain ⟨hfirst, hrow⟩ := List.forall_mem_cons.1 hrow
    rw [joinedLines_of_isIgnored hfirst hline]
    exact ih hrow hhides
  | @take l rest _ ls _ _ ih =>
    obtain ⟨hl, hls⟩ := List.forall_mem_cons.1 hhides
    obtain ⟨hrowLines, hrowRest⟩ := List.forall_mem_append.1 hrow
    rw [l.lines_append, Properties.pairs_joinedLines hrowLines l.front_endsOdd l.last_not_endsOdd hl,
      ih hrowRest hls, List.map_cons, pairs_cons l.text]
    rfl

/-- Without lines of a backslash alone no comment can hide. -/
theorem Cuts.not_hidesComment {lines : List (List Char)} (h : Cuts lines ls pending)
    (hbare : ['\\'] ∉ lines) : ∀ l ∈ ls, ¬ HidesComment l.lines := by
  induction h with
  | ends => simp
  | skip _ _ ih => exact ih fun hmem => hbare (List.mem_cons_of_mem _ hmem)
  | @take l rest _ ls hhead _ ih =>
    refine List.forall_mem_cons.2 ⟨?_, ih fun hmem => hbare (List.mem_append_right _ hmem)⟩
    rintro ⟨n, comment, behind, hcomment, hlines⟩
    cases n with
    | zero => exact hhead comment (by rw [hlines]; rfl) (isIgnored_iff.2 (.inr hcomment))
    | succ n =>
      refine hbare (List.mem_append_left _ ?_)
      rw [hlines, List.replicate_succ]
      exact List.mem_cons_self

/-! ### What keys begin with -/

/-- The line begins with a character that is not blank and does not make it a comment. -/
def BeginsKey (line : List Char) : Prop :=
  ∃ c, line.head? = some c ∧ Text.isBlank c = false ∧ c ≠ '#' ∧ c ≠ '!'

theorem not_isBlank_of_isRow (h : IsRow (c :: s)) : Text.isBlank c = false :=
  Text.not_isBlank_of_trimStart_eq_cons h

theorem IsRow.beginsKey (hrow : IsRow line) (h : ¬ IsIgnored line) : BeginsKey line := by
  cases line with
  | nil => exact absurd (by simp [IsIgnored]) h
  | cons c s =>
    simp only [IsIgnored, List.head?_cons, List.mem_cons, Option.some.injEq, List.not_mem_nil,
      or_false, not_or] at h
    exact ⟨c, rfl, not_isBlank_of_isRow hrow, h.2.1, h.2.2⟩

theorem BeginsKey.append (h : BeginsKey line) (s : List Char) : BeginsKey (line ++ s) := by
  obtain ⟨c, hhead, hc⟩ := h
  refine ⟨c, ?_, hc⟩
  rw [List.head?_append, hhead]
  rfl

theorem BeginsKey.dropLast (h : BeginsKey line) : line.dropLast = [] ∨ BeginsKey line.dropLast := by
  obtain ⟨c, hhead, hc⟩ := h
  match line, hhead with
  | [_], _ => exact .inl rfl
  | _ :: _ :: _, hhead => exact .inr ⟨c, hhead, hc⟩

theorem beginsKey_of_mem_joinedLines {lines : List (List Char)} (hrow : ∀ line ∈ lines, IsRow line)
    (hstart : start = [] ∨ BeginsKey start) : ∀ line ∈ joinedLines start lines, BeginsKey line := by
  induction lines generalizing start with
  | nil => simp [joinedLines]
  | cons line lines ih =>
    obtain ⟨hline, hrow⟩ := List.forall_mem_cons.1 hrow
    by_cases hskip : start = [] ∧ IsIgnored line
    · rw [hskip.1, joinedLines_of_isIgnored hline hskip.2]
      exact ih hrow (.inl rfl)
    · have hkey : BeginsKey (start ++ line) := by
        obtain rfl | hstart := hstart
        · exact hline.beginsKey fun h => hskip ⟨rfl, h⟩
        · exact hstart.append line
      by_cases hodd : EndsOdd line
      · rw [joinedLines_of_endsOdd hline hskip hodd,
          ← List.dropLast_append_of_ne_nil hodd.ne_nil]
        exact ih hrow hkey.dropLast
      · rw [joinedLines_of_not_endsOdd hline hskip hodd]
        exact List.forall_mem_cons.2 ⟨hkey, ih hrow (.inl rfl)⟩

theorem exists_key_eq_cons (hblank : Text.isBlank c = false) (hsep : isSeparator c = false)
    (s : List Char) : ∃ t, (pair (c :: s)).1.toList = c :: t := by
  refine ⟨Text.trimEnd (s.takeWhile (! isSeparator ·)), ?_⟩
  unfold pair
  rw [String.toList_ofList, List.takeWhile_cons_of_pos (by simp [hsep]), Text.trim,
    Text.trimStart_cons_of_not_isBlank hblank, Text.trimEnd_cons_of_not_isBlank hblank]

theorem mem_pairs_iff {lines : List (List Char)} {e : String × String} :
    e ∈ pairs lines ↔ ∃ line ∈ lines, pair line = e ∧ e.1 ≠ "" := by
  simp only [pairs, List.mem_filter, List.mem_map, decide_eq_true_eq]
  grind

/-- No key that is read begins as a comment does. -/
theorem not_isComment_key {lines : List (List Char)} (h : ∀ line ∈ lines, BeginsKey line)
    {e : String × String} (he : e ∈ pairs lines) : ¬ IsComment e.1.toList := by
  obtain ⟨line, hmem, rfl, hne⟩ := mem_pairs_iff.1 he
  obtain ⟨c, hhead, hblank, hc⟩ := h line hmem
  obtain ⟨s, rfl⟩ := List.head?_eq_some_iff.1 hhead
  by_cases hsep : isSeparator c
  · -- a line that begins with a separator has no key
    exact absurd (by simp [pair, hsep]) hne
  · obtain ⟨t, ht⟩ := exists_key_eq_cons hblank (Bool.not_eq_true _ ▸ hsep) s
    rw [ht]
    simpa [IsComment] using hc

theorem exists_comment_key (h : IsComment line) : ∃ e ∈ pairs [line], IsComment e.1.toList := by
  cases line with
  | nil => simp [IsComment] at h
  | cons c s =>
    have hc : c = '#' ∨ c = '!' := by simpa [IsComment] using h
    have hchar : Text.isBlank c = false ∧ isSeparator c = false := by
      obtain rfl | rfl := hc <;> decide
    obtain ⟨t, ht⟩ := exists_key_eq_cons hchar.1 hchar.2 s
    have hne : (pair (c :: s)).1 ≠ "" := by
      intro hempty
      simp [hempty] at ht
    refine ⟨pair (c :: s), mem_pairs_iff.2 ⟨_, List.mem_cons_self, rfl, hne⟩, ?_⟩
    rw [ht]
    exact h

/-- Backslashes alone leave no trace in the text of a logical line. -/
theorem head?_stems_append {comment last : List Char} (hodd : ∀ line ∈ front, EndsOdd line)
    (hcomment : IsComment comment) {n : Nat}
    (h : front ++ [last] = List.replicate n ['\\'] ++ comment :: rest) :
    (stems front ++ last).head? = comment.head? := by
  induction front generalizing n with
  | nil =>
    cases n with
    | zero =>
      obtain ⟨rfl, -⟩ := List.cons.inj h
      rfl
    | succ n => simp [List.replicate_succ] at h
  | cons line front ih =>
    obtain ⟨hlineOdd, hfront⟩ := List.forall_mem_cons.1 hodd
    cases n with
    | zero =>
      obtain ⟨rfl, -⟩ := List.cons.inj h
      cases line with
      | nil => exact absurd rfl hlineOdd.ne_nil
      | cons c s =>
        have hc : c ≠ '\\' := by
          rintro rfl
          exact absurd hcomment (by simp [IsComment])
        simp [stems, hlineOdd.dropLast_cons hc]
    | succ n =>
      obtain ⟨rfl, htail⟩ := List.cons.inj h
      simpa [stems] using ih hfront htail

theorem LogicalLine.isComment_text (h : HidesComment l.lines) : IsComment l.text := by
  obtain ⟨n, comment, rest, hcomment, hlines⟩ := h
  rw [IsComment, text, head?_stems_append l.front_endsOdd hcomment hlines]
  exact hcomment

/-! ### Which logical lines are read -/

theorem mem_keys_ofList {ps : List (String × String)} {key : String} :
    key ∈ (Entries.ofList ps).keys ↔ ∃ e ∈ ps, e.1 = key := by
  rw [Entries.keys_ofList, List.mem_eraseDups, List.mem_map]

theorem not_isComment_of_mem_keys {text key : String} (h : key ∈ (parse text).keys) :
    ¬ IsComment key.toList := by
  rw [parse_eq, mem_keys_ofList] at h
  obtain ⟨e, he, rfl⟩ := h
  refine not_isComment_key (beginsKey_of_mem_joinedLines ?_ (.inl rfl)) he
  exact fun line => isRow_of_mem_rows

/-- Without its lines of a backslash alone a text is read logical line by logical line. -/
theorem parse_eq_ofList (text : String) :
    ∃ ls pending, Cuts ((rows text).filter (· ≠ ['\\'])) ls pending ∧
      parse text = .ofList (pairs (ls.map (·.text))) := by
  obtain ⟨ls, pending, hcut⟩ := exists_cuts ((rows text).filter (· ≠ ['\\']))
  have hbare : ['\\'] ∉ (rows text).filter (· ≠ ['\\']) := by simp
  have hrow : ∀ line ∈ (rows text).filter (· ≠ ['\\']), IsRow line :=
    fun line hmem => isRow_of_mem_rows (List.mem_filter.1 hmem).1
  refine ⟨ls, pending, hcut, ?_⟩
  rw [parse_eq, ← joinedLines_filter, hcut.pairs_joinedLines hrow (hcut.not_hidesComment hbare)]

theorem pairs_singleton (line : List Char) : pairs [line] = [] ∨ pairs [line] = [pair line] := by
  by_cases h : (pair line).1 = "" <;> simp [pairs, h]

/-- **Which logical lines are read.**  There is one way to cut a text into logical lines.  Those that
end before the text does are read, all of them and nothing else, exactly if no comment stands in one
behind backslashes alone.  The one that the text ends within, if there is any, is lost: so all are
read exactly if it has nothing to add.  In every case what is read are the logical lines of the text
without its lines of a backslash alone. -/
theorem parse_eq_ofList_iff (text : String) :
    ∃ ls pending, Cuts (rows text) ls pending ∧
      (∀ ls' pending', Cuts (rows text) ls' pending' → ls' = ls ∧ pending' = pending) ∧
      (parse text = .ofList (pairs (ls.map (·.text))) ↔ ∀ l ∈ ls, ¬ HidesComment l.lines) ∧
      (parse text = .ofList (pairs (ls.map (·.text) ++ [stems pending])) ↔
        (∀ l ∈ ls, ¬ HidesComment l.lines) ∧
        ∀ e ∈ pairs [stems pending], (parse text).get? e.1 = some e.2) ∧
      ∃ ls' pending', Cuts ((rows text).filter (· ≠ ['\\'])) ls' pending' ∧
        parse text = .ofList (pairs (ls'.map (·.text))) := by
  obtain ⟨ls, pending, hcut⟩ := exists_cuts (rows text)
  let ended := ls.map (·.text)
  have hread (h : ∀ l ∈ ls, ¬ HidesComment l.lines) : parse text = .ofList (pairs ended) := by
    rw [parse_eq, hcut.pairs_joinedLines (fun line => isRow_of_mem_rows) h]
  have hnot {more : List (String × String)} (h : parse text = .ofList (pairs ended ++ more)) :
      ∀ l ∈ ls, ¬ HidesComment l.lines := by
    intro l hl hhides
    obtain ⟨e, he, hcomment⟩ := exists_comment_key (LogicalLine.isComment_text hhides)
    have hmem : e ∈ pairs ended := by
      obtain ⟨line, hline, hpair⟩ := mem_pairs_iff.1 he
      rw [List.mem_singleton.1 hline] at hpair
      exact mem_pairs_iff.2 ⟨l.text, List.mem_map_of_mem hl, hpair⟩
    have hkey : e.1 ∈ (parse text).keys :=
      h ▸ mem_keys_ofList.2 ⟨e, List.mem_append_left more hmem, rfl⟩
    exact not_isComment_of_mem_keys hkey hcomment
  have hended : parse text = .ofList (pairs ended) ↔ ∀ l ∈ ls, ¬ HidesComment l.lines :=
    ⟨fun h => hnot (by rwa [List.append_nil]), hread⟩
  refine ⟨ls, pending, hcut, fun ls' pending' h => h.unique hcut, hended, ?_, parse_eq_ofList text⟩
  rw [pairs_append]
  obtain hnone | hone := pairs_singleton (stems pending)
  · rw [hnone, List.append_nil, hended]
    simp
  · rw [hone, List.forall_mem_singleton, Entries.ofList_concat]
    constructor
    · intro h
      refine ⟨hnot (h.trans (Entries.ofList_concat _ _).symm), ?_⟩
      rw [h, Entries.get?_put_self]
    · rintro ⟨hhides, hget⟩
      rw [hread hhides] at hget ⊢
      exact (Entries.put_of_get? hget).symm

/-- A logical line at the end of the text is lost; and so is one that would be a comment without the
backslash in front of it. -/
theorem parse_loses_lines :
    (∃ pending, Cuts (rows "a=b\\") [] pending ∧ pairs [stems pending] = [("a", "b")] ∧
      parse "a=b\\" = []) ∧
    ∃ l, Cuts (rows "\\\n#a=b") [l] [] ∧ pairs [l.text] = [("#a", "b")] ∧
      parse "\\\n#a=b" = [] := by
  let l : LogicalLine := ⟨["\\".toList], "#a=b".toList, by decide, by decide⟩
  have hends : Cuts ["a=b\\".toList] [] ["a=b\\".toList] := .ends (by decide) (by decide)
  have htake : Cuts (l.lines ++ []) [l] [] := .take (by decide) (.ends (by decide) (by decide))
  exact ⟨⟨_, hends, by decide, by decide⟩, l, htake, by decide, by decide⟩

end YamlQuery.Properties

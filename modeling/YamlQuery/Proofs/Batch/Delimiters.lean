import YamlQuery.Proofs.Batch.Rules
import YamlQuery.Proofs.Text.Trimming

/-!
# Proofs.Batch.Delimiters — the lines that loops begin and end at

Where a loop ends is found by the first words of the lines alone, and what a line asks for by all
that it holds.  The two agree but for lines with something behind the word that opens or closes a
loop (`Line.agrees_iff`).  Such a line is no statement, but a loop may end at it, and it may open
and close loops in a body that is never run.

What is behind those words makes no difference to a run that does not come to such a line
(`Script.run_bare`).
-/

namespace YamlQuery.Batch

open Text (lower)

/-- What is behind the first word of a text, without blanks at its ends. -/
def behindWord (content : List Char) : List Char :=
  Text.trim ((Text.trim content).dropWhile (! Text.isBlank ·))

/-- The two ends of a loop. -/
inductive Delimiter
  | opening
  | closing
deriving DecidableEq

namespace Delimiter

def word : Delimiter → List Char
  | opening => Statement.openWord
  | closing => Statement.closeWord

def statement : Delimiter → Statement
  | opening => .foreach
  | closing => .close

/-- The delimiter with a word. -/
def ofWord? (w : List Char) : Option Delimiter :=
  if w = opening.word then some opening else if w = closing.word then some closing else none

theorem keyword_word (d : Delimiter) : keyword (String.ofList d.word).toList = d.word := by
  cases d <;> decide

theorem behindWord_word (d : Delimiter) : behindWord (String.ofList d.word).toList = [] := by
  cases d <;> decide

theorem parse_word (d : Delimiter) : Statement.parse (String.ofList d.word) = .ok d.statement := by
  cases d <;> decide

variable {d : Delimiter} {w : List Char}

theorem ofWord?_eq_some_iff : ofWord? w = some d ↔ w = d.word := by
  rw [ofWord?]
  split
  case isTrue ho =>
    subst ho
    cases d <;> decide
  case isFalse ho =>
    split
    case isTrue hc =>
      subst hc
      cases d <;> decide
    case isFalse hc =>
      cases d
      · exact iff_of_false (by simp) ho
      · exact iff_of_false (by simp) hc

end Delimiter

/-! ### Statements with a first word -/

namespace Statement

variable {d : Delimiter} {w r : List Char}

theorem ofWords_of_delimiter (h : lower w = d.word) : ofWords w r = alone w r d.statement := by
  dsimp only [ofWords]
  rw [h, if_neg (by cases d <;> decide), if_neg (by cases d <;> decide),
    if_neg (by cases d <;> decide), if_neg (by cases d <;> decide),
    if_neg (by cases d <;> decide), if_neg (by cases d <;> decide)]
  cases d with
  | opening => exact if_pos rfl
  | closing =>
    rw [if_neg (by decide)]
    exact if_pos rfl

theorem assignment_ne {f : String → String → Statement} {s : Statement} (hf : ∀ a b, f a b ≠ s) :
    assignment w r f ≠ .ok s := by
  intro h
  unfold assignment assignment.refuse at h
  split at h
  · split at h
    · cases h
    · exact hf _ _ (Except.ok.inj h)
  · cases h

theorem required_ne {f : String → Statement} {s : Statement} (hf : ∀ a, f a ≠ s) :
    required w r f ≠ .ok s := by
  intro h
  rw [required] at h
  split at h
  · cases h
  · exact hf _ (Except.ok.inj h)

theorem alone_eq_ok {s s' : Statement} (h : alone w r s = .ok s') : s = s' := by
  rw [alone] at h
  split at h
  · exact Except.ok.inj h
  · cases h

theorem lower_of_ofWords (h : ofWords w r = .ok d.statement) : lower w = d.word := by
  dsimp only [ofWords] at h
  split at h
  · exact absurd h (assignment_ne fun _ _ => by cases d <;> nofun)
  split at h
  · exact absurd h (assignment_ne fun _ _ => by cases d <;> nofun)
  split at h
  · cases d <;> cases h
  split at h
  · exact absurd h (required_ne fun _ => by cases d <;> nofun)
  split at h
  · exact absurd h (required_ne fun _ => by cases d <;> nofun)
  split at h
  · exact absurd h (required_ne fun _ => by cases d <;> nofun)
  split at h
  case isTrue ho =>
    cases d
    · exact ho
    · cases alone_eq_ok h
  case isFalse =>
    split at h
    case isTrue hc =>
      cases d
      · cases alone_eq_ok h
      · exact hc
    case isFalse =>
      split at h <;> cases d <;> cases h

theorem words_of_command {name arguments : String}
    (h : ofWords w r = .ok (.command name arguments)) :
    name = String.ofList w ∧ arguments = String.ofList r := by
  dsimp only [ofWords] at h
  split at h
  · exact absurd h (assignment_ne nofun)
  split at h
  · exact absurd h (assignment_ne nofun)
  split at h
  · cases h
  split at h
  · exact absurd h (required_ne nofun)
  split at h
  · exact absurd h (required_ne nofun)
  split at h
  · exact absurd h (required_ne nofun)
  split at h
  · cases alone_eq_ok h
  split at h
  · cases alone_eq_ok h
  split at h <;> cases h
  exact ⟨rfl, rfl⟩

/-- The first word of a statement is the keyword of its text. -/
theorem parse_eq (text : String) :
    ∃ w, lower w = keyword text.toList ∧ parse text = ofWords w (behindWord text.toList) :=
  ⟨_, by rw [Text.trim, Text.takeWhile_trimEnd]; rfl, rfl⟩

end Statement

/-! ### Lines -/

namespace Line

/-- The line has a delimiter's word, and something behind it. -/
def Overloaded (l : Line) (d : Delimiter) : Prop :=
  l.keyword = d.word ∧ behindWord l.content.toList ≠ []

/-- The line counts as a delimiter when a block is taken off. -/
def Counts (l : Line) : Delimiter → Prop
  | .opening => ∀ depth ls, blockLength? depth (l :: ls) = (blockLength? (depth + 1) ls).map (· + 1)
  | .closing => ∀ depth ls, blockLength? depth (l :: ls) =
      if depth = 0 then some 0 else (blockLength? (depth - 1) ls).map (· + 1)

/-- The line with nothing behind a delimiter's word. -/
def bare (l : Line) : Line :=
  { l with content := ((Delimiter.ofWord? l.keyword).map (String.ofList ·.word)).getD l.content }

variable {l : Line} {d : Delimiter}

/-- A line with a delimiter's word is the delimiter's statement exactly if nothing is behind the
word, and else it is no statement. -/
theorem parse_of_keyword (h : l.keyword = d.word) :
    behindWord l.content.toList = [] ∧ Statement.parse l.content = .ok d.statement ∨
      behindWord l.content.toList ≠ [] ∧ ∃ w, Statement.parse l.content =
        .error (.unusedArgument w (String.ofList (behindWord l.content.toList))) := by
  obtain ⟨w, hw, hparse⟩ := Statement.parse_eq l.content
  rw [hparse, Statement.ofWords_of_delimiter (hw.trans h), Statement.alone]
  split
  case isTrue hrest => exact .inl ⟨List.isEmpty_iff.1 hrest, rfl⟩
  case isFalse hrest => exact .inr ⟨mt List.isEmpty_iff.2 hrest, _, rfl⟩

theorem keyword_of_parse (h : Statement.parse l.content = .ok d.statement) :
    l.keyword = d.word := by
  obtain ⟨w, hw, hparse⟩ := Statement.parse_eq l.content
  rw [hparse] at h
  exact hw.symm.trans (Statement.lower_of_ofWords h)

theorem Overloaded.parse (h : l.Overloaded d) : ∃ w, Statement.parse l.content =
    .error (.unusedArgument w (String.ofList (behindWord l.content.toList))) := by
  obtain ⟨hbehind, -⟩ | ⟨-, hparse⟩ := parse_of_keyword h.1
  · exact absurd hbehind h.2
  · exact hparse

theorem keyword_eq_iff :
    l.keyword = d.word ↔ Statement.parse l.content = .ok d.statement ∨ l.Overloaded d := by
  constructor
  · intro h
    exact (parse_of_keyword h).imp And.right fun hbehind => ⟨h, hbehind.1⟩
  · rintro (h | h)
    · exact keyword_of_parse h
    · exact h.1

theorem blockLength?_of_other {depth : Nat} {ls : List Line}
    (ho : l.keyword ≠ Statement.openWord) (hc : l.keyword ≠ Statement.closeWord) :
    blockLength? depth (l :: ls) = (blockLength? depth ls).map (· + 1) := by
  rw [blockLength?, if_neg ho, if_neg hc]

theorem counts_opening_iff : l.Counts .opening ↔ l.keyword = Statement.openWord := by
  constructor
  · intro h
    by_contra ho
    -- in front of a line that closes a loop, a line that opens none leaves the block an end
    have hopen := h 0 [⟨0, "end", "end"⟩]
    have hnone : blockLength? 1 [⟨0, "end", "end"⟩] = none := by decide
    have hsome : blockLength? 0 [⟨0, "end", "end"⟩] = some 0 := by decide
    rw [hnone, Option.map_none] at hopen
    by_cases hc : l.keyword = Statement.closeWord
    · rw [blockLength?, if_neg ho, if_pos hc, if_pos rfl] at hopen
      cases hopen
    · rw [blockLength?_of_other ho hc, hsome] at hopen
      cases hopen
  · intro h depth ls
    rw [blockLength?, if_pos h]

theorem counts_closing_iff : l.Counts .closing ↔ l.keyword = Statement.closeWord := by
  constructor
  · intro h
    by_contra hc
    -- in front of nothing, a line that closes no loop leaves the block without an end
    have hclose := h 0 []
    rw [if_pos rfl] at hclose
    by_cases ho : l.keyword = Statement.openWord
    · rw [blockLength?, if_pos ho] at hclose
      cases hclose
    · rw [blockLength?_of_other ho hc] at hclose
      cases hclose
  · intro h depth ls
    rw [blockLength?, if_neg (by rw [h]; decide), if_pos h]

/-- Only the first word of a line makes it count. -/
theorem counts_iff : l.Counts d ↔ l.keyword = d.word := by
  cases d with
  | opening => exact counts_opening_iff
  | closing => exact counts_closing_iff

/-- A line counts as the delimiter that it is as a statement, unless there is something behind the
delimiter's word. -/
theorem agrees_iff :
    (l.Counts d ↔ Statement.parse l.content = .ok d.statement) ↔ ¬ l.Overloaded d := by
  rw [counts_iff, keyword_eq_iff]
  constructor
  · intro h hover
    obtain ⟨w, hparse⟩ := hover.parse
    rw [h.1 (.inr hover)] at hparse
    cases hparse
  · exact fun h => or_iff_left h

theorem bare_of_keyword (h : l.keyword = d.word) :
    l.bare = { l with content := String.ofList d.word } := by
  rw [bare, Delimiter.ofWord?_eq_some_iff.2 h]
  rfl

theorem parse_bare_of_keyword (h : l.keyword = d.word) :
    Statement.parse l.bare.content = .ok d.statement := by
  rw [bare_of_keyword h]
  exact d.parse_word

theorem bare_of_ofWord? (h : Delimiter.ofWord? l.keyword = none) : l.bare = l := by
  rw [bare, h]
  rfl

@[simp] theorem keyword_bare (l : Line) : l.bare.keyword = l.keyword := by
  rcases h : Delimiter.ofWord? l.keyword with _ | d
  · rw [bare_of_ofWord? h]
  · have hkey := Delimiter.ofWord?_eq_some_iff.1 h
    rw [bare_of_keyword hkey, hkey]
    exact d.keyword_word

theorem not_overloaded_bare : ¬ l.bare.Overloaded d := by
  rintro ⟨hkey, hbehind⟩
  rw [keyword_bare] at hkey
  rw [bare_of_keyword hkey] at hbehind
  exact hbehind d.behindWord_word

/-- Taking away what is behind a delimiter's word does not change what the line asks for, unless the
line is refused for it. -/
theorem parse_bare (l : Line) :
    Statement.parse l.bare.content = Statement.parse l.content ∨ ∃ d, l.Overloaded d := by
  rcases h : Delimiter.ofWord? l.keyword with _ | d
  · rw [bare_of_ofWord? h]
    exact .inl rfl
  · have hkey := Delimiter.ofWord?_eq_some_iff.1 h
    rcases keyword_eq_iff.1 hkey with hparse | hover
    · exact .inl ((parse_bare_of_keyword hkey).trans hparse.symm)
    · exact .inr ⟨d, hover⟩

end Line

/-! ### Scripts -/

theorem blockLength?_bare : ∀ (ls : List Line) (depth : Nat),
    blockLength? depth (ls.map Line.bare) = blockLength? depth ls
  | [], _ => rfl
  | l :: ls, depth => by
    simp only [List.map_cons, blockLength?, Line.keyword_bare, blockLength?_bare ls]

namespace Script

/-- The script with nothing behind the words of delimiters. -/
def bare (s : Script) : Script := { s with lines := s.lines.map Line.bare }

/-- The failures at lines that have something behind a delimiter's word. -/
def Refuses (s : Script) (e : Failure) : Prop :=
  ∃ l ∈ s.lines, (∃ d, l.Overloaded d) ∧
    ∃ err, Statement.parse l.content = .error err ∧ e = (Fault.malformed err).at s l

/-- The two are windows over the same script. -/
structure SameText (s t : Script) : Prop where
  source_eq : t.source = s.source
  lines_eq : t.lines = s.lines

variable {s t body : Script} {l : Line}

theorem SameText.trans {s t u : Script} (h : s.SameText t) (h' : t.SameText u) : s.SameText u :=
  ⟨h'.source_eq.trans h.source_eq, h'.lines_eq.trans h.lines_eq⟩

theorem sameText_of_next? (h : s.next? = some (l, t)) : s.SameText t := by
  rw [next?] at h
  split at h <;> cases h
  exact ⟨rfl, rfl⟩

theorem sameText_of_takeBlock? (h : s.takeBlock? = some (body, t)) :
    s.SameText body ∧ s.SameText t := by
  rw [takeBlock?] at h
  split at h <;> cases h
  exact ⟨⟨rfl, rfl⟩, ⟨rfl, rfl⟩⟩

theorem mem_lines_of_next? (h : s.next? = some (l, t)) : l ∈ s.lines := by
  have hrest : l ∈ s.rest := by simp [rest_of_next? h]
  exact List.mem_of_mem_take (List.mem_of_mem_drop hrest)

theorem rest_bare (s : Script) : s.bare.rest = s.rest.map Line.bare := by
  rw [rest, rest, List.map_drop, List.map_take]
  rfl

theorem next?_bare (s : Script) : s.bare.next? = s.next?.map fun (l, t) => (l.bare, t.bare) := by
  rw [next?, next?, rest_bare]
  cases s.rest <;> rfl

theorem takeBlock?_bare (s : Script) :
    s.bare.takeBlock? = s.takeBlock?.map fun (body, t) => (body.bare, t.bare) := by
  rw [takeBlock?, takeBlock?, rest_bare, blockLength?_bare]
  cases blockLength? 0 s.rest <;> rfl

theorem executeAt_bare (m : Machine) (s : Script) (l : Line) (v : Value) (statement : Statement) :
    m.executeAt s.bare l.bare v statement = m.executeAt s l v statement := rfl

variable {other : (Fault → Failure) → String → Runner} {s₀ : Script}

/-- What is done at a line is the same, if what is run behind it and in loops is. -/
theorem sameUnless_runLine (hs : s₀.SameText s) (h : s.next? = some (l, t))
    (ih : ∀ u, s₀.SameText u → u.rest.length < s.rest.length → ∀ v m,
      SameUnless s₀.Refuses (runWith other u v m) (runWith other u.bare v m)) (v : Value)
    (m : Machine) :
    SameUnless s₀.Refuses (runLine other s l t v m) (runLine other s.bare l.bare t.bare v m) := by
  have ht : s₀.SameText t := hs.trans (sameText_of_next? h)
  have hlen : t.rest.length < s.rest.length := length_rest_of_next? h
  rcases l.parse_bare with hparse | ⟨d, hover⟩
  · unfold runLine
    rw [hparse, takeBlock?_bare]
    generalize Statement.parse l.content = p
    rcases p with e | statement
    · exact .refl _
    · cases statement with
      | foreach =>
        dsimp only
        rcases hblock : t.takeBlock? with _ | ⟨body, t'⟩
        · exact .refl _
        · obtain ⟨hbody, hbehind⟩ := sameText_of_takeBlock? hblock
          have hshorter := length_rest_of_takeBlock? hblock
          exact (SameUnless.runLoop _ (ih body (ht.trans hbody) (by omega)) v m).andThen
            (ih t' (ht.trans hbehind) (by omega))
      | close => exact .refl _
      | script path => exact (SameUnless.refl _).andThen (ih t ht hlen)
      | _ =>
        dsimp only
        rw [executeAt_bare]
        exact (SameUnless.refl _).andThen (ih t ht hlen)
  · obtain ⟨w, hparse⟩ := hover.parse
    have hat (f : Fault) : f.at s l = f.at s₀ l := by rw [Fault.at, Fault.at, hs.source_eq]
    refine .inr ⟨_, m, ?_, l, hs.lines_eq ▸ mem_lines_of_next? h, ⟨d, hover⟩, _, hparse, hat _⟩
    rw [runLine, hparse]

theorem sameUnless_runWith : ∀ (n : Nat) (s : Script), s₀.SameText s → s.rest.length < n → ∀ v m,
    SameUnless s₀.Refuses (runWith other s v m) (runWith other s.bare v m)
  | 0, _, _, hn, _, _ => absurd hn (Nat.not_lt_zero _)
  | n + 1, s, hs, hn, v, m => by
    rcases h : s.next? with _ | ⟨l, t⟩
    · rw [runWith_of_finished h, runWith_of_finished (by rw [next?_bare, h]; rfl)]
      exact .refl _
    · rw [runWith_of_next h, runWith_of_next (by rw [next?_bare, h]; rfl)]
      exact sameUnless_runLine hs h
        (fun u hu hlt => sameUnless_runWith n u hu (hlt.trans_le (Nat.le_of_lt_succ hn))) v m

/-- **Where loops and statements part.**  A line counts as the delimiter that it is as a statement
exactly if nothing is behind a delimiter's word; with something there it is refused.  Taking away
what is there leaves a script in which each line counts as what it is and which has the same blocks.
Its runs are the same, unless a run comes to a line where there is something and fails there. -/
theorem run_bare (s : Script) :
    (∀ l ∈ s.lines, ∀ d : Delimiter,
      ((l.Counts d ↔ Statement.parse l.content = .ok d.statement) ↔ ¬ l.Overloaded d) ∧
      (l.Overloaded d → ∃ w, Statement.parse l.content =
        .error (.unusedArgument w (String.ofList (behindWord l.content.toList))))) ∧
    (∀ l ∈ s.bare.lines, ∀ d : Delimiter,
      l.Counts d ↔ Statement.parse l.content = .ok d.statement) ∧
    (s.bare.takeBlock? = s.takeBlock?.map fun (body, t) => (body.bare, t.bare)) ∧
    ∀ (other : (Fault → Failure) → String → Runner) (v : Value) (m : Machine),
      SameUnless s.Refuses (runWith other s v m) (runWith other s.bare v m) := by
  refine ⟨fun l _ d => ⟨Line.agrees_iff, fun h => h.parse⟩, ?_, takeBlock?_bare s,
    fun other v m => ?_⟩
  · intro l hl d
    obtain ⟨k, -, rfl⟩ := List.mem_map.1 hl
    exact Line.agrees_iff.2 Line.not_overloaded_bare
  · exact sameUnless_runWith _ s ⟨rfl, rfl⟩ (Nat.lt_succ_self _) v m

/-- A loop ends at a line that is no statement. -/
theorem run_end_now :
    let s := parse "main" "foreach\nend now\n"
    (∃ l ∈ s.lines, l.Counts .closing ∧
      Statement.parse l.content = .error (.unusedArgument "end" "now")) ∧
    (run s (.sequence [.null]) {}).1 = .ok (.sequence [.null]) := by
  intro s
  have hlines : s.lines = [⟨1, "foreach", "foreach"⟩, ⟨2, "end now", "end now"⟩] := by
    decide +kernel
  refine ⟨?_, ?_⟩
  · rw [hlines]
    exact ⟨_, List.mem_cons_of_mem _ List.mem_cons_self, Line.counts_iff.2 (by decide), by decide⟩
  · have hs : s = ⟨"main", [⟨1, "foreach", "foreach"⟩, ⟨2, "end now", "end now"⟩], 0, 2, 0⟩ := by
      change (⟨"main", s.lines, 0, s.lines.length, 0⟩ : Script) = _
      rw [hlines]
      rfl
    have hopen : Statement.parse "foreach" = .ok .foreach := by decide
    have hrounds : rounds (.sequence [.null]) = .ok [⟨none, .null, .null⟩] := by rfl
    -- the body has no lines, and nothing is behind the line that it ends before
    have hblock : takeBlock? ⟨"main", s.lines, 0, 2, 1⟩ =
        some (⟨"main", s.lines, 1, 1, 1⟩, ⟨"main", s.lines, 0, 2, 2⟩) := by
      rw [hlines]
      rfl
    have hbody : next? ⟨"main", s.lines, 1, 1, 1⟩ = none := by
      rw [hlines]
      rfl
    have hbehind : next? ⟨"main", s.lines, 0, 2, 2⟩ = none := by
      rw [hlines]
      rfl
    rw [hlines] at hblock hbody hbehind
    rw [hs, run, runTo, runWith_of_next rfl, runLine, hopen]
    dsimp only
    rw [hblock]
    dsimp only
    rw [runLoop, hrounds]
    simp only [runRounds, runWith_of_finished hbody, andThen, runWith_of_finished hbehind]

end Script

end YamlQuery.Batch

import YamlQuery.Proofs.Batch.Delimiters
import YamlQuery.Proofs.Command.Quoting

/-!
# Proofs.Batch.Comments — comments behind quoted arguments

Where a quoted argument ends is decided twice: when a comment is cut off a line of a script, and when
the line of a command is cut into words.  For a command with quoted arguments the two agree: what is
cut off is the comment behind the last argument, and the words are the name of the command and the
quoted texts (`content?_of_quoted`).
-/

namespace YamlQuery

/-! ### Letters are not blank -/

namespace Text

variable {c : Char}

theorem isBlank_eq_false_of_isAlpha (h : c.isAlpha) : isBlank c = false := by
  have hrange : (65 ≤ c.toNat ∧ c.toNat ≤ 90) ∨ (97 ≤ c.toNat ∧ c.toNat ≤ 122) := by
    obtain hupper | hlower : c.isUpper ∨ c.isLower := by rwa [← Bool.or_eq_true]
    · exact .inl (of_decide_eq_true hupper)
    · exact .inr ((Bool.and_eq_true_iff.1 hlower).imp of_decide_eq_true of_decide_eq_true)
  simp only [isBlank, Bool.or_eq_false_iff, Bool.and_eq_false_iff, decide_eq_false_iff_not,
    beq_eq_false_iff_ne]
  omega

end Text

namespace Batch

open Command (Quoted escape)

variable {s t w : List Char} {c : Char} {p : Position}

/-! ### Where quoted arguments end -/

theorem uncommented_of_next {q : Position} (hnext : p.next c = q)
    (h : p = .gap → startsComment (c :: s) = false) :
    uncommented p (c :: s) = c :: uncommented q s := by
  rw [uncommented, hnext, if_neg]
  simpa using h

theorem uncommented_word (s : List Char) : ∀ {w : List Char}, (∀ c ∈ w, Text.isBlank c = false) →
    uncommented .word (w ++ s) = w ++ uncommented .word s
  | [], _ => rfl
  | c :: w, h => by
    obtain ⟨hc, hw⟩ := List.forall_mem_cons.1 h
    have hnext : Position.word.next c = .word := by
      rw [Position.next, hc]
      rfl
    rw [List.cons_append, uncommented_of_next hnext nofun, uncommented_word s hw]
    rfl

theorem uncommented_single (s : List Char) : ∀ {t : List Char}, '\'' ∉ t →
    uncommented (.quoted '\'') (t ++ '\'' :: s) = t ++ '\'' :: uncommented .word s
  | [], _ => uncommented_of_next rfl nofun
  | c :: t, h => by
    obtain ⟨hc, ht⟩ := not_or.1 (mt List.mem_cons.2 h)
    have hnext : (Position.quoted '\'').next c = .quoted '\'' := by
      rw [Position.next, if_neg (Ne.symm hc), if_neg (by simp)]
    rw [List.cons_append, uncommented_of_next hnext nofun, uncommented_single s ht]
    rfl

theorem uncommented_double (s : List Char) : ∀ t : List Char,
    uncommented (.quoted '"') (escape t ++ '"' :: s) = escape t ++ '"' :: uncommented .word s
  | [] => uncommented_of_next rfl nofun
  | c :: t => by
    by_cases h : Command.Words.isEscapable c
    · have hslash : (Position.quoted '"').next '\\' = .hidden := rfl
      have hnext : Position.hidden.next c = .quoted '"' := rfl
      rw [Command.escape_cons_of_isEscapable h, List.cons_append, List.cons_append,
        uncommented_of_next hslash nofun, uncommented_of_next hnext nofun, uncommented_double s t]
      rfl
    · have hnext : (Position.quoted '"').next c = .quoted '"' := by
        obtain ⟨hquote, hslash⟩ := Command.ne_of_not_isEscapable h
        rw [Position.next, if_neg hquote, if_neg fun hc => hslash hc.1]
      rw [Command.escape_cons_of_not_isEscapable h, List.cons_append,
        uncommented_of_next hnext nofun, uncommented_double s t]
      rfl

theorem uncommented_body (a : Quoted) (s : List Char) :
    uncommented (.quoted a.quote.mark) (a.body ++ a.quote.mark :: s) =
      a.body ++ a.quote.mark :: uncommented .word s := by
  obtain ⟨text, quote, fits⟩ := a
  cases quote with
  | single => exact uncommented_single s (fits rfl)
  | double => exact uncommented_double s text

theorem uncommented_source (a : Quoted) (s : List Char) :
    uncommented .gap (a.source ++ s) = a.source ++ uncommented .word s := by
  have hnext : Position.gap.next a.quote.mark = .quoted a.quote.mark := by
    cases a.quote <;> rfl
  have hstart (s : List Char) : startsComment (a.quote.mark :: s) = false := by
    cases a.quote <;> rfl
  rw [Quoted.source_append, Quoted.source_append, uncommented_of_next hnext fun _ => hstart _,
    uncommented_body]

theorem uncommented_tail (s : List Char) : ∀ args : List Quoted,
    uncommented .word (Quoted.tail args ++ s) = Quoted.tail args ++ uncommented .word s
  | [] => rfl
  | a :: args => by
    have hgap : Position.word.next ' ' = .gap := rfl
    rw [Quoted.tail_cons, List.cons_append, List.append_assoc, uncommented_of_next hgap nofun,
      uncommented_source, uncommented_tail s args, List.cons_append, List.append_assoc]

/-! ### Where comments begin -/

/-- A comment at the end of a line: blanks, its mark, and any text. -/
def IsComment (comment : List Char) : Prop :=
  ∃ blanks rest, blanks ≠ [] ∧ blanks.all Text.isBlank ∧ startsComment rest ∧ blanks ++ rest = comment

theorem startsComment_of_isBlank (h : Text.isBlank c) (s : List Char) :
    startsComment (c :: s) = false := by
  unfold startsComment
  split
  · next heq =>
    cases heq
    exact absurd h (by decide)
  · next heq =>
    cases heq
    exact absurd h (by decide)
  · rfl

theorem uncommented_gap (hrest : startsComment t) : ∀ {s : List Char}, s.all Text.isBlank →
    uncommented .gap (s ++ t) = s
  | [], _ => by
    cases t with
    | nil => cases hrest
    | cons c t => exact if_pos (by simpa using hrest)
  | c :: s, h => by
    obtain ⟨hc, hs⟩ := List.forall_mem_cons.1 (List.all_eq_true.1 h)
    have hnext : Position.gap.next c = .gap := by
      have hquote : ¬ (c = '\'' ∨ c = '"') := by
        rintro (rfl | rfl) <;> exact absurd hc (by decide)
      rw [Position.next, if_neg hquote, if_pos hc]
    rw [List.cons_append, uncommented_of_next hnext fun _ => startsComment_of_isBlank hc _,
      uncommented_gap hrest (List.all_eq_true.2 hs)]

/-- The blanks in front of a comment are not cut off with it. -/
theorem uncommented_blanks (hne : s ≠ []) (hs : s.all Text.isBlank) (hrest : startsComment t) :
    uncommented .word (s ++ t) = s := by
  obtain ⟨c, s, rfl⟩ := List.exists_cons_of_ne_nil hne
  obtain ⟨hc, hs⟩ := List.forall_mem_cons.1 (List.all_eq_true.1 hs)
  have hnext : Position.word.next c = .gap := by rw [Position.next, if_pos hc]
  rw [List.cons_append, uncommented_of_next hnext nofun, uncommented_gap hrest (List.all_eq_true.2 hs)]

/-- Blanks at the end of a comment are part of it. -/
theorem exists_trimEnd_append (h : startsComment t) (s : List Char) :
    ∃ r, Text.trimEnd (s ++ t) = s ++ r ∧ startsComment r := by
  have hrest : startsComment (Text.trimEnd t) := by
    unfold startsComment at h
    split at h
    · rw [Text.trimEnd_cons_of_not_isBlank (by decide)]
      rfl
    · rw [Text.trimEnd_cons_of_not_isBlank (by decide), Text.trimEnd_cons_of_not_isBlank (by decide)]
      rfl
    · cases h
  refine ⟨Text.trimEnd t, Text.trimEnd_append fun hnil => ?_, hrest⟩
  rw [hnil] at hrest
  cases hrest

/-! ### Lines of commands -/

theorem isCommentLine_of_isAlpha (h : c.isAlpha) (s : List Char) :
    isCommentLine (c :: s) = false := by
  have hdash : c ≠ '-' := Text.ne_of_isAlpha h (by decide)
  have hhash : c ≠ '#' := Text.ne_of_isAlpha h (by decide)
  have hslash : c ≠ '/' := Text.ne_of_isAlpha h (by decide)
  unfold isCommentLine startsComment
  grind

theorem isBlank_mark (q : Command.Quote) : Text.isBlank q.mark = false := by
  cases q <;> rfl

theorem trimEnd_source (a : Quoted) : Text.trimEnd a.source = a.source := by
  rw [Quoted.source, ← List.cons_append]
  exact Text.trimEnd_append_of_not_isBlank (isBlank_mark a.quote)

theorem trimEnd_tail : ∀ args : List Quoted, Text.trimEnd (Quoted.tail args) = Quoted.tail args
  | [] => rfl
  | a :: args => by
    have hne : Text.trimEnd (a.source ++ Quoted.tail args) ≠ [] := by
      rw [Text.trimEnd_append_eq_self (trimEnd_source a) (trimEnd_tail args)]
      exact List.cons_ne_nil _ _
    rw [Quoted.tail_cons, ← List.singleton_append, Text.trimEnd_append hne,
      Text.trimEnd_append_eq_self (trimEnd_source a) (trimEnd_tail args)]

theorem trim_tail_cons (a : Quoted) (args : List Quoted) :
    Text.trim (Quoted.tail (a :: args)) = a.source ++ Quoted.tail args := by
  have hspace (s : List Char) : Text.trimStart (' ' :: s) = Text.trimStart s := rfl
  rw [Text.trim, Quoted.tail_cons, hspace, Quoted.source_append,
    Text.trimStart_cons_of_not_isBlank (isBlank_mark a.quote), ← Quoted.source_append,
    Text.trimEnd_append_eq_self (trimEnd_source a) (trimEnd_tail args)]

section

variable {word comment : List Char} (hword : word.all Char.isAlpha) (hne : word ≠ [])
  (args : List Quoted)

include hword

theorem isBlank_eq_false_of_mem : ∀ c ∈ word, Text.isBlank c = false := fun c hc =>
  Text.isBlank_eq_false_of_isAlpha (List.all_eq_true.1 hword c hc)

theorem trimEnd_line : Text.trimEnd (Quoted.line word args) = Quoted.line word args := by
  refine Text.trimEnd_append_eq_self (List.rdropWhile_eq_self_iff.2 fun hne => ?_) (trimEnd_tail args)
  rw [isBlank_eq_false_of_mem hword _ (List.getLast_mem hne)]
  exact Bool.false_ne_true

theorem uncommented_line (s : List Char) : uncommented .word (Quoted.line word args ++ s) =
    Quoted.line word args ++ uncommented .word s := by
  rw [Quoted.line, List.append_assoc, uncommented_word _ (isBlank_eq_false_of_mem hword),
    uncommented_tail, List.append_assoc]

include hne

theorem exists_line_eq_cons : ∃ c w, c.isAlpha ∧ Quoted.line word args = c :: w := by
  obtain ⟨c, w, rfl⟩ := List.exists_cons_of_ne_nil hne
  exact ⟨c, w ++ Quoted.tail args, List.all_eq_true.1 hword c List.mem_cons_self, rfl⟩

theorem trim_line : Text.trim (Quoted.line word args) = Quoted.line word args := by
  obtain ⟨c, w, hc, hline⟩ := exists_line_eq_cons hword hne args
  rw [Text.trim, hline, Text.trimStart_cons_of_not_isBlank (Text.isBlank_eq_false_of_isAlpha hc),
    ← hline, trimEnd_line hword]

theorem content?_line (s : List Char) : content? (Quoted.line word args ++ s) =
    some (Text.trimEnd (uncommented .word (Text.trimEnd (Quoted.line word args ++ s)))) := by
  obtain ⟨c, w, hc, hline⟩ := exists_line_eq_cons hword hne args
  have hblank := Text.isBlank_eq_false_of_isAlpha hc
  have htrim : Text.trim (Quoted.line word args ++ s) = Text.trimEnd (Quoted.line word args ++ s) := by
    rw [Text.trim, hline, List.cons_append, Text.trimStart_cons_of_not_isBlank hblank]
  have hcomment : isCommentLine (Text.trimEnd (Quoted.line word args ++ s)) = false := by
    rw [hline, List.cons_append, Text.trimEnd_cons_of_not_isBlank hblank]
    exact isCommentLine_of_isAlpha hc _
  rw [content?]
  rw [htrim, hcomment]
  rfl

/-- Of a line with a comment, the comment is cut off. -/
theorem content?_line_comment (hcomment : comment = [] ∨ IsComment comment) :
    content? (Quoted.line word args ++ comment) = some (Quoted.line word args) := by
  rw [content?_line hword hne]
  obtain rfl | ⟨blanks, rest, hblanks, hall, hrest, rfl⟩ := hcomment
  · have hkept := uncommented_line hword args []
    rw [List.append_nil, show uncommented .word [] = [] from rfl, List.append_nil] at hkept
    rw [List.append_nil, trimEnd_line hword, hkept, trimEnd_line hword]
  · obtain ⟨r, htrim, hr⟩ := exists_trimEnd_append hrest (Quoted.line word args ++ blanks)
    rw [← List.append_assoc, htrim, List.append_assoc, uncommented_line hword,
      uncommented_blanks hblanks hall hr, Text.trimEnd_append_of_blank hall, trimEnd_line hword]

end

/-! ### Commands -/

namespace Statement

/-- The first words that are no names of commands. -/
def keywords : List (List Char) :=
  ["properties".toList, "setproperty".toList, "print".toList, "saveto".toList, "useasinput".toList,
    "batch".toList, openWord, closeWord]

variable {word : List Char}

theorem ofWords_of_not_mem (hne : word ≠ []) (h : Text.lower word ∉ keywords) (rest : List Char) :
    ofWords word rest = .ok (.command (String.ofList word) (String.ofList rest)) := by
  simp only [keywords, List.mem_cons, List.not_mem_nil, or_false, not_or] at h
  obtain ⟨hproperties, hset, hprint, hsave, huse, hbatch, hopen, hclose⟩ := h
  have hempty : ¬ (Text.lower word).isEmpty := by simpa [Text.lower] using hne
  dsimp only [ofWords]
  rw [if_neg hproperties, if_neg hset, if_neg hprint, if_neg hsave, if_neg huse, if_neg hbatch,
    if_neg hopen, if_neg hclose, if_neg hempty]

/-- The line of a command can be put together again from its parts. -/
theorem parse_line (hword : word.all Char.isAlpha) (hne : word ≠ [])
    (h : Text.lower word ∉ keywords) (args : List Quoted) :
    ∃ arguments, parse (String.ofList (Quoted.line word args)) =
        .ok (.command (String.ofList word) arguments) ∧
      (command (String.ofList word) arguments).commandLine? =
        some (String.ofList (Quoted.line word args)) := by
  have hblank : ∀ c ∈ word, (! Text.isBlank c) = true := fun c hc => by
    rw [isBlank_eq_false_of_mem hword c hc]
    rfl
  have hparse : parse (String.ofList (Quoted.line word args)) =
      ofWords word (Text.trim (Quoted.tail args)) := by
    rw [parse, String.toList_ofList, trim_line hword hne, Quoted.line,
      List.takeWhile_append_of_pos hblank, List.dropWhile_append_of_pos hblank]
    cases args with
    | nil => rw [show Quoted.tail [] = [] from rfl, List.takeWhile_nil, List.append_nil]; rfl
    | cons a args =>
      rw [Quoted.tail_cons, List.takeWhile_cons_of_neg (by decide), List.append_nil,
        List.dropWhile_cons_of_neg (by decide)]
  refine ⟨_, hparse.trans (ofWords_of_not_mem hne h _), ?_⟩
  cases args with
  | nil =>
    rw [Quoted.line, show Quoted.tail [] = [] from rfl, List.append_nil]
    rfl
  | cons a args =>
    have hjoin (t : List Char) : String.ofList (word ++ ' ' :: t) =
        String.ofList word ++ " " ++ String.ofList t := by
      rw [← List.singleton_append, String.ofList_append, String.ofList_append, ← String.append_assoc]
    rw [trim_tail_cons, commandLine?, Quoted.line, Quoted.tail_cons, hjoin,
      if_neg (by simp [Quoted.source])]

end Statement

/-- **Comments and words agree on quoted arguments.**  Of a line with the name of a command, quoted
arguments and a comment, what is left is the line without the comment.  It is the line of a command,
and its words are the name of the command and the texts that are quoted. -/
theorem content?_of_quoted (name : List Char) {comment : List Char} (args : List Quoted)
    (hname : name.all Char.isAlpha) (hne : name ≠ []) (hkey : Text.lower name ∉ Statement.keywords)
    (hcomment : comment = [] ∨ IsComment comment) :
    let line := Quoted.line name args
    content? (line ++ comment) = some line ∧
    ∃ arguments, Statement.parse (String.ofList line) =
        .ok (.command (String.ofList name) arguments) ∧
      (Statement.command (String.ofList name) arguments).commandLine? = some (String.ofList line) ∧
      Command.words? line = some (name :: args.map (·.text)) := by
  intro line
  obtain ⟨arguments, hparse, hline⟩ := Statement.parse_line hname hne hkey args
  have hordinary : name.all Command.Words.isOrdinary :=
    List.all_eq_true.2 fun c hc => Command.Words.isOrdinary_of_isAlpha (List.all_eq_true.1 hname c hc)
  exact ⟨content?_line_comment hname hne args hcomment, arguments, hparse, hline,
    Command.Words.words?_line hordinary hne args⟩

/-- A comment sign, quotes of both kinds and a backslash between quotes, and a comment with them. -/
theorem content?_of_quoted_signs :
    let args : List Quoted := [{ text := "# //".toList, quote := .single },
      { text := "a\\' \" #$".toList }, { text := [] }]
    let line := "Insert '# //' \"a\\\\' \\\" #\\$\" \"\"".toList
    content? (line ++ "\t# \"'".toList) = some line ∧
      Command.words? line = some ("Insert".toList :: args.map (·.text)) := by
  intro args line
  have hline : Quoted.line "Insert".toList args = line := by decide
  have hcomment : IsComment "\t# \"'".toList := ⟨['\t'], "# \"'".toList, by decide⟩
  obtain ⟨hcontent, arguments, -, -, hwords⟩ := content?_of_quoted "Insert".toList args
    (by decide) (by decide) (by decide) (.inr hcomment)
  rw [hline] at hcontent hwords
  exact ⟨hcontent, hwords⟩

end Batch
end YamlQuery

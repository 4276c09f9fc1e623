import YamlQuery.Proofs.Command.Blind

/-!
# Proofs.Command.Quoting — quoted arguments on a command line

Between single quotes any text can be written that has none itself, and between double quotes any
text with backslashes in front of the characters that need them (`Quoted`).  The words of a line are
its first word and the texts that are quoted behind it (`Words.words?_line`).
-/

namespace YamlQuery

theorem Text.ne_of_isAlpha {c d : Char} (hc : c.isAlpha) (hd : d.isAlpha = false) : c ≠ d := by
  rintro rfl
  rw [hd] at hc
  cases hc

namespace Command

/-! ### Quoted texts -/

/-- The two kinds of quotes. -/
inductive Quote
  | single
  | double
deriving DecidableEq

def Quote.mark : Quote → Char
  | .single => '\''
  | .double => '"'

/-- A text to be written between quotes of a kind. -/
structure Quoted where
  text : List Char
  quote : Quote := .double
  fits : quote = .single → '\'' ∉ text := by decide

/-- The text with a backslash in front of each character that needs one between double quotes. -/
def escape (s : List Char) : List Char :=
  s.flatMap fun c => if Words.isEscapable c then ['\\', c] else [c]

theorem escape_cons_of_isEscapable {c : Char} (h : Words.isEscapable c) (s : List Char) :
    escape (c :: s) = '\\' :: c :: escape s := by
  rw [escape, List.flatMap_cons, if_pos h]
  rfl

theorem escape_cons_of_not_isEscapable {c : Char} (h : ¬ Words.isEscapable c) (s : List Char) :
    escape (c :: s) = c :: escape s := by
  rw [escape, List.flatMap_cons, if_neg h]
  rfl

/-- What stands between double quotes without a backslash neither ends them nor is one. -/
theorem ne_of_not_isEscapable {c : Char} (h : ¬ Words.isEscapable c) : c ≠ '"' ∧ c ≠ '\\' := by
  constructor
  · rintro rfl
    exact h rfl
  · rintro rfl
    exact h rfl

namespace Quoted

/-- What stands between the quotes. -/
def body (a : Quoted) : List Char :=
  match a.quote with
  | .single => a.text
  | .double => escape a.text

/-- The text between its quotes. -/
def source (a : Quoted) : List Char := a.quote.mark :: (a.body ++ [a.quote.mark])

/-- Quoted texts, each behind a blank. -/
def tail (args : List Quoted) : List Char := args.flatMap fun a => ' ' :: a.source

/-- A word and quoted texts behind it. -/
def line (word : List Char) (args : List Quoted) : List Char := word ++ tail args

theorem source_append (a : Quoted) (s : List Char) :
    a.source ++ s = a.quote.mark :: (a.body ++ a.quote.mark :: s) := by
  rw [source, List.cons_append, List.append_assoc]
  rfl

theorem tail_cons (a : Quoted) (args : List Quoted) : tail (a :: args) = ' ' :: (a.source ++ tail args) :=
  List.flatMap_cons

end Quoted

/-! ### The words of a line -/

namespace Words

theorem prepend_append_left (a b : List Char) (x : Option (List (List Char))) :
    (x.map (prepend b)).map (prepend a) = x.map (prepend (a ++ b)) := by
  rw [Option.map_map]
  refine congrArg (x.map ·) (funext fun ws => ?_)
  exact List.foldr_append.symm

variable {p q : Place} {c : Char} {cs t : List Char}

/-- A character that ends no word adds to the word that is read. -/
theorem readFrom?_of_next (h : p.next c = (q, cs)) (hq : q ≠ .gap) (s : List Char) :
    readFrom? p (c :: s) = (readFrom? q s).map (prepend cs) := by
  rw [readFrom?, h]
  simp [hq]

theorem readFrom?_single (s : List Char) : ∀ {t : List Char}, '\'' ∉ t →
    readFrom? .single (t ++ '\'' :: s) = (readFrom? .word s).map (prepend t)
  | [], _ => readFrom?_of_next (q := .word) rfl nofun s
  | c :: t, h => by
    obtain ⟨hc, ht⟩ := not_or.1 (mt List.mem_cons.2 h)
    have hnext : Place.single.next c = (.single, [c]) := if_neg (Ne.symm hc)
    rw [List.cons_append, readFrom?_of_next hnext nofun, readFrom?_single s ht, prepend_append_left]
    rfl

theorem readFrom?_double (s : List Char) : ∀ t : List Char,
    readFrom? .double (escape t ++ '"' :: s) = (readFrom? .word s).map (prepend t)
  | [] => readFrom?_of_next (q := .word) rfl nofun s
  | c :: t => by
    by_cases h : isEscapable c
    · have hnext : Place.doubleEscape.next c = (.double, [c]) := by
        have hfeed : c ≠ '\n' := by
          rintro rfl
          exact absurd h (by decide)
        rw [Place.next, if_neg hfeed, if_pos h]
      have hslash : Place.double.next '\\' = (.doubleEscape, []) := rfl
      rw [escape_cons_of_isEscapable h, List.cons_append, List.cons_append,
        readFrom?_of_next hslash nofun, readFrom?_of_next hnext nofun, readFrom?_double s t,
        prepend_append_left, prepend_append_left]
      rfl
    · have hnext : Place.double.next c = (.double, [c]) := by
        obtain ⟨hquote, hslash⟩ := ne_of_not_isEscapable h
        rw [Place.next, if_neg hquote, if_neg hslash]
      rw [escape_cons_of_not_isEscapable h, List.cons_append, readFrom?_of_next hnext nofun,
        readFrom?_double s t, prepend_append_left]
      rfl

/-- The place between quotes. -/
def between : Quote → Place
  | .single => .single
  | .double => .double

theorem readFrom?_body (a : Quoted) (s : List Char) :
    readFrom? (between a.quote) (a.body ++ a.quote.mark :: s) =
      (readFrom? .word s).map (prepend a.text) := by
  obtain ⟨text, quote, fits⟩ := a
  cases quote with
  | single => exact readFrom?_single s (fits rfl)
  | double => exact readFrom?_double s text

theorem readFrom?_source (a : Quoted) (s : List Char) :
    readFrom? .gap (a.source ++ s) = (readFrom? .word s).map (prepend a.text) := by
  have hnext : Place.gap.next a.quote.mark = (between a.quote, []) := by
    cases a.quote <;> rfl
  have hbetween : between a.quote ≠ .gap := by
    cases a.quote <;> nofun
  rw [Quoted.source_append, readFrom?_of_next hnext hbetween, readFrom?_body, prepend_append_left]
  rfl

theorem readFrom?_tail : ∀ args : List Quoted,
    readFrom? .word (Quoted.tail args) = some ([] :: args.map (·.text))
  | [] => rfl
  | a :: args => by
    have hgap (s : List Char) : readFrom? .word (' ' :: s) = (readFrom? .gap s).map ([] :: ·) := rfl
    rw [Quoted.tail_cons, hgap, readFrom?_source, readFrom?_tail args, Option.map_some,
      prepend_append, List.append_nil]
    rfl

theorem isOrdinary_of_isAlpha (h : c.isAlpha) : isOrdinary c := by
  have hsingle : c ≠ '\'' := Text.ne_of_isAlpha h (by decide)
  have hdouble : c ≠ '"' := Text.ne_of_isAlpha h (by decide)
  have hslash : c ≠ '\\' := Text.ne_of_isAlpha h (by decide)
  have hsign : c ≠ '#' := Text.ne_of_isAlpha h (by decide)
  have hspace : c ≠ ' ' := Text.ne_of_isAlpha h (by decide)
  have htab : c ≠ '\t' := Text.ne_of_isAlpha h (by decide)
  have hfeed : c ≠ '\n' := Text.ne_of_isAlpha h (by decide)
  simp [isOrdinary, Place.next, isGap, hsingle, hdouble, hslash, hsign, hspace, htab, hfeed]

/-- **The words of a line are the first word and the texts that are quoted behind it.** -/
theorem words?_line {word : List Char} (hword : word.all isOrdinary) (hne : word ≠ [])
    (args : List Quoted) : words? (Quoted.line word args) = some (word :: args.map (·.text)) := by
  rw [Quoted.line, words?_ordinary hword hne, readFrom?_tail, Option.map_some, prepend_append,
    List.append_nil]

end Words

end Command

end YamlQuery

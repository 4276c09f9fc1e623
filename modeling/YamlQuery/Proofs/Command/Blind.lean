import Mathlib.Data.List.Infix
import YamlQuery.Batch.Machine

/-!
# Proofs.Command.Blind — commands that ask for no properties

A text in which no token begins is its own expansion (`Substitute.text_of_no_token`).  Of the
commands only `macro` asks for properties, and `insert` and `replace` for stored values; what all
others give depends on the settings, the files and the document alone (`Command.run_congr`).  Which
command a line writes can be told from its first word (`Command.name_of_parse`).
-/

namespace YamlQuery

/-! ### Texts without tokens -/

namespace Substitute

variable {lookup : Lookup} {ns : List Char}

/-- What a token begins with. -/
def mark : List Char := ['$', '\x7b']

theorem tokenAt?_eq_none {s : List Char} (h : ¬ mark <+: s) : tokenAt? lookup ns s = none := by
  unfold tokenAt?
  split
  · exact absurd ⟨_, rfl⟩ h
  · rfl

theorem charsFrom_of_no_token : ∀ {s : List Char}, ¬ mark <:+: s →
    charsFrom lookup ns 0 s = (s, false)
  | [], _ => rfl
  | c :: s, h => by
    have hs : ¬ mark <:+: s := fun hs => h (List.infix_cons hs)
    rw [charsFrom, tokenAt?_eq_none fun hc => h hc.isInfix, charsFrom_of_no_token hs]

theorem text_of_no_token {s : String} (h : ¬ mark <:+: s.toList) (lookup : Lookup) (ns : String) :
    text lookup ns s = (s, false) := by
  rw [text, chars, charsFrom_of_no_token h]
  exact congrArg (·, false) String.ofList_toList

/-- A blank belongs to no token's beginning. -/
theorem not_mark_infix_join {s : List Char} (hs : ¬ mark <:+: s) : ∀ {r : List Char},
    ¬ mark <:+: r → ¬ mark <:+: r ++ ' ' :: s
  | [], _, h => by
    obtain h | h := List.infix_cons_iff.1 h
    · cases (List.cons_prefix_cons.1 h).1
    · exact hs h
  | c :: r, hr, h => by
    obtain h | h := List.infix_cons_iff.1 h
    · obtain ⟨rfl, hbrace⟩ := List.cons_prefix_cons.1 h
      cases r with
      | nil => cases (List.cons_prefix_cons.1 hbrace).1
      | cons d r =>
        obtain ⟨rfl, -⟩ := List.cons_prefix_cons.1 hbrace
        exact hr ⟨[], r, rfl⟩
    · exact not_mark_infix_join hs (fun hr' => hr (List.infix_cons hr')) h

end Substitute

/-! ### What commands depend on -/

/-- The sessions differ at most in what is stored under a name. -/
structure Session.AgreeBut (name : String) (s t : Session) : Prop where
  settings : s.settings = t.settings
  memory : ∀ n, n ≠ name → s.memory.get? n = t.memory.get? n

namespace Command

/-- The command takes neither properties nor what is stored under a name. -/
def IsBlindTo (name : String) : Command → Prop
  | .substitute _ => False
  | .insert _ text | .replace _ text => Reference.parse text ≠ .stored name
  | _ => True

variable {name : String} {s t : Session} {fs : Files}

theorem data_congr {text : String} (h : s.AgreeBut name t)
    (htext : Reference.parse text ≠ .stored name) :
    data fs s.memory text = data fs t.memory text := by
  rw [data, data, Reference.resolve, Reference.resolve]
  cases hr : Reference.parse text with
  | stored n =>
    have hn : n ≠ name := fun hn => htext (hn ▸ hr)
    rw [Reference.value, Reference.value, Reference.storedValue, Reference.storedValue,
      h.memory n hn]
  | file | inline => rfl

/-- What a blind command gives depends on the rest of the session, the files and the document. -/
theorem run_congr {c : Command} (hc : c.IsBlindTo name) (h : s.AgreeBut name t)
    (lookup lookup' : Lookup) (doc : Value) :
    c.run lookup s fs doc = c.run lookup' t fs doc := by
  cases c with
  | substitute => exact hc.elim
  | read | list | table | delete => rw [run, run, h.settings]
  | insert | replace => rw [run, run, h.settings, data_congr h hc]

/-! ### The first word of a line -/

namespace Words

theorem prepend_append (cs w : List Char) (ws : List (List Char)) :
    prepend cs (w :: ws) = (cs ++ w) :: ws := by
  induction cs with
  | nil => rfl
  | cons c cs ih =>
    rw [prepend, List.foldr_cons, ← prepend, ih]
    rfl

/-- The character stands for itself, inside a word and at its start. -/
def isOrdinary (c : Char) : Bool := Place.gap.next c = (.word, [c]) ∧ Place.word.next c = (.word, [c])

theorem isOrdinary_iff {c : Char} :
    isOrdinary c ↔ Place.gap.next c = (.word, [c]) ∧ Place.word.next c = (.word, [c]) :=
  decide_eq_true_iff

theorem readFrom?_word : ∀ {cs : List Char}, cs.all isOrdinary → ∀ s,
    readFrom? .word (cs ++ s) = (readFrom? .word s).map (prepend cs)
  | [], _, s => by
    have hid : prepend [] = id := rfl
    rw [hid, Option.map_id, List.nil_append, id]
  | c :: cs, h, s => by
    rw [List.all_cons, Bool.and_eq_true, isOrdinary_iff] at h
    obtain ⟨hc, hcs⟩ := h
    have hstep : readFrom? .word (c :: (cs ++ s)) = (readFrom? .word (cs ++ s)).map (prepend [c]) := by
      rw [readFrom?, hc.2]
      rfl
    rw [List.cons_append, hstep, readFrom?_word hcs s, Option.map_map]
    rfl

/-- A line that starts with ordinary characters is read on in the word they begin. -/
theorem words?_ordinary {cs : List Char} (hcs : cs.all isOrdinary) (hne : cs ≠ [])
    (rest : List Char) : words? (cs ++ rest) = (readFrom? .word rest).map (prepend cs) := by
  have hword : words? (cs ++ rest) = readFrom? .word (cs ++ rest) := by
    obtain ⟨c, cs, rfl⟩ := List.exists_cons_of_ne_nil hne
    have hc := isOrdinary_iff.1 (List.all_eq_true.1 hcs c List.mem_cons_self)
    rw [List.cons_append, words?, readFrom?, readFrom?, hc.1, hc.2]
    rfl
  rw [hword, readFrom?_word hcs]

/-- A line that starts with ordinary characters and a blank, or has no others, has them as its first
word. -/
theorem head_of_words? {cs rest : List Char} {ws : List (List Char)} (hcs : cs.all isOrdinary)
    (hne : cs ≠ []) (hrest : rest = [] ∨ ∃ s, rest = ' ' :: s)
    (h : words? (cs ++ rest) = some ws) : ∃ vs, ws = cs :: vs := by
  rw [words?_ordinary hcs hne] at h
  obtain ⟨us, hus, rfl⟩ := Option.map_eq_some_iff.1 h
  suffices hhead : ∃ vs, us = [] :: vs by
    obtain ⟨vs, rfl⟩ := hhead
    exact ⟨vs, by rw [prepend_append, List.append_nil]⟩
  obtain rfl | ⟨s, rfl⟩ := hrest
  · exact ⟨[], (Option.some.inj hus).symm⟩
  · obtain ⟨vs, -, rfl⟩ := Option.map_eq_some_iff.1 hus
    exact ⟨vs, rfl⟩

end Words

theorem name_of_ofArguments? {delimiter : Option String} {words : List String} {c : Command}
    (h : ofArguments? name delimiter words = some c) : c.name = name := by
  unfold ofArguments? at h
  split at h <;> repeat' split at h
  all_goals cases h
  all_goals exact Eq.symm ‹name = _›

theorem name_of_ofWords? {words : List String} {c : Command} (h : ofWords? (name :: words) = some c) :
    c.name = name := by
  rw [ofWords?] at h
  split at h
  · next hread =>
    cases h
    unfold readArguments at hread
    repeat' split at hread
    all_goals cases hread
    next hc => exact name_of_ofArguments? hc
  · cases h

/-- The command that a line writes has the name that the line starts with. -/
theorem name_of_parse {arguments line : String} {c : Command} (hname : name.toList ≠ [])
    (hordinary : name.toList.all Words.isOrdinary)
    (hline : (Batch.Statement.command name arguments).commandLine? = some line)
    (h : parse line = .ok c) : c.name = name := by
  have hwords : ∃ rest, line.toList = name.toList ++ rest ∧ (rest = [] ∨ ∃ s, rest = ' ' :: s) := by
    cases hline
    split
    · exact ⟨[], (List.append_nil _).symm, .inl rfl⟩
    · exact ⟨' ' :: arguments.toList, by simp, .inr ⟨_, rfl⟩⟩
  obtain ⟨rest, hline, hrest⟩ := hwords
  rw [parse, hline] at h
  rcases hws : words? (name.toList ++ rest) with _ | ws
  · rw [hws] at h
    cases h
  · obtain ⟨vs, rfl⟩ := Words.head_of_words? hordinary hname hrest hws
    rw [hws] at h
    dsimp only at h
    rw [List.map_cons, String.ofList_toList] at h
    rcases hc : ofWords? (name :: vs.map String.ofList) with _ | c'
    · rw [hc] at h
      cases h
    · rw [hc] at h
      cases h
      exact name_of_ofWords? hc

end Command

end YamlQuery

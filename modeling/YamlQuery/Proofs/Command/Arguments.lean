import YamlQuery.Document.Json
import YamlQuery.Proofs.Command.Quoting

/-!
# Proofs.Command.Arguments — arguments that look like options

Quotes keep a text together, but they do not keep it from being taken for an option, or for the mark
behind which no word is one.  As commands take no more arguments than they need, one is missing then
(`Options.length_words_lt`), and the line is no command.  All other texts are arguments as they are
(`ofWords?_of_not_isOption`).

So every text arrives that has not the form of an option.  The options of the command itself do not,
in quotes or without (`parse_quoted`).
-/

namespace YamlQuery

namespace Command

/-! ### Words that are no arguments -/

namespace Options

variable {forms : List OptionForm} {f : OptionForm} {o r : Options} {limit : Nat}
  {word value : String} {words : List String}

/-- The mark that ends the options, or one of the options by its name or by its letter, and what is
attached to it. -/
def IsDeclared (forms : List OptionForm) (s : List Char) : Prop :=
  s = ['-', '-'] ∨ ∃ f ∈ forms, s = '-' :: '-' :: f.name.toList ∨
    '-' :: '-' :: (f.name.toList ++ ['=']) <+: s ∨ ∃ c ∈ f.letter, ['-', c] <+: s

theorem IsDeclared.isOption {s : List Char} (h : IsDeclared forms s) : isOption s := by
  obtain rfl | ⟨f, -, rfl | ⟨t, rfl⟩ | ⟨c, -, t, rfl⟩⟩ := h <;> rfl

theorem words_of_enter (h : o.enter f value = .ok r) : r.words = o.words := by
  rw [enter] at h
  split at h
  · cases h
  · cases h
    rfl

theorem words_of_enterFlag (h : o.enterFlag f = .ok r) : r.words = o.words := by
  unfold enterFlag at h
  split at h
  · cases h
  · cases h
  · exact words_of_enter h

theorem words_of_readLong {name : List Char} {value : Option (List Char)}
    (h : o.readLong forms name value = .ok r) : r.words = o.words := by
  unfold readLong at h
  split at h
  · cases h
  · split at h
    · exact words_of_enter h
    · cases h
  · split at h
    · cases h
      rfl
    · exact words_of_enterFlag h

theorem words_of_readLetters : ∀ {s : List Char} {o : Options}, o.readLetters forms s = .ok r →
    r.words = o.words
  | [], o, h => by
    cases h
    rfl
  | c :: s, o, h => by
    rw [readLetters] at h
    split at h
    · cases h
    · split at h
      · split at h
        · cases h
          rfl
        · exact words_of_enter h
        · exact words_of_enter h
      · split at h
        · next hflag => exact (words_of_readLetters h).trans (words_of_enterFlag hflag)
        · cases h

/-- An option is no argument. -/
theorem words_of_isOption (hclosed : o.closed = false) (hword : isOption word.toList)
    (h : o.readWord forms limit word = .ok r) : r.words = o.words := by
  have hopen : (!o.closed && isOption word.toList) = true := by rw [hclosed, hword]; rfl
  unfold readWord at h
  dsimp only at h
  rw [if_pos hopen] at h
  split at h
  · cases h
  · split at h
    · cases h
      rfl
    · split at h
      · exact words_of_readLong h
      · exact words_of_readLong h
    · exact words_of_readLetters h

/-- Any other word is an argument, or the value of the option before it. -/
theorem readWord_of_not_isOption (hword : ¬ (!o.closed && isOption word.toList) = true)
    (h : o.readWord forms limit word = .ok r) :
    r.closed = o.closed ∧ r.words.length ≤ o.words.length + 1 := by
  unfold readWord at h
  dsimp only at h
  rw [if_neg hword] at h
  split at h
  · rw [enter] at h
    split at h
    · cases h
    · cases h
      exact ⟨rfl, Nat.le_succ _⟩
  · split at h
    · cases h
      exact ⟨rfl, List.length_append.le⟩
    · cases h

theorem length_words_of_readWord (h : o.readWord forms limit word = .ok r) :
    r.words.length ≤ o.words.length + 1 := by
  by_cases hword : (!o.closed && isOption word.toList) = true
  · obtain ⟨hclosed, hoption⟩ : o.closed = false ∧ isOption word.toList = true := by
      simpa using hword
    rw [words_of_isOption hclosed hoption h]
    exact Nat.le_succ _
  · exact (readWord_of_not_isOption hword h).2

theorem exists_of_foldlM_cons (h : (word :: words).foldlM (readWord forms limit) o = .ok r) :
    ∃ m, o.readWord forms limit word = .ok m ∧ words.foldlM (readWord forms limit) m = .ok r := by
  rw [List.foldlM_cons] at h
  cases hword : o.readWord forms limit word with
  | error e =>
    rw [hword] at h
    cases h
  | ok m =>
    rw [hword] at h
    exact ⟨m, rfl, h⟩

theorem length_words_le : ∀ {words : List String} {o : Options},
    words.foldlM (readWord forms limit) o = .ok r → r.words.length ≤ o.words.length + words.length
  | [], o, h => by
    cases h
    exact Nat.le_refl _
  | word :: words, o, h => by
    obtain ⟨m, hword, hrest⟩ := exists_of_foldlM_cons h
    have hone := length_words_of_readWord hword
    have hall := length_words_le hrest
    rw [List.length_cons]
    omega

/-- **Where a word is an option, there are fewer arguments than words.** -/
theorem length_words_lt : ∀ {words : List String} {o : Options}, o.closed = false →
    (∃ w ∈ words, isOption w.toList) → words.foldlM (readWord forms limit) o = .ok r →
      r.words.length < o.words.length + words.length
  | [], o, _, hoption, _ => by simp at hoption
  | word :: words, o, hclosed, hoption, h => by
    obtain ⟨m, hword, hrest⟩ := exists_of_foldlM_cons h
    rw [List.length_cons]
    by_cases hw : isOption word.toList
    · have hall := length_words_le hrest
      rw [words_of_isOption hclosed hw hword] at hall
      omega
    · have hrestoption : ∃ w ∈ words, isOption w.toList := by simpa [hw] using hoption
      obtain ⟨hopen, hone⟩ := readWord_of_not_isOption (by simp [hw]) hword
      have hall := length_words_lt (hopen.trans hclosed) hrestoption hrest
      omega

theorem foldlM_of_not_isOption : ∀ {words : List String} {o : Options}, o.waiting = none →
    o.closed = false → (∀ w ∈ words, ¬ isOption w.toList) →
    o.words.length + words.length ≤ limit →
      words.foldlM (readWord forms limit) o = .ok { o with words := o.words ++ words }
  | [], o, _, _, _, _ => by
    rw [List.append_nil]
    rfl
  | word :: words, o, hwaiting, hclosed, hoption, hlimit => by
    obtain ⟨hw, hws⟩ := List.forall_mem_cons.1 hoption
    rw [List.length_cons] at hlimit
    have hword : o.readWord forms limit word = .ok { o with words := o.words ++ [word] } := by
      unfold readWord
      dsimp only
      rw [if_neg (by simp [hw]), hwaiting]
      exact if_pos (by omega)
    have hlength : (o.words ++ [word]).length + words.length ≤ limit := by
      rw [List.length_append, List.length_singleton]
      omega
    have hrest := foldlM_of_not_isOption (o := { o with words := o.words ++ [word] }) hwaiting
      hclosed hws hlength
    rw [List.append_assoc] at hrest
    rw [List.foldlM_cons, hword]
    exact hrest

theorem foldlM_of_read (h : read forms limit words = .ok r) :
    words.foldlM (readWord forms limit) {} = .ok r := by
  rw [read] at h
  cases hfold : words.foldlM (readWord forms limit) {} with
  | error e =>
    rw [hfold] at h
    cases h
  | ok m =>
    rw [hfold] at h
    change (if m.waiting.isSome then _ else _) = _ at h
    split at h
    · cases h
    · exact h

end Options

/-! ### The arguments of a command -/

variable {name : String} {words : List String}

theorem arity_of_ofArguments? {delimiter : Option String} {c : Command}
    (h : ofArguments? name delimiter words = some c) : arity? name = some words.length := by
  unfold ofArguments? at h
  split at h <;> repeat' split at h
  all_goals cases h
  all_goals
    next hname =>
    subst hname
    simp only [List.length_cons, List.length_nil]
    decide

theorem ofWords?_of_not_isOption (hname : arity? name = some words.length)
    (h : ∀ w ∈ words, ¬ Options.isOption w.toList) :
    ofWords? (name :: words) = ofArguments? name none words := by
  have hread : Options.read (forms name ++ []) words.length words = .ok { words } := by
    rw [Options.read, Options.foldlM_of_not_isOption rfl rfl h (by simp)]
    rfl
  rw [ofWords?, readArguments, hname]
  dsimp only
  rw [hread]
  dsimp only [Entries.get?_nil]
  cases ofArguments? name none words <;> rfl

theorem ofWords?_of_isOption (hname : arity? name = some words.length)
    (h : ∃ w ∈ words, Options.isOption w.toList) : ofWords? (name :: words) = none := by
  rw [ofWords?, readArguments, hname]
  dsimp only
  cases hread : Options.read (forms name ++ []) words.length words with
  | error e => rfl
  | ok o =>
    have hfewer : o.words.length < 0 + words.length :=
      Options.length_words_lt rfl h (Options.foldlM_of_read hread)
    dsimp only
    cases harguments : ofArguments? name (o.values.get? delimiterForm.name) o.words with
    | none => rfl
    | some c =>
      have harity := arity_of_ofArguments? harguments
      rw [hname, Option.some_inj] at harity
      omega

/-! ### Quoted arguments -/

theorem parse_line {args : List Quoted} (hname : name.toList.all Char.isAlpha)
    (harity : arity? name = some args.length) :
    parse (String.ofList (Quoted.line name.toList args)) =
      match ofWords? (name :: args.map fun a => String.ofList a.text) with
      | some c => .ok c
      | none => .error .misfit := by
  have hne : name.toList ≠ [] := by
    intro hnil
    rw [String.toList_eq_nil_iff.1 hnil] at harity
    cases harity
  have hordinary : name.toList.all Words.isOrdinary :=
    List.all_eq_true.2 fun c hc => Words.isOrdinary_of_isAlpha (List.all_eq_true.1 hname c hc)
  rw [parse, String.toList_ofList, Words.words?_line hordinary hne]
  dsimp only
  rw [List.map_cons, String.ofList_toList, List.map_map]
  rfl

/-- All texts arrive that do not look like options. -/
theorem parse_line_of_not_isOption {args : List Quoted} {c : Command}
    (hname : name.toList.all Char.isAlpha) (harity : arity? name = some args.length)
    (hargs : ofArguments? name none (args.map fun a => String.ofList a.text) = some c)
    (h : ∀ a ∈ args, ¬ Options.isOption a.text) :
    parse (String.ofList (Quoted.line name.toList args)) = .ok c := by
  have hwords : ∀ w ∈ args.map fun a => String.ofList a.text, ¬ Options.isOption w.toList := by
    intro w hw
    obtain ⟨a, ha, rfl⟩ := List.mem_map.1 hw
    rw [String.toList_ofList]
    exact h a ha
  rw [parse_line hname harity, ofWords?_of_not_isOption (by rwa [List.length_map]) hwords, hargs]

theorem parse_line_of_isOption {args : List Quoted} (hname : name.toList.all Char.isAlpha)
    (harity : arity? name = some args.length) (h : ∃ a ∈ args, Options.isOption a.text) :
    parse (String.ofList (Quoted.line name.toList args)) = .error .misfit := by
  have hwords : ∃ w ∈ args.map fun a => String.ofList a.text, Options.isOption w.toList := by
    obtain ⟨a, ha, hoption⟩ := h
    refine ⟨_, List.mem_map_of_mem ha, ?_⟩
    rwa [String.toList_ofList]
  rw [parse_line hname harity, ofWords?_of_isOption (by rwa [List.length_map]) hwords]

/-- A JSON text that starts with a sign is a number. -/
theorem exists_number_of_readJson? {text : String} {v : Value} (h : Value.readJson? text = some v)
    (hoption : Options.isOption text.toList) : ∃ n, v = .number n := by
  obtain ⟨j, hj, rfl⟩ := Option.map_eq_some_iff.1 h
  generalize text.toList = s at hj hoption
  unfold Options.isOption at hoption
  split at hoption
  · next c s =>
    have hspace : Json.skipSpace ('-' :: c :: s) = '-' :: c :: s := rfl
    rw [Json.read?, hspace] at hj
    split at hj
    · next v rest hvalue =>
      rw [Json.value?] at hvalue
      · obtain ⟨⟨n, _⟩, -, hnumber⟩ := Option.map_eq_some_iff.1 hvalue
        cases hnumber
        split at hj
        · cases hj
          exact ⟨_, rfl⟩
        · cases hj
      -- no other value starts with a sign
      all_goals simp
    · cases hj
  · cases hoption

/-- **Quotes keep texts together and hide no options.**  An insert or a replace with a path and data in
quotes, each of either kind, is the command with these two texts and no delimiter of its own, if none of
them has the form of an option.  If one of them is an option of the command, it is no command.  Data
that is written in JSON has the form of an option only if it is a number. -/
theorem parse_quoted (path data : Quoted) :
    (∀ form ∈ [("insert", insert), ("replace", replace)],
      let line := String.ofList (Quoted.line form.1.toList [path, data])
      (¬ Options.isOption path.text → ¬ Options.isOption data.text →
        parse line = .ok (form.2 ⟨String.ofList path.text, none⟩ (String.ofList data.text))) ∧
      (Options.IsDeclared (forms form.1) path.text ∨ Options.IsDeclared (forms form.1) data.text →
        parse line = .error .misfit)) ∧
    ∀ v, Value.readJson? (String.ofList data.text) = some v → Options.isOption data.text →
      ∃ n, v = .number n := by
  refine ⟨fun form hform => ?_, fun v hv hoption => ?_⟩
  · have hname : form.1.toList.all Char.isAlpha ∧ arity? form.1 = some 2 ∧
        ofArguments? form.1 none [String.ofList path.text, String.ofList data.text] =
          some (form.2 ⟨String.ofList path.text, none⟩ (String.ofList data.text)) := by
      simp only [List.mem_cons, List.not_mem_nil, or_false] at hform
      obtain rfl | rfl := hform <;> exact ⟨by decide, by decide, rfl⟩
    obtain ⟨halpha, harity, hargs⟩ := hname
    refine ⟨fun hpath hdata => ?_, fun h => ?_⟩
    · exact parse_line_of_not_isOption halpha harity hargs (by simp [hpath, hdata])
    · have hoption : Options.isOption path.text ∨ Options.isOption data.text :=
        h.imp Options.IsDeclared.isOption Options.IsDeclared.isOption
      exact parse_line_of_isOption halpha harity (by simpa using hoption)
  · exact exists_number_of_readJson? hv (by rwa [String.toList_ofList])

/-- A negative number inside of JSON data, and a lone dash as the path. -/
theorem parse_quoted_nested :
    parse "replace '-' \"[\\\"it's\\\", -1]\"" = .ok (.replace ⟨"-", none⟩ "[\"it's\", -1]") := by
  have hreplace := (parse_quoted { text := ['-'], quote := .single }
    { text := "[\"it's\", -1]".toList }).1 ("replace", replace) (by simp)
  exact hreplace.1 (by decide) (by decide)

/-- The letter of an option is no data, unless it stands behind the mark that ends the options. -/
theorem parse_option_in_quotes :
    parse "insert 'a' '-d'" = .error .misfit ∧
      parse "insert 'a' '-d'" ≠ .ok (.insert ⟨"a", none⟩ "-d") ∧
      parse "insert -- 'a' '-d'" = .ok (.insert ⟨"a", none⟩ "-d") := by
  decide +kernel

end Command

end YamlQuery

import YamlQuery.Proofs.Yaml.Scalars

/-!
# Proofs.Yaml.Flow — the tokens of JSON text

To the reader of YAML a JSON text is a scalar or a flow collection.  No block is open in it and no
place of it must be a key (`Calm`), so the indentation of JSON does not count, and neither does the
rest of the state but for the candidate of the innermost collection.  `Scans` says which tokens a
value becomes; a key of more than 1024 characters, quotes included, is not marked as a key.
-/

namespace YamlQuery.Json

open Yaml

/-! ### The tokens of JSON -/

/-- A reader of YAML knows the key of a flow mapping as one: there are at most 1024 characters
before the colon. -/
def isShortKey (k : String) : Bool := (quoted k).length ≤ 1024

/-- The tokens of a key and the colon behind it. -/
def keyTokens (k : String) : List Token :=
  (if isShortKey k then [.key] else []) ++ [.scalar k .doubleQuoted, .value]

mutual

/-- The tokens of the text of a value. -/
def tokens : Json → List Token
  | .null => [.scalar "null" .plain]
  | .boolean b => [.scalar (if b then "true" else "false") .plain]
  | .number n => [.scalar (String.ofList (numeral n)) .plain]
  | .string s => [.scalar s .doubleQuoted]
  | .array items => .flowSequence :: (itemTokens items ++ [.flowSequenceEnd])
  | .object members => .flowMapping :: (memberTokens members ++ [.flowMappingEnd])

def itemTokens : List Json → List Token
  | [] => []
  | [v] => tokens v
  | v :: vs => tokens v ++ .comma :: itemTokens vs

def memberTokens : List (String × Json) → List Token
  | [] => []
  | [(k, v)] => keyTokens k ++ tokens v
  | (k, v) :: ms => keyTokens k ++ tokens v ++ .comma :: memberTokens ms

end

end YamlQuery.Json

namespace YamlQuery.Yaml.Reading

open Text

variable {r r' r'' : Reading} {s t : List Char} {ts ts' : List Token}

/-! ### States without blocks -/

/-- No block is open, and no place must be a key. -/
structure Calm (r : Reading) : Prop where
  indent_eq : r.indent = -1
  indents_eq : r.indents = []
  free : ∀ k, some k ∈ r.candidates → k.required = false

theorem Calm.closeBlocks (h : Calm r) (column : Int) : r.closeBlocks column = r := by
  rw [Reading.closeBlocks]
  split
  · rfl
  · rw [h.indents_eq, closing]
    simp [← h.indents_eq]

theorem Calm.exists_forget? (h : Calm r) : ∃ ks, r.forget? = some { r with candidates := ks } ∧
    ∀ k, some k ∈ ks → k.required = false := by
  have hfree := h.free
  unfold forget?
  split
  next k ks heq =>
    rw [heq] at hfree
    have hk := hfree k List.mem_cons_self
    rw [if_neg (by simp [hk])]
    exact ⟨_, rfl, fun l hl => hfree l (List.mem_cons_of_mem _ (by simpa using hl))⟩
  next => exact ⟨_, rfl, hfree⟩

/-- A place where a key may start becomes the candidate of its level. -/
theorem Calm.exists_remember? (h : Calm r) : ∃ ks,
    r.remember? = some { r with candidates := ks } ∧ (∀ k, some k ∈ ks → k.required = false) ∧
      (r.keyAllowed = true → ks.head? = some (some ⟨false, r.tokens.size, r.place⟩)) := by
  unfold remember?
  split
  next =>
    obtain ⟨ks, hforget, hfree⟩ := h.exists_forget?
    have hrequired : (!r.inFlow && r.indent == r.column) = false := by
      rw [h.indent_eq, column]
      simp
    rw [hforget, Option.map_some]
    refine ⟨_, rfl, fun k hk => ?_, fun _ => ?_⟩
    · rcases List.mem_cons.1 hk with hk | hk
      · cases hk
        exact hrequired
      · exact hfree k (List.mem_of_mem_drop hk)
    · exact congrArg (fun b => some (some (Candidate.mk b r.tokens.size r.place))) hrequired
  next hkey => exact ⟨_, rfl, h.free, fun hkey' => absurd hkey' hkey⟩

/-! ### White space -/

/-- The text from the next token on. -/
def ahead (r : Reading) : List Char := r.place.rest.dropWhile isLayout

/-- The text is at its end or goes on with a character that no white space or comment starts with,
nor the mark of the byte order. -/
def StartsToken (s : List Char) : Prop :=
  ∀ x ∈ s.head?, isBreak x = false ∧ isGap x = false ∧ x ≠ '#' ∧ x ≠ '\ufeff'

theorem StartsToken.dropWhile (h : StartsToken s) : s.dropWhile isLayout = s := by
  cases s with
  | nil => rfl
  | cons x s =>
    obtain ⟨hbreak, hgap, -⟩ := h x rfl
    refine List.dropWhile_cons_of_neg fun hx => ?_
    rw [isLayout, Bool.or_eq_true, beq_iff_eq, beq_iff_eq] at hx
    rcases hx with rfl | rfl
    · cases hgap
    · cases hbreak

/-- The white space of a line ends at a token or at a line feed. -/
theorem dropWhile_spaces (h : StartsToken (s.dropWhile isLayout)) (tabs : Bool) :
    let u := s.dropWhile fun x => x == ' ' || (tabs && x == '\t')
    u = s.dropWhile isLayout ∨
      ∃ v, u = '\n' :: v ∧ v.dropWhile isLayout = s.dropWhile isLayout := by
  induction s with
  | nil => exact .inl rfl
  | cons x s ih =>
    by_cases hx : isLayout x = true
    · rw [List.dropWhile_cons_of_pos hx] at h ⊢
      rw [isLayout, Bool.or_eq_true, beq_iff_eq, beq_iff_eq] at hx
      rcases hx with rfl | rfl
      · exact ih h
      · have hstop : ¬('\n' == ' ' || (tabs && '\n' == '\t')) = true := by cases tabs <;> decide
        exact .inr ⟨s, List.dropWhile_cons_of_neg hstop, rfl⟩
    · rw [List.dropWhile_cons_of_neg hx] at h ⊢
      obtain ⟨-, hgap, -⟩ := h x rfl
      rw [isGap, Bool.or_eq_false_iff] at hgap
      exact .inl (List.dropWhile_cons_of_neg (by simp [hgap]))

theorem rest_dropWhile (p : Char → Bool) (c : Cursor) :
    (c.dropWhile p).rest = c.rest.dropWhile p := by
  have hsplit := List.takeWhile_append_dropWhile (p := p) (l := c.rest)
  exact Cursor.rest_drop hsplit.symm

theorem StartsToken.takeBreak {c : Cursor} (h : StartsToken c.rest) : c.takeBreak = ([], c) := by
  unfold Cursor.takeBreak
  split
  next heq => exact absurd (h _ (by rw [heq]; rfl)).1 (by decide)
  next heq => simp [(h _ (by rw [heq]; rfl)).1]
  next => rfl

theorem passComment_of_head {c : Cursor} (h : c.rest.head? ≠ some '#') : c.passComment = c := by
  unfold Cursor.passComment
  split
  next heq => exact absurd (by rw [heq]; rfl) h
  next => rfl

theorem isAt_mark (h : StartsToken r.ahead) : r.place.isAt 0 '\ufeff' = false := by
  cases hrest : r.place.rest with
  | nil => simp [Cursor.isAt, hrest]
  | cons x s =>
    rw [Cursor.isAt_zero hrest, beq_eq_false_iff_ne]
    rintro rfl
    rw [ahead, hrest, List.dropWhile_cons_of_neg (by decide)] at h
    exact (h _ rfl).2.2.2 rfl

theorem exists_passSpaceFrom {fuel : Nat} (hfuel : r.place.rest.length < fuel)
    (h : StartsToken r.ahead) : ∃ place key,
      passSpaceFrom fuel r = { r with place, keyAllowed := key } ∧ place.rest = r.ahead ∧
        (r.inFlow = true → key = r.keyAllowed) := by
  induction fuel generalizing r with
  | zero => exact absurd hfuel (Nat.not_lt_zero _)
  | succ fuel ih =>
    rw [passSpaceFrom, isAt_mark h, Bool.and_false]
    simp only [Bool.false_eq_true, if_false]
    obtain ⟨c, hc⟩ : ∃ c, c = r.place.dropWhile fun x =>
      x == ' ' || ((r.inFlow || !r.keyAllowed) && x == '\t') := ⟨_, rfl⟩
    have hspaces := dropWhile_spaces h (r.inFlow || !r.keyAllowed)
    have hlength : c.rest.length ≤ r.place.rest.length := by
      rw [hc, rest_dropWhile]
      exact List.length_dropWhile_le _ _
    rw [← rest_dropWhile, ← hc] at hspaces
    rw [← hc]
    rcases hspaces with hrest | ⟨v, hrest, hv⟩
    · have htoken : StartsToken c.rest := by rwa [hrest]
      rw [passComment_of_head fun hhead => (htoken _ hhead).2.2.1 rfl, htoken.takeBreak]
      exact ⟨c, r.keyAllowed, rfl, hrest, fun _ => rfl⟩
    · obtain ⟨r', hr'⟩ : ∃ r' : Reading, r' = { r with
        place := { rest := v, index := c.index + 1, line := c.line + 1, column := 0 }
        keyAllowed := r.keyAllowed || !r.inFlow } := ⟨_, rfl⟩
      have hahead : r'.ahead = r.ahead := by rw [hr']; exact hv
      have hfuel' : r'.place.rest.length < fuel := by
        rw [hrest, List.length_cons] at hlength
        rw [hr']
        exact Nat.lt_of_lt_of_le hlength (Nat.le_of_lt_succ hfuel)
      obtain ⟨place, key, hpass, hplace, hkey⟩ := ih hfuel' (hahead.symm ▸ h)
      have hcomment : c.rest.head? ≠ some '#' := by
        rw [hrest, List.head?_cons]
        decide
      refine ⟨place, key, ?_, hplace.trans hahead, fun hflow => ?_⟩
      · rw [passComment_of_head hcomment, Cursor.takeBreak_lineFeed hrest]
        simp only [List.isEmpty_cons, Bool.false_eq_true, if_false]
        rw [← hr', hpass, hr']
      · rw [hkey (by rw [hr']; exact hflow), hr']
        simp [hflow]

/-- Where a token starts there is no white space. -/
theorem passSpace_of_startsToken (h : StartsToken r.place.rest) : r.passSpace = r := by
  have hahead : r.ahead = r.place.rest := h.dropWhile
  have hspaces : r.place.dropWhile (fun x =>
      x == ' ' || ((r.inFlow || !r.keyAllowed) && x == '\t')) = r.place := by
    rw [Cursor.dropWhile, Cursor.takeWhile]
    cases hrest : r.place.rest with
    | nil => rfl
    | cons x s =>
      rw [hrest] at h
      obtain ⟨-, hgap, -⟩ := h x rfl
      rw [isGap, Bool.or_eq_false_iff] at hgap
      rw [List.takeWhile_cons_of_neg (by simp [hgap])]
      rfl
  rw [passSpace, passSpaceFrom, isAt_mark (hahead.symm ▸ h), Bool.and_false]
  simp only [Bool.false_eq_true, if_false]
  rw [hspaces, passComment_of_head fun hhead => (h _ hhead).2.2.1 rfl, h.takeBreak]
  rfl

/-! ### One token -/

/-- The state at a place behind white space, without the candidates that have lapsed. -/
def settle (place : Cursor) (key : Bool) (r : Reading) : Reading :=
  { r with
    place
    keyAllowed := key
    candidates := r.candidates.map (·.filter (Candidate.holds · place)) }

theorem Calm.settle (h : Calm r) (place : Cursor) (key : Bool) : Calm (r.settle place key) := by
  refine ⟨h.indent_eq, h.indents_eq, fun k hk => ?_⟩
  obtain ⟨l, hl, hk⟩ := List.mem_map.1 hk
  exact h.free k ((Option.filter_eq_some_iff.1 hk).1 ▸ hl)

theorem Calm.next?_eq (h : Calm r) {place : Cursor} {key : Bool}
    (hpass : r.passSpace = { r with place, keyAllowed := key }) :
    r.next? = (r.settle place key).token? := by
  have hkept : ¬(r.candidates.any fun l =>
      l.any fun k => k.required && !Candidate.holds k place) = true := by
    simp only [List.any_eq_true, Option.any_eq_true, not_exists, not_and]
    intro l hl k hk
    rw [h.free k (hk ▸ hl)]
    exact Bool.false_ne_true
  rw [next?, hpass, lapse?, if_neg hkept]
  exact congrArg token? ((h.settle place key).closeBlocks _)

theorem Calm.next?_of_startsToken (h : Calm r) (hstart : StartsToken r.place.rest) :
    r.next? = (r.settle r.place r.keyAllowed).token? :=
  h.next?_eq (passSpace_of_startsToken hstart)

/-- The next token is read at a place where the text ahead starts. -/
theorem Calm.exists_next? (h : Calm r) (hs : r.ahead = s) (hstart : StartsToken s) :
    ∃ place key, r.next? = (r.settle place key).token? ∧ place.rest = s ∧
      s.length ≤ r.place.rest.length ∧ (r.inFlow = true → key = r.keyAllowed) := by
  subst hs
  obtain ⟨place, key, hpass, hplace, hkey⟩ := exists_passSpaceFrom (Nat.lt_succ_self _) hstart
  exact ⟨place, key, h.next?_eq hpass, hplace, List.length_dropWhile_le _ _, hkey⟩

/-- The brackets that flow collections start with. -/
def openings : List (Char × Token) := [('[', .flowSequence), ('\x7b', .flowMapping)]

/-- The brackets that flow collections end with. -/
def closings : List (Char × Token) := [(']', .flowSequenceEnd), ('\x7d', .flowMappingEnd)]

theorem opening_sequence : ('[', Token.flowSequence) ∈ openings := by decide

theorem opening_mapping : ('\x7b', Token.flowMapping) ∈ openings := by decide

theorem closing_sequence : (']', Token.flowSequenceEnd) ∈ closings := by decide

theorem closing_mapping : ('\x7d', Token.flowMappingEnd) ∈ closings := by decide

section

variable (hrest : r.place.rest = s)
include hrest

theorem token?_end (hs : s = []) : r.token? =
    ((r.closeBlocks (-1)).forget?).map fun r => (false, r.push .streamEnd) := by
  rw [token?, hrest, hs]

theorem token?_open {x : Char} {token : Token}
    (hx : (x, token) ∈ openings) (hs : s = x :: t) :
    r.token? = (r.openFlow? token).map (true, ·) := by
  subst hs
  simp only [openings, List.mem_cons, List.not_mem_nil, or_false, Prod.mk.injEq] at hx
  rcases hx with ⟨rfl, rfl⟩ | ⟨rfl, rfl⟩
  · rw [token?, hrest]
    simp [Cursor.isMarker_of_head_ne hrest]
  · rw [token?, hrest]
    simp [Cursor.isMarker_of_head_ne hrest]

theorem token?_close {x : Char} {token : Token}
    (hx : (x, token) ∈ closings) (hs : s = x :: t) :
    r.token? = (r.closeFlow? token).map (true, ·) := by
  subst hs
  simp only [closings, List.mem_cons, List.not_mem_nil, or_false, Prod.mk.injEq] at hx
  rcases hx with ⟨rfl, rfl⟩ | ⟨rfl, rfl⟩
  · rw [token?, hrest]
    simp [Cursor.isMarker_of_head_ne hrest]
  · rw [token?, hrest]
    simp [Cursor.isMarker_of_head_ne hrest]

theorem token?_comma (hs : s = ',' :: t) : r.token? =
    (r.forget?).map fun r => (true, ((r.allowKey true).push .comma).drop 1) := by
  subst hs
  rw [token?, hrest]
  simp [Cursor.isMarker_of_head_ne hrest]
  rfl

theorem token?_colon (hs : s = ':' :: t) (hflow : r.inFlow = true) :
    r.token? = (r.colon?).map (true, ·) := by
  subst hs
  rw [token?, hrest]
  simp [Cursor.isMarker_of_head_ne hrest, hflow]

theorem token?_quoted {text : String} (htext : IsOneLine text) (hs : s = Json.quoted text ++ t) :
    r.token? = (r.node (.scalar text .doubleQuoted) (r.place.drop (Json.quoted text).length)).map
      (true, ·) := by
  subst hs
  have hread := quoted?_quoted htext hrest
  rw [Json.quoted_append] at hrest
  rw [token?, hrest]
  simp [Cursor.isMarker_of_head_ne hrest, hread, flowScalar?]

theorem exists_token?_word {word : List Char} (hword : IsPlainWord word) (hindent : r.indent = -1)
    (hs : s = word ++ t) (ht : EndsScalar r.inFlow t) : ∃ place, ∃ broken : Bool,
      r.token? = (r.remember?.map fun r => (true,
        { r.push (.scalar (String.ofList word) .plain) with place, keyAllowed := broken })) ∧
      place.rest.dropWhile isLayout = t.dropWhile isLayout ∧ place.rest.length ≤ t.length := by
  subst hs
  obtain ⟨place, broken, hplain, hplace⟩ := exists_plain?_append hword ht hrest
  refine ⟨place, broken, ?_, hplace⟩
  have hmarker := hword.isMarker hrest
  have hstarts := hword.startsPlain r.inFlow t
  obtain ⟨x, u, rfl, -⟩ := hword.head
  have hne {d : Char} (hd : isWordChar d = false) : x ≠ d :=
    ne_of_test (hword.isWordChar x List.mem_cons_self) hd
  have hentry : ¬(x = '-' ∧ endsWord (u ++ t) = true) := by
    rintro ⟨rfl, hends⟩
    exact Bool.false_ne_true ((hword.behind_hyphen t).1.symm.trans hends)
  rw [List.cons_append] at hstarts
  rw [token?, hrest]
  simp [hmarker, hne (d := '%') rfl, hne (d := '[') rfl, hne (d := '\x7b') rfl, hne (d := ']') rfl,
    hne (d := '\x7d') rfl, hne (d := ',') rfl, hne (d := '?') rfl, hne (d := ':') rfl,
    hne (d := '*') rfl, hne (d := '&') rfl, hne (d := '!') rfl, hne (d := '|') rfl,
    hne (d := '>') rfl, hne (d := '\'') rfl, hne (d := '"') rfl, hstarts, hindent]
  rw [if_neg hentry, hplain]
  cases hremember : r.remember? with
  | none => simp [flowScalar?, node, hremember]
  | some q => cases broken <;> simp [flowScalar?, node, hremember, allowKey]

end

/-! ### Runs -/

/-- The reader comes from one state to another in no more steps than there are characters between
them. -/
def Reaches (r r' : Reading) : Prop :=
  ∃ n, n + r'.place.rest.length ≤ r.place.rest.length ∧
    ∀ fuel, tokensFrom? (n + fuel) r = tokensFrom? fuel r'

theorem Reaches.trans (h : Reaches r r') (h' : Reaches r' r'') : Reaches r r'' := by
  obtain ⟨m, hm, hsteps⟩ := h
  obtain ⟨n, hn, hsteps'⟩ := h'
  refine ⟨m + n, by omega, fun fuel => ?_⟩
  rw [Nat.add_assoc, hsteps, hsteps']

theorem Reaches.of_next? (h : r.next? = some (true, r'))
    (hlt : r'.place.rest.length < r.place.rest.length) : Reaches r r' := by
  refine ⟨1, by omega, fun fuel => ?_⟩
  rw [Nat.add_comm, tokensFrom?, h]

/-- The reader comes from a state to another one, in which so many flow collections are open and
this text lies ahead, and reads these tokens on the way. -/
structure Moved (r : Reading) (flow : Nat) (ts : List Token) (s : List Char) (r' : Reading) :
    Prop where
  reaches : Reaches r r'
  calm : Calm r'
  flow_eq : r'.flow = flow
  tokens_eq : r'.tokens.toList = r.tokens.toList ++ ts
  ahead_eq : r'.ahead = s

theorem Moved.trans {m n : Nat} (h : Moved r m ts s r') (h' : Moved r' n ts' t r'') :
    Moved r n (ts ++ ts') t r'' where
  reaches := h.reaches.trans h'.reaches
  calm := h'.calm
  flow_eq := h'.flow_eq
  tokens_eq := by rw [h'.tokens_eq, h.tokens_eq, List.append_assoc]
  ahead_eq := h'.ahead_eq

/-- One token is read. -/
theorem Moved.of_next? {flow : Nat} {token : Token} (hnext : r.next? = some (true, r'))
    (hcalm : Calm r') (hflow : r'.flow = flow) (htokens : r'.tokens = r.tokens.push token)
    (hrest : r'.place.rest = s) (hlt : s.length < r.place.rest.length) :
    Moved r flow [token] (s.dropWhile isLayout) r' where
  reaches := .of_next? hnext (hrest ▸ hlt)
  calm := hcalm
  flow_eq := hflow
  tokens_eq := by rw [htokens, Array.toList_push]
  ahead_eq := by rw [ahead, hrest]

theorem startsToken_cons {x : Char} (s : List Char)
    (hx : isBreak x = false ∧ isGap x = false ∧ x ≠ '#' ∧ x ≠ '\ufeff') : StartsToken (x :: s) := by
  rintro y ⟨⟩
  exact hx

/-- An opening bracket. -/
theorem Calm.exists_open (h : Calm r) {x : Char} {token : Token}
    (hx : (x, token) ∈ openings) (hs : r.ahead = x :: s) :
    ∃ r', Moved r (r.flow + 1) [token] (s.dropWhile isLayout) r' ∧ r'.keyAllowed = true := by
  have hstart : StartsToken (x :: s) := by
    refine startsToken_cons s ?_
    simp only [openings, List.mem_cons, List.not_mem_nil, or_false, Prod.mk.injEq] at hx
    rcases hx with ⟨rfl, -⟩ | ⟨rfl, -⟩ <;> decide
  obtain ⟨place, key, hnext, hplace, hlength, -⟩ := h.exists_next? hs hstart
  obtain ⟨ks, hremember, hfree, -⟩ := (h.settle place key).exists_remember?
  rw [token?_open hplace hx rfl, openFlow?, hremember] at hnext
  have hfree' (k : Candidate) (hk : some k ∈ none :: ks) : k.required = false :=
    hfree k ((List.mem_cons.1 hk).resolve_left (by simp))
  exact ⟨_, .of_next? hnext ⟨h.indent_eq, h.indents_eq, hfree'⟩ rfl rfl
    (Cursor.rest_skip hplace) hlength, rfl⟩

/-- The bracket that closes a flow collection. -/
theorem Calm.exists_close (h : Calm r) {x : Char} {token : Token} {flow : Nat}
    (hx : (x, token) ∈ closings)
    (hflow : r.flow = flow + 1) (hs : r.ahead = x :: s) :
    ∃ r', Moved r flow [token] (s.dropWhile isLayout) r' := by
  have hstart : StartsToken (x :: s) := by
    refine startsToken_cons s ?_
    simp only [closings, List.mem_cons, List.not_mem_nil, or_false, Prod.mk.injEq] at hx
    rcases hx with ⟨rfl, -⟩ | ⟨rfl, -⟩ <;> decide
  obtain ⟨place, key, hnext, hplace, hlength, -⟩ := h.exists_next? hs hstart
  obtain ⟨ks, hforget, hfree⟩ := (h.settle place key).exists_forget?
  rw [token?_close hplace hx rfl, closeFlow?, hforget] at hnext
  have hfree' (k : Candidate) (hk : some k ∈ if r.inFlow then ks.drop 1 else ks) :
      k.required = false := by
    split at hk
    · exact hfree k (List.mem_of_mem_drop hk)
    · exact hfree k hk
  exact ⟨_, .of_next? hnext ⟨h.indent_eq, h.indents_eq, hfree'⟩ (congrArg (· - 1) hflow) rfl
    (Cursor.rest_skip hplace) hlength⟩

/-- A comma. -/
theorem Calm.exists_comma (h : Calm r) (hs : r.ahead = ',' :: s) :
    ∃ r', Moved r r.flow [.comma] (s.dropWhile isLayout) r' ∧ r'.keyAllowed = true := by
  obtain ⟨place, key, hnext, hplace, hlength, -⟩ :=
    h.exists_next? hs (startsToken_cons s (by decide))
  obtain ⟨ks, hforget, hfree⟩ := (h.settle place key).exists_forget?
  rw [token?_comma hplace rfl, hforget] at hnext
  exact ⟨_, .of_next? hnext ⟨h.indent_eq, h.indents_eq, hfree⟩ rfl rfl (Cursor.rest_skip hplace)
    hlength, rfl⟩

theorem startsToken_quoted (text : String) (s : List Char) :
    StartsToken (Json.quoted text ++ s) := by
  rw [Json.quoted_append]
  exact startsToken_cons _ (by decide)

theorem length_quoted_pos (text : String) : 0 < (Json.quoted text).length := by
  simp [Json.quoted]

/-- A string, which becomes a candidate where a key may start. -/
theorem Calm.exists_string (h : Calm r) {text : String} (htext : IsOneLine text)
    (hs : r.ahead = Json.quoted text ++ s) :
    ∃ r', Moved r r.flow [.scalar text .doubleQuoted] (s.dropWhile isLayout) r' ∧
      r'.place.rest = s ∧ r'.tokens = r.tokens.push (.scalar text .doubleQuoted) ∧
      (r.inFlow = true → r.keyAllowed = true → ∃ place ks,
        r'.candidates = some ⟨false, r.tokens.size, place⟩ :: ks ∧
        r'.place = place.drop (Json.quoted text).length) := by
  obtain ⟨place, key, hnext, hplace, hlength, hkey⟩ := h.exists_next? hs (startsToken_quoted text s)
  obtain ⟨ks, hremember, hfree, hhead⟩ := (h.settle place key).exists_remember?
  have hrest := Cursor.rest_drop hplace
  have hpos := length_quoted_pos text
  rw [token?_quoted hplace htext rfl, node, hremember] at hnext
  rw [List.length_append] at hlength
  refine ⟨_, .of_next? hnext ⟨h.indent_eq, h.indents_eq, hfree⟩ rfl rfl hrest (by omega), hrest,
    rfl, fun hflow hallowed => ?_⟩
  obtain ⟨ks, rfl⟩ := List.head?_eq_some_iff.1 (hhead ((hkey hflow).trans hallowed))
  exact ⟨place, ks, rfl, rfl⟩

/-- A word. -/
theorem Calm.exists_word (h : Calm r) {word : List Char} (hword : IsPlainWord word)
    (hends : EndsScalar r.inFlow s) (hs : r.ahead = word ++ s) :
    ∃ r', Moved r r.flow [.scalar (String.ofList word) .plain] (s.dropWhile isLayout) r' := by
  have hstart : StartsToken (word ++ s) := by
    obtain ⟨x, t, rfl, -⟩ := hword.head
    have hx := hword.isWordChar x List.mem_cons_self
    obtain ⟨hbreak, hgap, -⟩ := of_isWordChar hx
    exact startsToken_cons _ ⟨hbreak, hgap, ne_of_test hx rfl, ne_of_test hx rfl⟩
  have hpos : 0 < word.length := by
    obtain ⟨x, t, rfl, -⟩ := hword.head
    exact Nat.succ_pos _
  obtain ⟨place, key, hnext, hplace, hlength, -⟩ := h.exists_next? hs hstart
  obtain ⟨behind, broken, htoken, hbehind, hlength'⟩ :=
    exists_token?_word (r := r.settle place key) hplace hword h.indent_eq rfl hends
  obtain ⟨ks, hremember, hfree, -⟩ := (h.settle place key).exists_remember?
  rw [htoken, hremember] at hnext
  rw [List.length_append] at hlength
  rw [← hbehind]
  exact ⟨_, .of_next? hnext ⟨h.indent_eq, h.indents_eq, hfree⟩ rfl rfl rfl (by omega)⟩

theorem colon?_of_some {k : Candidate} {ks : List (Option Candidate)} (hflow : r.inFlow = true)
    (h : r.candidates = some k :: ks) : r.colon? = some (({ r with
      tokens := r.tokens.insertIdxIfInBounds k.count .key
      candidates := none :: ks
      keyAllowed := false }.push .value).drop 1) := by
  unfold colon?
  split
  next heq =>
    obtain ⟨rfl, rfl⟩ : _ = k ∧ _ = ks := by simpa using heq.symm.trans h
    refine congrArg some ?_
    rw [openBlock, if_pos]
    rw [Bool.or_eq_true]
    exact .inl hflow
  next hnone => exact absurd h (hnone _ _)

theorem colon?_of_none {ks : List (Option Candidate)} (hflow : r.inFlow = true)
    (h : r.candidates = none :: ks) :
    r.colon? = some (((r.allowKey false).push .value).drop 1) := by
  unfold colon?
  split
  next heq => cases heq.symm.trans h
  next => rw [if_pos hflow]

/-- A colon makes a key of the candidate, if that has not lapsed. -/
theorem Calm.exists_colon (h : Calm r) (hflow : r.inFlow = true) {k : Candidate}
    {ks : List (Option Candidate)} (hk : r.candidates = some k :: ks)
    (hs : r.place.rest = ':' :: s) : ∃ r', r.next? = some (true, r') ∧ Calm r' ∧
      r'.flow = r.flow ∧ r'.place.rest = s ∧ r'.tokens = (if Candidate.holds k r.place then
        r.tokens.insertIdxIfInBounds k.count .key else r.tokens).push .value := by
  obtain ⟨q, hq⟩ : ∃ q, q = r.settle r.place r.keyAllowed := ⟨_, rfl⟩
  have hcalm : Calm q := hq ▸ h.settle _ _
  have hqflow : q.inFlow = true := by rw [hq]; exact hflow
  have hqrest : q.place.rest = ':' :: s := by rw [hq]; exact hs
  have hrest : (q.place.drop 1).rest = s := Cursor.rest_skip hqrest
  have hnext := h.next?_of_startsToken (hs ▸ startsToken_cons s (by decide))
  rw [← hq, token?_colon hqrest rfl hqflow] at hnext
  have hcandidates : q.candidates = (if Candidate.holds k r.place then some k else none) ::
      ks.map (·.filter (Candidate.holds · r.place)) := by
    rw [hq, Reading.settle, hk, List.map_cons, Option.filter_some]
  have hfree := hcalm.free
  rw [hcandidates] at hfree
  by_cases hholds : Candidate.holds k r.place = true
  · rw [if_pos hholds] at hcandidates
    rw [colon?_of_some hqflow hcandidates] at hnext
    refine ⟨_, hnext, ⟨hcalm.indent_eq, hcalm.indents_eq, ?_⟩, by rw [hq]; rfl, hrest, ?_⟩
    · intro l hl
      exact hfree l (List.mem_cons_of_mem _ ((List.mem_cons.1 hl).resolve_left (by simp)))
    · rw [if_pos hholds, hq]
      rfl
  · rw [if_neg hholds] at hcandidates
    rw [colon?_of_none hqflow hcandidates] at hnext
    refine ⟨_, hnext, ⟨hcalm.indent_eq, hcalm.indents_eq, hcalm.free⟩, by rw [hq]; rfl, hrest, ?_⟩
    rw [if_neg hholds, hq]
    rfl

theorem insertIdx_length_concat {α : Type} (l : List α) (x y : α) :
    (l ++ [x]).insertIdx l.length y = l ++ [y, x] := by
  induction l with
  | nil => rfl
  | cons z l ih => exact congrArg (z :: ·) ih

/-- The candidate of a short key becomes a mark before it. -/
theorem toList_insertKey (tokens : Array Token) (k : String) :
    let read := tokens.push (.scalar k .doubleQuoted)
    ((if Json.isShortKey k then read.insertIdxIfInBounds tokens.size .key else read).push
      .value).toList = tokens.toList ++ Json.keyTokens k := by
  intro read
  have hread : read.toList = tokens.toList ++ [.scalar k .doubleQuoted] := Array.toList_push
  have hsize : tokens.size ≤ read.size := by
    rw [Array.size_push]
    exact Nat.le_succ _
  rw [Json.keyTokens, Array.toList_push]
  split
  next =>
    rw [Array.insertIdxIfInBounds, dif_pos hsize, Array.toList_insertIdx, hread,
      ← Array.length_toList, insertIdx_length_concat]
    simp
  next =>
    rw [hread]
    simp

/-- A key with the colon behind it. -/
theorem Calm.exists_key (h : Calm r) (hflow : r.inFlow = true) (hkey : r.keyAllowed = true)
    {k : String} (hk : IsOneLine k) (hs : r.ahead = Json.quoted k ++ ':' :: s) :
    ∃ r', Moved r r.flow (Json.keyTokens k) (s.dropWhile isLayout) r' := by
  obtain ⟨q, hq, hrest, hread, hcandidate⟩ := h.exists_string hk hs
  obtain ⟨place, ks, hcandidates, hplace⟩ := hcandidate hflow hkey
  have hqflow : q.inFlow = true := by rw [inFlow, hq.flow_eq]; exact hflow
  obtain ⟨r', hcolon, hcalm, hflow', hrest', htokens⟩ :=
    hq.calm.exists_colon hqflow hcandidates hrest
  have hholds : Candidate.holds ⟨false, r.tokens.size, place⟩ q.place = Json.isShortKey k := by
    simp [Candidate.holds, hplace, Cursor.drop, Json.isShortKey]
  have hlt : r'.place.rest.length < q.place.rest.length := by
    rw [hrest, hrest']
    exact Nat.lt_succ_self _
  refine ⟨r', hq.reaches.trans (.of_next? hcolon hlt), hcalm, hflow'.trans hq.flow_eq, ?_,
    by rw [ahead, hrest']⟩
  rw [htokens, hholds, hread]
  exact toList_insertKey r.tokens k

/-! ### Values -/

theorem dropWhile_newline (indent level : Nat) (s : List Char) :
    (Json.newline indent level ++ s).dropWhile isLayout = s.dropWhile isLayout := by
  have hspaces (n : Nat) :
      (List.replicate n ' ' ++ s).dropWhile isLayout = s.dropWhile isLayout := by
    induction n with
    | zero => rfl
    | succ n ih => exact ih
  exact hspaces _

theorem endsScalar_cons {x : Char} (hx : isFlowIndicator x = true) (s : List Char) :
    EndsScalar true (x :: s) := by
  have hlayout : ¬isLayout x = true := by
    intro h
    rw [isLayout, Bool.or_eq_true, beq_iff_eq, beq_iff_eq] at h
    rcases h with rfl | rfl <;> cases hx
  rw [EndsScalar, List.dropWhile_cons_of_neg hlayout]
  rintro y ⟨⟩
  exact ⟨rfl, hx⟩

theorem endsScalar_newline {flow : Bool} (h : EndsScalar flow s) (indent level : Nat) :
    EndsScalar flow (Json.newline indent level ++ s) := by
  rwa [EndsScalar, dropWhile_newline]

theorem startsToken_of_isStart {x : Char} (hx : Json.IsStart x) (s : List Char) :
    StartsToken (x :: s) := by
  refine startsToken_cons s ?_
  simp only [isBreak, isGap, Bool.or_eq_false_iff, beq_eq_false_iff_ne]
  refine ⟨⟨⟨⟨⟨?_, ?_⟩, ?_⟩, ?_⟩, ?_⟩, ⟨?_, ?_⟩, ?_, ?_⟩
  all_goals exact hx.ne (by decide) (by decide)

/-- The reader takes the text of a value, at the end of which a scalar ends, for its tokens. -/
structure Scans (indent : Nat) (j : Json) : Prop where
  exists_cons (level : Nat) : ∃ x s, j.write indent level = x :: s ∧ Json.IsStart x
  exists_moved (level : Nat) {r : Reading} {s : List Char} : Calm r → EndsScalar r.inFlow s →
    r.ahead = j.write indent level ++ s →
      ∃ r', Moved r r.flow j.tokens (s.dropWhile isLayout) r'

theorem Scans.dropWhile {indent : Nat} {j : Json} (h : Scans indent j) (level : Nat)
    (s : List Char) :
    (j.write indent level ++ s).dropWhile isLayout = j.write indent level ++ s := by
  obtain ⟨x, t, hx, hstart⟩ := h.exists_cons level
  rw [hx, List.cons_append, (startsToken_of_isStart hstart _).dropWhile]

theorem scans_word {indent : Nat} {j : Json} (word : List Char) (hword : IsPlainWord word)
    (hstart : ∀ x ∈ word.head?, Json.IsStart x) (hwrite : ∀ level, j.write indent level = word)
    (htokens : j.tokens = [.scalar (String.ofList word) .plain]) : Scans indent j where
  exists_cons level := by
    obtain ⟨x, t, rfl, -⟩ := hword.head
    exact ⟨x, t, hwrite level, hstart x rfl⟩
  exists_moved level r s hr hends hs := by
    rw [hwrite] at hs
    rw [htokens]
    exact hr.exists_word hword hends hs

theorem scans_string (indent : Nat) {text : String} (h : IsOneLine text) :
    Scans indent (.string text) where
  exists_cons _ := ⟨_, _, rfl, .inr (by decide)⟩
  exists_moved _ _ _ hr _ hs := (hr.exists_string h hs).imp fun _ hr' => hr'.1

theorem scans_literal {indent : Nat} {j : Json} {x : Char} {t : List Char}
    (hword : (x :: t).all isWordChar) (hx : x ≠ '-') (hstart : Json.IsStart x)
    (hwrite : ∀ level, j.write indent level = x :: t)
    (htokens : j.tokens = [.scalar (String.ofList (x :: t)) .plain]) : Scans indent j :=
  scans_word (x :: t) ⟨List.all_eq_true.1 hword, x, t, rfl, .inl hx⟩ (by simpa using hstart) hwrite
    htokens

theorem scans_null (indent : Nat) : Scans indent .null :=
  scans_literal (by decide) (by decide) (.inr (by decide)) (fun _ => rfl) rfl

theorem scans_boolean (indent : Nat) (b : Bool) : Scans indent (.boolean b) := by
  cases b with
  | false => exact scans_literal (by decide) (by decide) (.inr (by decide)) (fun _ => rfl) rfl
  | true => exact scans_literal (by decide) (by decide) (.inr (by decide)) (fun _ => rfl) rfl

theorem scans_integer (indent : Nat) (i : WideInt) : Scans indent (.number (.integer i)) := by
  refine scans_word _ (isPlainWord_decimalInt i.toInt) (fun x hx => ?_) (fun _ => rfl) rfl
  refine (Double.isDigit_of_mem_decimalInt (List.mem_of_mem_head? hx)).imp_right ?_
  rintro rfl
  decide

section

variable {indent flow : Nat} {items : List Json} {members : List (String × Json)}

theorem inFlow_of_flow_eq (h : r.flow = flow + 1) : r.inFlow = true := by
  simp [inFlow, h]

/-- The items of a sequence, with the layout before each. -/
theorem exists_moved_items (level closing : Nat) :
    ∀ {items : List Json}, items ≠ [] → (∀ j ∈ items, Scans indent j) →
      ∀ {r : Reading} {s : List Char}, Calm r → r.flow = flow + 1 →
        r.ahead = (Json.writeItems indent level items ++
          (Json.newline indent closing ++ ']' :: s)).dropWhile isLayout →
        ∃ r', Moved r flow (Json.itemTokens items ++ [.flowSequenceEnd]) (s.dropWhile isLayout) r'
  | [], hne, _, _, _, _, _, _ => absurd rfl hne
  | [j], _, h, r, s, hr, hflow, hs => by
    have hj := h j List.mem_cons_self
    rw [Json.writeItems, List.append_assoc, dropWhile_newline, hj.dropWhile] at hs
    have hends : EndsScalar r.inFlow (Json.newline indent closing ++ ']' :: s) := by
      rw [inFlow_of_flow_eq hflow]
      exact endsScalar_newline (endsScalar_cons rfl s) indent closing
    obtain ⟨q, hq⟩ := hj.exists_moved level hr hends hs
    have hahead : q.ahead = ']' :: s := by
      rw [hq.ahead_eq, dropWhile_newline]
      rfl
    obtain ⟨r', hr'⟩ := hq.calm.exists_close closing_sequence (hq.flow_eq.trans hflow) hahead
    exact ⟨r', hq.trans hr'⟩
  | j :: k :: items, _, h, r, s, hr, hflow, hs => by
    obtain ⟨hj, h⟩ := List.forall_mem_cons.1 h
    have hne := List.cons_ne_nil k items
    rw [Json.writeItems_cons indent level j hne, List.append_assoc, dropWhile_newline,
      List.append_assoc, hj.dropWhile] at hs
    have hends : EndsScalar r.inFlow (',' :: (Json.writeItems indent level (k :: items) ++
        (Json.newline indent closing ++ ']' :: s))) := by
      rw [inFlow_of_flow_eq hflow]
      exact endsScalar_cons rfl _
    obtain ⟨q, hq⟩ := hj.exists_moved level hr hends hs
    obtain ⟨p, hp, -⟩ := hq.calm.exists_comma hq.ahead_eq
    obtain ⟨r', hr'⟩ := exists_moved_items level closing hne h hp.calm
      (hp.flow_eq.trans (hq.flow_eq.trans hflow)) hp.ahead_eq
    exact ⟨r', by simpa [Json.itemTokens] using (hq.trans hp).trans hr'⟩

theorem scans_array (h : ∀ j ∈ items, Scans indent j) : Scans indent (.array items) := by
  cases hitems : items with
  | nil =>
    refine ⟨fun _ => ⟨_, _, rfl, .inr (by decide)⟩, fun _ r s hr _ hs => ?_⟩
    obtain ⟨q, hq, -⟩ := hr.exists_open opening_sequence hs
    obtain ⟨r', hr'⟩ := hq.calm.exists_close closing_sequence hq.flow_eq hq.ahead_eq
    exact ⟨r', hq.trans hr'⟩
  | cons k ks =>
    refine ⟨fun _ => ⟨_, _, rfl, .inr (by decide)⟩, fun level r s hr _ hs => ?_⟩
    rw [hitems] at h
    have htext : (Json.array (k :: ks)).write indent level ++ s = '[' ::
        (Json.writeItems indent (level + 1) (k :: ks) ++
          (Json.newline indent level ++ ']' :: s)) := by
      simp [Json.write]
    obtain ⟨q, hq, -⟩ := hr.exists_open opening_sequence (hs.trans htext)
    obtain ⟨r', hr'⟩ := exists_moved_items (level + 1) level (List.cons_ne_nil k ks) h hq.calm
      hq.flow_eq hq.ahead_eq
    exact ⟨r', hq.trans hr'⟩

/-- A member of a mapping. -/
theorem Scans.exists_member {k : String} {j : Json} (hj : Scans indent j) (hk : IsOneLine k)
    (level : Nat) (hr : Calm r) (hflow : r.inFlow = true) (hkey : r.keyAllowed = true)
    (hends : EndsScalar true s)
    (hs : r.ahead = Json.quoted k ++ ([':', ' '] ++ (j.write indent level ++ s))) :
    ∃ r', Moved r r.flow (Json.keyTokens k ++ j.tokens) (s.dropWhile isLayout) r' := by
  obtain ⟨q, hq⟩ := hr.exists_key hflow hkey hk hs
  have hahead : q.ahead = j.write indent level ++ s := by
    rw [hq.ahead_eq]
    exact hj.dropWhile level s
  have hqflow : q.inFlow = true := by rw [inFlow, hq.flow_eq]; exact hflow
  obtain ⟨r', hr'⟩ := hj.exists_moved level hq.calm (hqflow.symm ▸ hends) hahead
  exact ⟨r', hq.trans (hq.flow_eq ▸ hr')⟩

/-- The members of a mapping, with the layout before each. -/
theorem exists_moved_members (level closing : Nat) :
    ∀ {members : List (String × Json)}, members ≠ [] →
      (∀ m ∈ members, IsOneLine m.1 ∧ Scans indent m.2) →
      ∀ {r : Reading} {s : List Char}, Calm r → r.flow = flow + 1 → r.keyAllowed = true →
        r.ahead = (Json.writeMembers indent level members ++
          (Json.newline indent closing ++ '\x7d' :: s)).dropWhile isLayout →
        ∃ r', Moved r flow (Json.memberTokens members ++ [.flowMappingEnd])
          (s.dropWhile isLayout) r'
  | [], hne, _, _, _, _, _, _, _ => absurd rfl hne
  | [(k, j)], _, h, r, s, hr, hflow, hkey, hs => by
    obtain ⟨hk, hj⟩ := h (k, j) List.mem_cons_self
    simp only [Json.writeMembers, List.append_assoc] at hs
    rw [dropWhile_newline, (startsToken_quoted k _).dropWhile] at hs
    obtain ⟨q, hq⟩ := hj.exists_member hk level hr (inFlow_of_flow_eq hflow) hkey
      (endsScalar_newline (endsScalar_cons rfl s) indent closing) hs
    have hahead : q.ahead = '\x7d' :: s := by
      rw [hq.ahead_eq, dropWhile_newline]
      rfl
    obtain ⟨r', hr'⟩ :=
      hq.calm.exists_close closing_mapping (hq.flow_eq.trans hflow) hahead
    exact ⟨r', hq.trans hr'⟩
  | (k, j) :: m :: members, _, h, r, s, hr, hflow, hkey, hs => by
    obtain ⟨⟨hk, hj⟩, h⟩ := List.forall_mem_cons.1 h
    have hne := List.cons_ne_nil m members
    simp only [Json.writeMembers_cons indent level k j hne, List.append_assoc] at hs
    rw [dropWhile_newline, (startsToken_quoted k _).dropWhile] at hs
    obtain ⟨q, hq⟩ := Scans.exists_member hj hk level hr (inFlow_of_flow_eq hflow) hkey
      (endsScalar_cons rfl _) hs
    obtain ⟨p, hp, hkey'⟩ := hq.calm.exists_comma hq.ahead_eq
    obtain ⟨r', hr'⟩ := exists_moved_members level closing hne h hp.calm
      (hp.flow_eq.trans (hq.flow_eq.trans hflow)) hkey' hp.ahead_eq
    exact ⟨r', by simpa [Json.memberTokens] using (hq.trans hp).trans hr'⟩

theorem scans_object (h : ∀ m ∈ members, IsOneLine m.1 ∧ Scans indent m.2) :
    Scans indent (.object members) := by
  cases hmembers : members with
  | nil =>
    refine ⟨fun _ => ⟨_, _, rfl, .inr (by decide)⟩, fun _ r s hr _ hs => ?_⟩
    obtain ⟨q, hq, -⟩ := hr.exists_open opening_mapping hs
    obtain ⟨r', hr'⟩ := hq.calm.exists_close closing_mapping hq.flow_eq hq.ahead_eq
    exact ⟨r', hq.trans hr'⟩
  | cons m ms =>
    refine ⟨fun _ => ⟨_, _, rfl, .inr (by decide)⟩, fun level r s hr _ hs => ?_⟩
    rw [hmembers] at h
    have htext : (Json.object (m :: ms)).write indent level ++ s = '\x7b' ::
        (Json.writeMembers indent (level + 1) (m :: ms) ++
          (Json.newline indent level ++ '\x7d' :: s)) := by
      simp [Json.write]
    obtain ⟨q, hq, hkey⟩ := hr.exists_open opening_mapping (hs.trans htext)
    obtain ⟨r', hr'⟩ := exists_moved_members (level + 1) level (List.cons_ne_nil m ms) h hq.calm
      hq.flow_eq hkey hq.ahead_eq
    exact ⟨r', hq.trans hr'⟩

end

/-! ### Documents -/

theorem scans_toJson {v : Value} (indent : Nat) (hn : v.EachNumber Number.IsInteger)
    (ht : v.EachText IsOneLine) : Scans indent v.toJson := by
  induction v using Value.induct with
  | scalar v hv =>
    cases v with
    | sequence | mapping => cases hv
    | null => exact scans_null indent
    | boolean b => exact scans_boolean indent b
    | string t => exact scans_string indent ht
    | number n =>
      cases n with
      | integer i => exact scans_integer indent (.ofInt64 i)
      | double x => exact hn.elim
  | sequence items ih =>
    have hnumber := Value.eachNumber_sequence.1 hn
    have htext := Value.eachText_sequence.1 ht
    rw [Value.toJson, Value.toJsonItems_eq]
    exact scans_array (List.forall_mem_map.2 fun v hv => ih v hv (hnumber v hv) (htext v hv))
  | mapping entries ih =>
    have hnumber := Value.eachNumber_mapping.1 hn
    obtain ⟨hkeys, htext⟩ := Value.eachText_mapping.1 ht
    rw [Value.toJson, Value.toJsonMembers_eq]
    refine scans_object (List.forall_mem_map.2 fun e he => ⟨hkeys e he, ?_⟩)
    exact ih e he (hnumber e he) (htext e he)

theorem tokensFrom?_of_ahead_eq_nil (h : Calm r) (hs : r.ahead = []) (fuel : Nat) :
    ∃ ts, tokensFrom? (fuel + 1) r = some ts ∧ ts.toList = r.tokens.toList ++ [.streamEnd] := by
  obtain ⟨place, key, hnext, hplace, -⟩ := h.exists_next? hs (by simp [StartsToken])
  have hcalm := h.settle place key
  obtain ⟨ks, hforget, -⟩ := hcalm.exists_forget?
  have htoken : (r.settle place key).token? = some (false, { r.settle place key with
      tokens := (r.settle place key).tokens.push .streamEnd, candidates := ks }) := by
    rw [token?_end (r := r.settle place key) hplace rfl, hcalm.closeBlocks, hforget]
    rfl
  rw [tokensFrom?, hnext, htoken]
  exact ⟨_, rfl, Array.toList_push⟩

/-- **A JSON text without characters that YAML excludes is read as its tokens.** -/
theorem Scans.tokens? {indent : Nat} {j : Json} (h : Scans indent j)
    (hall : (j.write indent 0 ++ ['\n']).all isAllowed = true) :
    Yaml.tokens? (j.write indent 0 ++ ['\n']) = some (j.tokens ++ [.streamEnd]) := by
  obtain ⟨r, hr⟩ : ∃ r : Reading, r = { place := { rest := j.write indent 0 ++ ['\n'] } } :=
    ⟨_, rfl⟩
  have hcalm : Calm r := by
    rw [hr]
    exact ⟨rfl, rfl, by simp⟩
  have hahead : r.ahead = j.write indent 0 ++ ['\n'] := by
    rw [hr]
    exact h.dropWhile 0 _
  have hends : EndsScalar r.inFlow ['\n'] := by
    intro x hx
    cases hx
  obtain ⟨r', hmoved⟩ := h.exists_moved 0 hcalm hends hahead
  obtain ⟨n, hn, hsteps⟩ := hmoved.reaches
  obtain ⟨fuel, hfuel⟩ := Nat.exists_eq_add_of_le (Nat.le_of_add_right_le hn)
  obtain ⟨ts, hts, htokens⟩ := tokensFrom?_of_ahead_eq_nil hmoved.calm hmoved.ahead_eq fuel
  have hread := hsteps (fuel + 1)
  rw [← Nat.add_assoc, ← hfuel, hts, hr] at hread
  rw [Yaml.tokens?, if_pos hall, hread, Option.map_some, htokens, hmoved.tokens_eq, hr]
  rfl

end YamlQuery.Yaml.Reading

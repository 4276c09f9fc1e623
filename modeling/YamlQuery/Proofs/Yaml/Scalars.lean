import Mathlib.Data.List.DropRight
import YamlQuery.Proofs.Json.Reading
import YamlQuery.Yaml.Read

/-!
# Proofs.Yaml.Scalars — JSON scalars in a YAML text

What JSON escapes in a string, YAML reads as the same escapes; so a JSON string is one quoted scalar
of the same text (`quoted?_quoted`), unless a character in it ends a line in YAML that is an
ordinary one in JSON (`IsOneLine`).  The other scalars of JSON are plain scalars (`plain?_word`).
-/

namespace YamlQuery.Yaml

open Text

variable {c : Cursor} {s t : List Char}

namespace Cursor

@[simp] theorem drop_zero (c : Cursor) : c.drop 0 = c := rfl

@[simp] theorem drop_drop (m n : Nat) (c : Cursor) : (c.drop m).drop n = c.drop (m + n) := by
  simp [drop, Nat.add_assoc]

theorem rest_drop (h : c.rest = s ++ t) : (c.drop s.length).rest = t := by
  rw [drop, h, List.drop_left]

theorem isAt_zero {x : Char} (h : c.rest = x :: s) (y : Char) : c.isAt 0 y = (x == y) := by
  simp [isAt, h]

theorem rest_skip {x : Char} (h : c.rest = x :: s) : c.skip.rest = s := by
  rw [skip, drop, h, List.drop_one, List.tail_cons]

theorem takeBreak_lineFeed (h : c.rest = '\n' :: s) : c.takeBreak =
    (['\n'], { rest := s, index := c.index + 1, line := c.line + 1, column := 0 }) := by
  rw [takeBreak, h]
  rfl

theorem isMarker_of_column_ne_zero (h : c.column ≠ 0) (x : Char) : c.isMarker x = false := by
  unfold isMarker
  split
  next => simp [h]
  next => rfl

theorem isDocumentMarker_of_column_ne_zero (h : c.column ≠ 0) : c.isDocumentMarker = false := by
  rw [isDocumentMarker, isMarker_of_column_ne_zero h, isMarker_of_column_ne_zero h, Bool.or_false]

theorem isMarker_of_head_ne {a x : Char} (h : c.rest = a :: s) (ha : a ≠ x) :
    c.isMarker x = false := by
  unfold isMarker
  split
  next heq => simp [(List.cons.inj (heq.symm.trans h)).1, ha]
  next => rfl

theorem isMarker_of_second_ne {a b x : Char} (h : c.rest = a :: b :: s) (hb : b ≠ x) :
    c.isMarker x = false := by
  unfold isMarker
  split
  next heq => simp [(List.cons.inj (List.cons.inj (heq.symm.trans h)).2).1, hb]
  next => rfl

end Cursor

/-! ### Quoted scalars -/

/-- No character of the text ends a line in YAML, apart from those that JSON escapes. -/
def IsOneLine (t : String) : Prop := ∀ x ∈ t.toList, x ≠ '\x85' ∧ x ≠ '\u2028' ∧ x ≠ '\u2029'

instance : DecidablePred IsOneLine := fun t => decidable_of_iff
  (t.toList.all fun x => x != '\x85' && x != '\u2028' && x != '\u2029')
  (by simp [IsOneLine, and_assoc])

theorem escape?_hex {n : Nat} (hn : n < 0x20) (s : List Char) :
    escape? ('u' :: (hex false 4 n ++ s)) = some (Char.ofNat n, 5) := by
  have hnat : ∀ n < 0x20, natOf? 16 (hex false 4 n) = some n := by decide
  have hlength : (hex false 4 n).length = 4 := rfl
  have htake : (hex false 4 n ++ s).take 4 = hex false 4 n := List.take_left' hlength
  have hvalid : n.isValidChar := .inl (by omega)
  simp only [escape?, escapeWidth?, htake, hlength, hnat n hn, hvalid, Nat.lt_irrefl, if_false,
    if_true]

theorem quotedRun?_backslash {x : Char} {n : Nat} (h : c.rest = '\\' :: s) (hs : endsLine s = false)
    (hescape : escape? s = some (x, n)) (fuel : Nat) : quotedRun? false (fuel + 1) c =
      (quotedRun? false fuel (c.drop (n + 1))).map fun r => (x :: r.1, r.2) := by
  rw [quotedRun?, h]
  simp only [hs, Bool.and_false, Bool.false_eq_true, if_false, hescape]

theorem quotedRun?_cons {x : Char} (h : c.rest = x :: s) (hquote : x ≠ '"') (hslash : x ≠ '\\')
    (hx : (isBreak x || isGap x) = false) (fuel : Nat) : quotedRun? false (fuel + 1) c =
      (quotedRun? false fuel (c.drop 1)).map fun r => (x :: r.1, r.2) := by
  rw [quotedRun?, h]
  split
  next heq => cases heq
  next heq =>
    cases heq
    rfl
  next heq => exact absurd (List.cons.inj heq).1 hquote
  next heq => exact absurd (List.cons.inj heq).1 hslash
  next heq =>
    cases heq
    rw [hx]
    rfl

/-- A quoted scalar goes on behind a character that JSON has escaped. -/
theorem quotedRun?_escape {x : Char} (hx : isBreak x = true → x.toNat < 0x20) (hspace : x ≠ ' ')
    (h : c.rest = Json.escape x ++ s) (fuel : Nat) : quotedRun? false (fuel + 1) c =
      (quotedRun? false fuel (c.drop (Json.escape x).length)).map fun r => (x :: r.1, r.2) := by
  unfold Json.escape at h ⊢
  split at h
  case h_8 hquote hslash _ _ _ _ htab =>
    split at h
    next hlow =>
      rw [if_pos hlow]
      have hread := escape?_hex hlow s
      rw [Char.ofNat_toNat] at hread
      exact quotedRun?_backslash h rfl hread fuel
    next hlow =>
      have hbreak : isBreak x = false := by simpa using mt hx hlow
      rw [if_neg hlow]
      exact quotedRun?_cons h hquote hslash (by simp [hbreak, isGap, hspace]; exact htab) fuel
  all_goals exact quotedRun?_backslash h rfl rfl fuel

/-- Neither the end of a line, unless JSON escapes it, nor a space. -/
def IsInWord (x : Char) : Prop := (isBreak x = true → x.toNat < 0x20) ∧ x ≠ ' '

theorem quotedRun?_flatMap_escape {cs : List Char} (hcs : ∀ x ∈ cs, IsInWord x) {stop : Char}
    (hstop : stop = '"' ∨ stop = ' ') (h : c.rest = cs.flatMap Json.escape ++ stop :: s)
    {fuel : Nat} (hfuel : cs.length < fuel) : quotedRun? false fuel c =
      some (cs, false, c.drop (cs.flatMap Json.escape).length) := by
  induction cs generalizing c fuel with
  | nil =>
    obtain ⟨fuel, rfl⟩ := Nat.exists_eq_add_one.2 hfuel
    rw [quotedRun?, h]
    rcases hstop with rfl | rfl <;> rfl
  | cons x cs ih =>
    obtain ⟨fuel, rfl⟩ := Nat.exists_eq_add_one.2 (Nat.zero_lt_of_lt hfuel)
    obtain ⟨hx, hcs⟩ := List.forall_mem_cons.1 hcs
    rw [List.flatMap_cons, List.append_assoc] at h
    rw [quotedRun?_escape hx.1 hx.2 h, ih hcs (Cursor.rest_drop h) (Nat.lt_of_succ_lt_succ hfuel),
      Option.map_some, Cursor.drop_drop, List.flatMap_cons, List.length_append]

theorem gapFrom?_replicate {x : Char} (hx : isGap x = false ∧ isBreak x = false)
    (indent : Option Nat) {n : Nat} (h : c.rest = List.replicate n ' ' ++ x :: s)
    (spaces : List Char) {fuel : Nat} (hfuel : n < fuel) : gapFrom? indent fuel { spaces } c =
      some ({ spaces := spaces ++ List.replicate n ' ' }, c.drop n) := by
  induction n generalizing c spaces fuel with
  | zero =>
    obtain ⟨fuel, rfl⟩ := Nat.exists_eq_add_one.2 hfuel
    rw [List.replicate_zero, List.nil_append] at h
    simp [gapFrom?, h, hx]
  | succ n ih =>
    obtain ⟨fuel, rfl⟩ := Nat.exists_eq_add_one.2 (Nat.zero_lt_of_lt hfuel)
    rw [List.replicate_succ, List.cons_append] at h
    have hskip : c.skip.rest = List.replicate n ' ' ++ x :: s := Cursor.rest_skip h
    have hspace : isGap ' ' = true := rfl
    rw [gapFrom?, h]
    simp only [hspace, Bool.false_and, Bool.false_eq_true, if_false, if_true]
    rw [ih hskip _ (Nat.lt_of_succ_lt_succ hfuel), Cursor.skip, Cursor.drop_drop,
      Nat.add_comm 1 n, List.append_assoc]
    rfl

/-- A text is a word, the spaces behind it and a rest that starts with none. -/
theorem exists_word (cs : List Char) : ∃ word n rest, cs = word ++ (List.replicate n ' ' ++ rest) ∧
    (∀ x ∈ word, x ≠ ' ') ∧ (n = 0 → rest = []) ∧ rest.head? ≠ some ' ' := by
  induction cs with
  | nil => exact ⟨[], 0, [], rfl, by simp, fun _ => rfl, by simp⟩
  | cons x cs ih =>
    obtain ⟨word, n, rest, hcs, hword, hn, hrest⟩ := ih
    by_cases hx : x = ' '
    · subst hx
      cases word with
      | nil =>
        exact ⟨[], n + 1, rest, by rw [hcs]; rfl, by simp, by simp, hrest⟩
      | cons y word =>
        refine ⟨[], 1, cs, rfl, by simp, by simp, ?_⟩
        rw [hcs]
        simpa using hword y List.mem_cons_self
    · exact ⟨x :: word, n, rest, by rw [hcs]; rfl, List.forall_mem_cons.2 ⟨hx, hword⟩, hn, hrest⟩

theorem flatMap_escape_replicate (n : Nat) :
    (List.replicate n ' ').flatMap Json.escape = List.replicate n ' ' := by
  induction n with
  | zero => rfl
  | succ n ih => exact congrArg (' ' :: ·) ih

theorem IsInWord.exists_escape {x : Char} (hx : IsInWord x) :
    ∃ y t, Json.escape x = y :: t ∧ isGap y = false ∧ isBreak y = false := by
  unfold Json.escape
  split
  case h_8 htab =>
    split
    next => exact ⟨_, _, rfl, rfl, rfl⟩
    next hlow =>
      refine ⟨x, [], rfl, ?_, by simpa using mt hx.1 hlow⟩
      simp [isGap, hx.2]
      exact htab
  all_goals exact ⟨_, _, rfl, rfl, rfl⟩

/-- What follows the spaces in a quoted scalar. -/
theorem exists_flatMap_escape {cs : List Char} (hcs : ∀ x ∈ cs, isBreak x = true → x.toNat < 0x20)
    (hhead : cs.head? ≠ some ' ') (s : List Char) : ∃ y t,
      cs.flatMap Json.escape ++ '"' :: s = y :: t ∧ isGap y = false ∧ isBreak y = false := by
  cases cs with
  | nil => exact ⟨'"', s, rfl, rfl, rfl⟩
  | cons x cs =>
    have hx : IsInWord x := ⟨hcs x List.mem_cons_self, by simpa using hhead⟩
    obtain ⟨y, t, ht, hy⟩ := hx.exists_escape
    exact ⟨y, _, by rw [List.flatMap_cons, ht]; rfl, hy⟩

/-- The reader takes the characters of a string up to its closing quote, word by word. -/
theorem quotedFrom?_flatMap_escape {cs : List Char}
    (hcs : ∀ x ∈ cs, isBreak x = true → x.toNat < 0x20) (hcolumn : c.column ≠ 0)
    (h : c.rest = cs.flatMap Json.escape ++ '"' :: s) {fuel : Nat} (hfuel : cs.length < fuel) :
    quotedFrom? false fuel c = some (cs, c.drop ((cs.flatMap Json.escape).length + 1)) := by
  induction fuel generalizing c cs with
  | zero => exact absurd hfuel (Nat.not_lt_zero _)
  | succ fuel ih =>
    obtain ⟨word, n, rest, rfl, hword, hn, hrest⟩ := exists_word cs
    have hword (x : Char) (hx : x ∈ word) : IsInWord x :=
      ⟨hcs x (List.mem_append_left _ hx), hword x hx⟩
    have hempty : c.rest.isEmpty = false := by simp [h]
    rw [List.flatMap_append, List.append_assoc] at h
    have hlength : word.length < c.rest.length + 1 := by
      have hword := Json.length_le_length_flatMap_escape word
      rw [h, List.length_append]
      omega
    rw [quotedFrom?, Cursor.isDocumentMarker_of_column_ne_zero hcolumn, hempty]
    simp only [Bool.false_or, Bool.false_eq_true, if_false]
    cases n with
    | zero =>
      obtain rfl := hn rfl
      have hstop : c.rest = word.flatMap Json.escape ++ '"' :: s := h
      rw [quotedRun?_flatMap_escape hword (.inl rfl) hstop hlength]
      simp only [Cursor.isAt_zero (Cursor.rest_drop hstop), beq_self_eq_true, if_true, Cursor.skip,
        Cursor.drop_drop]
      simp
    | succ n =>
      have hrest' (x : Char) (hx : x ∈ rest) : isBreak x = true → x.toNat < 0x20 :=
        hcs x (by simp [hx])
      rw [List.flatMap_append, flatMap_escape_replicate, List.append_assoc] at h
      obtain ⟨d, hd⟩ : ∃ d, d = c.drop (word.flatMap Json.escape).length := ⟨_, rfl⟩
      have hspaces : d.rest =
          List.replicate (n + 1) ' ' ++ (rest.flatMap Json.escape ++ '"' :: s) :=
        hd ▸ Cursor.rest_drop h
      have hspace : d.isAt 0 '"' = false := Cursor.isAt_zero hspaces '"'
      obtain ⟨y, t, hy, hhead⟩ := exists_flatMap_escape hrest' hrest s
      have hgap : gap? none {} d =
          some ({ spaces := List.replicate (n + 1) ' ' }, d.drop (n + 1)) := by
        refine gapFrom?_replicate hhead none (hy ▸ hspaces) [] ?_
        rw [hspaces, List.length_append, List.length_replicate]
        omega
      have hcolumn' : (d.drop (n + 1)).column ≠ 0 := Nat.succ_ne_zero _
      have hafter : (d.drop (n + 1)).rest = rest.flatMap Json.escape ++ '"' :: s := by
        rw [Cursor.drop, hspaces, List.drop_left' List.length_replicate]
      simp only [List.length_append, List.length_replicate] at hfuel
      rw [quotedRun?_flatMap_escape hword (.inr rfl) h hlength, ← hd]
      simp only [hspace, Bool.false_eq_true, if_false, hgap, ih hrest' hcolumn' hafter (by omega)]
      simp [hd, Gap.text, flatMap_escape_replicate, Nat.add_assoc]

theorem IsOneLine.isBreak {text : String} (h : IsOneLine text) :
    ∀ x ∈ text.toList, isBreak x = true → x.toNat < 0x20 := by
  intro x hx hbreak
  obtain ⟨h85, h2028, h2029⟩ := h x hx
  simp only [Yaml.isBreak, h85, h2028, h2029, beq_iff_eq, Bool.or_eq_true, or_false] at hbreak
  rcases hbreak with rfl | rfl <;> decide

/-- **A JSON string is a quoted scalar of the same text**, if the text has no line breaks but those
that JSON escapes. -/
theorem quoted?_quoted {text : String} (htext : IsOneLine text)
    (h : c.rest = Json.quoted text ++ s) :
    quoted? false c = some (text.toList, c.drop (Json.quoted text).length) := by
  have hlength := Json.length_le_length_flatMap_escape text.toList
  rw [Json.quoted_append] at h
  have hskip : c.skip.rest = text.toList.flatMap Json.escape ++ '"' :: s := Cursor.rest_skip h
  have hfuel : text.toList.length < c.rest.length + 1 := by
    rw [h, List.length_cons, List.length_append]
    omega
  rw [quoted?, quotedFrom?_flatMap_escape htext.isBreak (Nat.succ_ne_zero _) hskip hfuel,
    Cursor.skip, Cursor.drop_drop]
  simp [Json.quoted, Nat.add_comm]

/-! ### Plain scalars -/

/-- White space as JSON is laid out with. -/
def isLayout (x : Char) : Bool := x == ' ' || x == '\n'

/-- What may stand behind a scalar: nothing but layout, and in a flow collection also a comma or a
closing bracket. -/
def EndsScalar (flow : Bool) (s : List Char) : Prop :=
  ∀ x ∈ (s.dropWhile isLayout).head?, flow = true ∧ isFlowIndicator x = true

/-- The characters of a plain scalar that JSON writes; it does not start with two hyphens. -/
structure IsPlainWord (s : List Char) : Prop where
  isWordChar : ∀ x ∈ s, isWordChar x = true
  head : ∃ x t, s = x :: t ∧ (x ≠ '-' ∨ ∃ y u, t = y :: u ∧ y ≠ '-')

theorem ne_of_test {p : Char → Bool} {x d : Char} (hx : p x = true) (hd : p d = false) : x ≠ d := by
  rintro rfl
  exact Bool.false_ne_true (hd.symm.trans hx)

theorem of_isWordChar {x : Char} (h : isWordChar x = true) :
    isBreak x = false ∧ isGap x = false ∧ isFlowIndicator x = false ∧ x ≠ ':' := by
  simp only [isBreak, isGap, isFlowIndicator, Bool.or_eq_false_iff, beq_eq_false_iff_ne]
  refine ⟨⟨⟨⟨⟨?_, ?_⟩, ?_⟩, ?_⟩, ?_⟩, ⟨?_, ?_⟩, ⟨⟨⟨⟨?_, ?_⟩, ?_⟩, ?_⟩, ?_⟩, ?_⟩
  all_goals exact ne_of_test h (by decide)

theorem plainRun?_of_endsScalar {flow : Bool} (h : EndsScalar flow s) :
    plainRun? flow s = some [] := by
  cases s with
  | nil => rfl
  | cons x s =>
    rw [plainRun?]
    by_cases hx : isLayout x
    · have hspace : (isBreak x || isGap x) = true := by
        rw [isLayout, Bool.or_eq_true, beq_iff_eq, beq_iff_eq] at hx
        rcases hx with rfl | rfl <;> rfl
      rw [if_pos hspace]
    · obtain ⟨rfl, hflow⟩ := h x (by rw [List.dropWhile_cons_of_neg hx]; rfl)
      have hcolon : x ≠ ':' := ne_of_test hflow rfl
      simp [hcolon, hflow]

theorem plainRun?_append {flow : Bool} (hs : ∀ x ∈ s, isWordChar x = true)
    (ht : EndsScalar flow t) : plainRun? flow (s ++ t) = some s := by
  induction s with
  | nil => exact plainRun?_of_endsScalar ht
  | cons x s ih =>
    obtain ⟨hx, hs⟩ := List.forall_mem_cons.1 hs
    obtain ⟨hbreak, hgap, hflow, hcolon⟩ := of_isWordChar hx
    rw [List.cons_append, plainRun?]
    simp [hbreak, hgap, hflow, hcolon, ih hs]

theorem endsWord_of_isFlowIndicator {x : Char} (hx : isFlowIndicator x = true)
    (s : List Char) : endsWord (x :: s) = false := by
  simp only [isFlowIndicator, Bool.or_eq_true, beq_iff_eq] at hx
  rcases hx with (((rfl | rfl) | rfl) | rfl) | rfl <;> rfl

theorem EndsScalar.dropWhile {flow : Bool} (h : EndsScalar flow s) :
    EndsScalar flow (s.dropWhile isLayout) := by
  rwa [EndsScalar, List.dropWhile_idempotent]

theorem exists_gapFrom?_layout {flow : Bool} (h : EndsScalar flow c.rest) {fuel : Nat}
    (hfuel : c.rest.length < fuel) (g : Gap) : ∃ g' d,
      gapFrom? (some 0) fuel g c = some (g', d) ∧ d.rest = c.rest.dropWhile isLayout := by
  induction fuel generalizing c g with
  | zero => exact absurd hfuel (Nat.not_lt_zero _)
  | succ fuel ih =>
    cases hrest : c.rest with
    | nil => exact ⟨g, c, by rw [gapFrom?, hrest], hrest⟩
    | cons x s =>
      rw [hrest] at h hfuel
      by_cases hx : isLayout x = true
      · rw [EndsScalar, List.dropWhile_cons_of_pos hx] at h
        rw [List.dropWhile_cons_of_pos hx]
        rw [isLayout, Bool.or_eq_true, beq_iff_eq, beq_iff_eq] at hx
        rw [List.length_cons, Nat.add_lt_add_iff_right] at hfuel
        rcases hx with rfl | rfl
        · have hskip : c.skip.rest = s := Cursor.rest_skip hrest
          obtain ⟨g', d, hd, hrest'⟩ := ih (hskip.symm ▸ h) (hskip.symm ▸ hfuel)
            (if g.broken then g else { g with spaces := g.spaces ++ [' '] })
          refine ⟨g', d, ?_, by rw [hrest', hskip]⟩
          rw [gapFrom?, hrest]
          simpa [isGap] using hd
        · obtain ⟨g', d, hd, hrest'⟩ := ih (c := ⟨s, c.index + 1, c.line + 1, 0⟩) h hfuel
            (if g.broken then { g with others := g.others ++ ['\n'] }
              else { g with spaces := [], first := ['\n'], broken := true })
          refine ⟨g', d, ?_, hrest'⟩
          have hgap : isGap '\n' = false := rfl
          have hbreak : isBreak '\n' = true := rfl
          rw [gapFrom?, hrest]
          simp only [hgap, hbreak, Cursor.takeBreak_lineFeed hrest, Bool.false_eq_true, if_false,
            if_true]
          rw [← hd]
          split <;> rfl
      · have hflow := (h x (by rw [List.dropWhile_cons_of_neg hx]; rfl)).2
        have hword := endsWord_of_isFlowIndicator hflow s
        rw [endsWord, Bool.or_eq_false_iff] at hword
        refine ⟨g, c, ?_, by rw [hrest, List.dropWhile_cons_of_neg hx]⟩
        rw [gapFrom?, hrest]
        simp [hword]

/-- Where a scalar has ended, a plain one does not go on. -/
theorem plainFrom?_of_endsScalar {flow : Bool} (h : EndsScalar flow c.rest)
    (hlayout : c.rest.dropWhile isLayout = c.rest) (fuel : Nat) (g : Gap) :
    plainFrom? flow 0 (fuel + 1) g c = some ([], c, g.broken) := by
  rw [plainFrom?, plainRun?_of_endsScalar h]
  cases hrest : c.rest with
  | nil => simp [Cursor.isDocumentMarker, Cursor.isMarker, Cursor.isAt, hrest]
  | cons x s =>
    rw [hrest] at h hlayout
    have hflow := (h x (by rw [hlayout]; rfl)).2
    have hne {d : Char} (hd : isFlowIndicator d = false) : x ≠ d := ne_of_test hflow hd
    have hmarker : c.isDocumentMarker = false := by
      rw [Cursor.isDocumentMarker, Cursor.isMarker_of_head_ne hrest (hne rfl),
        Cursor.isMarker_of_head_ne hrest (hne rfl), Bool.or_false]
    have hcomment : c.isAt 0 '#' = false := by simpa [Cursor.isAt_zero hrest] using hne rfl
    simp [hmarker, hcomment, hrest, endsWord_of_isFlowIndicator hflow]

theorem IsPlainWord.isMarker (hs : IsPlainWord s) (h : c.rest = s ++ t) :
    c.isMarker '-' = false ∧ c.isMarker '.' = false := by
  obtain ⟨x, u, rfl, hx⟩ := hs.head
  refine ⟨?_, Cursor.isMarker_of_head_ne h
    (ne_of_test (hs.isWordChar x List.mem_cons_self) rfl)⟩
  rcases hx with hx | ⟨y, v, rfl, hy⟩
  · exact Cursor.isMarker_of_head_ne h hx
  · exact Cursor.isMarker_of_second_ne h hy

/-- A hyphen that a word starts with is no mark of an entry. -/
theorem IsPlainWord.behind_hyphen (hs : IsPlainWord ('-' :: s)) (t : List Char) :
    endsWord (s ++ t) = false ∧ (s ++ t).head?.any isGap = false := by
  obtain ⟨x, u, heq, hx⟩ := hs.head
  obtain ⟨rfl, rfl⟩ := List.cons.inj heq
  obtain ⟨y, v, rfl, -⟩ := hx.resolve_left (not_not_intro rfl)
  obtain ⟨hbreak, hgap, -⟩ := of_isWordChar (hs.isWordChar y (by simp))
  simp [endsWord, hbreak, hgap]

theorem IsPlainWord.startsPlain (hs : IsPlainWord s) (flow : Bool) (t : List Char) :
    Reading.startsPlain flow (s ++ t) = true := by
  obtain ⟨x, u, rfl, -⟩ := hs.head
  have hx := hs.isWordChar x List.mem_cons_self
  obtain ⟨hbreak, hgap, -⟩ := of_isWordChar hx
  rw [List.cons_append, Reading.startsPlain]
  by_cases hhyphen : x = '-'
  · subst hhyphen
    rw [(hs.behind_hyphen t).2]
    simp
  · have hnone : "-?:,[]\x7b\x7d#&*!|>'\"%@".toList.contains x = false := by
      rw [Bool.eq_false_iff, ne_eq, List.contains_iff_mem]
      intro hmem
      have hall : "-?:,[]\x7b\x7d#&*!|>'\"%@".toList.all fun d =>
          !Yaml.isWordChar d || d == '-' := by
        decide
      have hd := List.all_eq_true.1 hall x hmem
      rw [Bool.or_eq_true, Bool.not_eq_true', beq_iff_eq] at hd
      exact hd.elim (fun hd => ne_of_test hx hd rfl) hhyphen
    rw [hbreak, hgap, hnone, beq_eq_false_iff_ne.2 (ne_of_test (d := '\x60') hx rfl)]
    rfl

/-- **A word that JSON writes is a plain scalar**, and the reader passes the layout behind it. -/
theorem exists_plain?_append {flow : Bool} (hs : IsPlainWord s) (ht : EndsScalar flow t)
    (h : c.rest = s ++ t) : ∃ d broken, plain? flow 0 c = some (s, d, broken) ∧
      d.rest.dropWhile isLayout = t.dropWhile isLayout ∧ d.rest.length ≤ t.length := by
  have hmarker : c.isDocumentMarker = false := by
    rw [Cursor.isDocumentMarker, (hs.isMarker h).1, (hs.isMarker h).2, Bool.or_false]
  have hnext := Cursor.rest_drop h
  have hrun := plainRun?_append hs.isWordChar ht
  obtain ⟨x, u, rfl, -⟩ := hs.head
  have hcomment : c.isAt 0 '#' = false := by
    have hne := ne_of_test (d := '#') (hs.isWordChar x List.mem_cons_self) rfl
    simpa [Cursor.isAt_zero h] using hne
  rw [plain?, plainFrom?, hmarker, hcomment, h, hrun]
  simp only [Bool.or_false, Bool.false_eq_true, if_false, List.isEmpty_cons, hnext]
  split
  next => exact ⟨_, _, rfl, by rw [hnext], by rw [hnext]⟩
  next =>
    obtain ⟨g, d, hd, hrest⟩ := exists_gapFrom?_layout (hnext.symm ▸ ht) (Nat.lt_succ_self _) {}
    rw [hnext] at hrest
    have hend := plainFrom?_of_endsScalar (c := d) (hrest ▸ ht.dropWhile)
      (by rw [hrest, List.dropWhile_idempotent]) (u ++ t).length g
    have hcolumn : (!flow && decide (d.column < 0)) = false := by simp
    refine ⟨d, g.broken, ?_, by rw [hrest, List.dropWhile_idempotent],
      hrest ▸ List.length_dropWhile_le _ _⟩
    simp only [gap?, hd, hcolumn, Bool.false_eq_true, if_false]
    rw [List.cons_append, List.length_cons, hend]
    simp [Gap.text]

theorem isWordChar_of_isDigit {x : Char} (h : x.isDigit) : isWordChar x = true := by
  simp [isWordChar, Char.isAlphanum, h]

theorem isPlainWord_decimalInt (i : Int) : IsPlainWord (decimalInt i) := by
  refine ⟨fun x hx => ?_, ?_⟩
  · rcases Double.isDigit_of_mem_decimalInt hx with h | rfl
    · exact isWordChar_of_isDigit h
    · rfl
  · have hne {x : Char} (hx : x.isDigit) : x ≠ '-' := by
      rintro rfl
      exact absurd hx (by decide)
    cases i with
    | ofNat n =>
      obtain ⟨x, s, h, hx⟩ := Double.exists_decimal n
      exact ⟨x, s, h, .inl (hne hx)⟩
    | negSucc n =>
      obtain ⟨x, s, h, hx⟩ := Double.exists_decimal (n + 1)
      exact ⟨'-', _, rfl, .inr ⟨x, s, h, hne hx⟩⟩

/-! ### What plain scalars stand for -/

theorem natFrom?_eq_ofDigitChars (hs : ∀ x ∈ s, x.isDigit) (acc : Nat) :
    natFrom? 10 acc s = some (Nat.ofDigitChars 10 s acc) := by
  induction s generalizing acc with
  | nil => rfl
  | cons x s ih =>
    obtain ⟨hx, hs⟩ := List.forall_mem_cons.1 hs
    rw [natFrom?, Double.digitOf?_ten hx, Nat.ofDigitChars_cons, Nat.mul_comm]
    exact ih hs _

theorem natOf?_decimal (n : Nat) : natOf? 10 (decimal n) = some n := by
  obtain ⟨x, s, h, -⟩ := Double.exists_decimal n
  have hnumber : Nat.ofDigitChars 10 (decimal n) 0 = n := Nat.ofDigitChars_ten_toDigits
  have hdigits : ∀ x ∈ decimal n, x.isDigit := fun x hx => Double.isDigit_of_mem_decimal hx
  rw [natOf?, natFrom?_eq_ofDigitChars hdigits, hnumber, h]
  rfl

theorem decimal_ne_padded (n : Nat) (x : Char) (s : List Char) : decimal n ≠ '0' :: x :: s := by
  intro h
  obtain rfl := Json.eq_zero_of_decimal_eq h
  cases h

theorem magnitude?_decimal (n : Nat) : magnitude? (decimal n) = some n := by
  unfold magnitude?
  split
  next h => exact absurd h (decimal_ne_padded n _ _)
  next h => exact absurd h (decimal_ne_padded n _ _)
  next h => exact absurd h (decimal_ne_padded n _ _)
  next => exact natOf?_decimal n

theorem decimal_ne_cons {d : Char} (hd : ¬d.isDigit) (n : Nat) (s : List Char) :
    decimal n ≠ d :: s := by
  intro h
  obtain ⟨x, t, ht, hx⟩ := Double.exists_decimal n
  rw [ht, List.cons.injEq] at h
  exact hd (h.1 ▸ hx)

theorem isPaddedNumber_decimalInt (i : Int) : isPaddedNumber (decimalInt i) = false := by
  unfold isPaddedNumber
  split
  next s h =>
    cases i with
    | ofNat n => exact absurd h (decimal_ne_cons (by decide) n _)
    | negSucc n =>
      obtain rfl : decimal (n + 1) = s := (List.cons.inj h).2
      dsimp only
      split
      next h => exact absurd h (decimal_ne_padded _ _ _)
      next => rfl
  next h =>
    cases i with
    | ofNat n => exact absurd h (decimal_ne_cons (by decide) n _)
    | negSucc n => cases h
  next hminus _ =>
    cases i with
    | ofNat n =>
      dsimp only
      split
      next h => exact absurd h (decimal_ne_padded _ _ _)
      next => rfl
    | negSucc n => exact absurd rfl (hminus _)

theorem integerOf?_decimalInt (i : Int) : integerOf? (decimalInt i) = some i := by
  unfold integerOf?
  rw [isPaddedNumber_decimalInt, if_neg Bool.false_ne_true]
  cases i with
  | ofNat n =>
    split
    next h => exact absurd h (decimal_ne_cons (by decide) n _)
    next h => exact absurd h (decimal_ne_cons (by decide) n _)
    next => rw [decimalInt, magnitude?_decimal, Option.map_some]
  | negSucc n =>
    simp only [decimalInt, magnitude?_decimal]
    rfl

theorem decimalInt_ne {text : String} (h : text.toList.all (fun x => x.isDigit || x == '-') = false)
    (i : Int) : String.ofList (decimalInt i) ≠ text := by
  rintro rfl
  rw [String.toList_ofList] at h
  refine Bool.false_ne_true (h.symm.trans (List.all_eq_true.2 fun x hx => ?_))
  rw [Bool.or_eq_true, beq_iff_eq]
  exact Double.isDigit_of_mem_decimalInt hx

/-- **The text of an integer of 64 bits stands for it.** -/
theorem resolve?_decimalInt (i : WideInt) :
    resolve? (String.ofList (decimalInt i.toInt)) = some (.number (.integer i)) := by
  have hlower := i.lower
  have hupper := i.upper
  have hrange : isIntegerRange i.toInt = true := by
    have h127 : Int.pow 2 127 = 170141183460469231731687303715884105728 := by decide
    have h128 : Int.pow 2 128 = 340282366920938463463374607431768211456 := by decide
    rw [isIntegerRange, h127, h128, Bool.and_eq_true, decide_eq_true_eq, decide_eq_true_eq]
    omega
  have hof : WideInt.ofInt? i.toInt = some i := dif_pos ⟨hlower, hupper⟩
  have hempty : (String.ofList (decimalInt i.toInt)).isEmpty = false := by
    obtain ⟨x, s, h, -⟩ := Double.exists_cons_decimalInt i.toInt
    rw [h]
    simp
  have hnull : isNullText (String.ofList (decimalInt i.toInt)) = false := by
    simp only [isNullText, Bool.or_eq_false_iff, beq_eq_false_iff_ne]
    refine ⟨⟨⟨?_, ?_⟩, ?_⟩, ?_⟩ <;> exact decimalInt_ne (by decide) _
  have hboolean : booleanOf? (String.ofList (decimalInt i.toInt)) = none := by
    have hne (word : String) (h : word.toList.all (fun x => x.isDigit || x == '-') = false) :
        (String.ofList (decimalInt i.toInt) == word) = false :=
      beq_eq_false_iff_ne.2 (decimalInt_ne h _)
    rw [booleanOf?]
    simp only [hne "true" (by decide), hne "True" (by decide), hne "TRUE" (by decide),
      hne "false" (by decide), hne "False" (by decide), hne "FALSE" (by decide)]
    rfl
  rw [resolve?, hempty, hnull, hboolean, String.toList_ofList, integerOf?_decimalInt]
  simp only [Bool.or_self, Bool.false_eq_true, if_false, Option.filter_some, hrange, if_true, hof,
    Option.map_some]

end YamlQuery.Yaml

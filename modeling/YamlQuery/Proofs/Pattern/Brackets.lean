import YamlQuery.Proofs.Pattern.Elements

/-!
# Proofs.Pattern.Brackets — bracketed sets with a frame around the text

A bracketed set is read the same with `frameEnd` behind the text as without it.  An item that is cut
short may be read all the same, but behind it no bracket is left, and so the set is not read.
-/

namespace YamlQuery.Pattern

open YamlQuery.Text

variable {f : Flags} {s r w : List Char}

/-! ### Open brackets -/

theorem leadingHyphens_nil (f : Flags) (b : Bracket) : ∀ n, leadingHyphens f n b [] = (b, [])
  | 0 => rfl
  | _ + 1 => rfl

theorem leadingHyphens_agrees : ∀ (n : Nat) (b : Bracket) (s : List Char), s.length ≤ n →
    Agrees Never s (some (leadingHyphens f n b s))
      (some (leadingHyphens f (n + 2) b (s ++ frameEnd)))
  | n, b, [], _ => by
    rw [leadingHyphens_nil]
    exact .reads (.refl [])
  | n + 1, b, c :: s, h => by
    by_cases hc : c = '-'
    · subst hc
      have hl := passSpace_left f s
      have hlen : (passSpace f s).length ≤ n :=
        hl.suffix.length_le.trans (Nat.le_of_succ_le_succ h)
      exact (Agrees.of_left (g := fun s => some (leadingHyphens f n (b.add ⟨.single '-', 0⟩) s))
        (k := fun s => some (leadingHyphens f (n + 2) (b.add ⟨.single '-', 0⟩) s)) hl
        (leadingHyphens_agrees n _ _ hlen) (by simp only [leadingHyphens_nil])).mono
          (List.suffix_cons _ s) fun _ _ => id
    · have hs (t : List Char) (n : Nat) : leadingHyphens f (n + 1) b (c :: t) = (b, c :: t) := by
        rw [leadingHyphens]
        rintro t' ht
        exact hc (List.cons.inj ht).1
      rw [List.cons_append, hs, Nat.add_right_comm, hs]
      exact .reads (.refl _)

/-- The sign of negation that a set may start with. -/
def setSign (f : Flags) : List Char → Bool × List Char
  | '^' :: s => (true, passSpace f s)
  | s => (false, s)

/-- The closing bracket that a set may start with. -/
def firstClosing (f : Flags) (b : Bracket) : List Char → Bracket × List Char
  | ']' :: s => if b.count = 0 then (b.add ⟨.single ']', 0⟩, passSpace f s) else (b, ']' :: s)
  | s => (b, s)

theorem openBracket?_eq (f : Flags) (s : List Char) : openBracket? f s =
    let x := setSign f (passSpace f s)
    let y := leadingHyphens f x.2.length { negated := x.1 } x.2
    let z := firstClosing f y.1 y.2
    if z.2.isEmpty then none else some (z.1, z.2) := by
  have hsign (t : List Char) : setSign f t = match t with
      | '^' :: _ => (true, advance f t)
      | t => (false, t) := by
    unfold setSign
    split <;> rfl
  have hclosing (b : Bracket) (t : List Char) : firstClosing f b t = match t with
      | ']' :: _ => if b.count = 0 then (b.add ⟨.single ']', 0⟩, advance f t) else (b, t)
      | t => (b, t) := by
    unfold firstClosing
    split <;> rfl
  simp only [hsign, hclosing]
  rfl

theorem setSign_agrees (h : Left s r w) :
    Agrees Never s (some (setSign f r)) (some (setSign f w)) := by
  rcases h.head (c := '^') (by decide) with ⟨u, v, rfl, rfl, hv⟩ | ⟨hr, hw⟩
  · exact .reads (hv.passSpace f)
  · rw [setSign.eq_2 f r hr, setSign.eq_2 f w hw]
    exact .reads h

theorem firstClosing_agrees (b : Bracket) (h : Left s r w) :
    Agrees Never s (some (firstClosing f b r)) (some (firstClosing f b w)) := by
  rcases h.head (c := ']') (by decide) with ⟨u, v, rfl, rfl, hv⟩ | ⟨hr, hw⟩
  · rw [firstClosing, firstClosing]
    split
    · exact .reads (hv.passSpace f)
    · exact .reads h
  · rw [firstClosing.eq_2 f b r hr, firstClosing.eq_2 f b w hw]
    exact .reads h

/-- No bracket is left that closes a set. -/
abbrev Unclosed {α : Type} (_ : α) (w : List Char) : Prop := ']' ∉ w

theorem openBracket?_agrees (s : List Char) :
    Agrees Unclosed s (openBracket? f s) (openBracket? f (s ++ frameEnd)) := by
  obtain ⟨neg, r, w, hr, hw, hl⟩ := (setSign_agrees (f := f) (passSpace_left f s)).exists_of_some
  rw [openBracket?_eq, openBracket?_eq, hr, hw]
  dsimp only
  obtain ⟨b, r₁, w₁, hr₁, hw₁, hl₁⟩ :
      ∃ b r₁ w₁, leadingHyphens f r.length { negated := neg } r = (b, r₁) ∧
        leadingHyphens f w.length { negated := neg } w = (b, w₁) ∧ Left s r₁ w₁ := by
    obtain ⟨hsuffix, rfl | ⟨rfl, rfl⟩⟩ := hl
    · rw [List.length_append]
      exact ((leadingHyphens_agrees r.length _ r (Nat.le_refl _)).mono hsuffix
        fun _ _ => id).exists_of_some
    · exact ⟨_, [], [], rfl, rfl, .nil s⟩
  obtain ⟨c, r₂, w₂, hr₂, hw₂, hl₂⟩ := (firstClosing_agrees (f := f) b hl₁).exists_of_some
  rw [hr₁, hw₁]
  dsimp only
  rw [hr₂, hw₂]
  dsimp only
  cases r₂ with
  | nil =>
    rcases hl₂.of_nil with rfl | rfl
    · rintro a w hw
      cases hw
      show ']' ∉ frameEnd
      decide
    · exact .fails
  | cons d u =>
    obtain ⟨v, rfl, hv⟩ := hl₂.of_cons
    exact .reads hl₂

/-! ### Items -/

/-- The set with a name, in any case if the flags say so. -/
def asciiSet? (f : Flags) (negated : Bool) (name : List Char) : Option CharSet :=
  (CharSet.ofAsciiName? (String.ofList name)).map fun set =>
    let folded := if f.anyCase then set.anyCase (!f.unicode) else set
    if negated then folded.compl (!f.unicode) else folded

/-- The end of a named set. -/
def namedEnd? (f : Flags) (negated : Bool) (name : List Char) :
    List Char → Option (CharSet × List Char)
  | ']' :: s => (asciiSet? f negated name).map (·, s)
  | _ => none

/-- A named set behind its colon and sign of negation. -/
def namedFrom? (f : Flags) (negated : Bool) (s : List Char) : Option (CharSet × List Char) :=
  (cutAt (· == ':') s).bind fun x => namedEnd? f negated x.1 x.2

theorem namedEnd?_agrees (negated : Bool) (name : List Char) (h : Left s r w) :
    Agrees Never s (namedEnd? f negated name r) (namedEnd? f negated name w) := by
  rcases h.head (c := ']') (by decide) with ⟨u, v, rfl, rfl, hv⟩ | ⟨hr, hw⟩
  · rw [namedEnd?, namedEnd?]
    cases asciiSet? f negated name with
    | none => exact .fails
    | some set => exact .reads hv
  · rw [namedEnd?.eq_2 f negated name r hr, namedEnd?.eq_2 f negated name w hw]
    exact .fails

theorem namedFrom?_agrees (negated : Bool) (h : Left s r w) :
    Agrees Never s (namedFrom? f negated r) (namedFrom? f negated w) :=
  (Agrees.of_left h (cutAt_agrees (by decide) (by decide) r) rfl).bind
    (fun name _ _ hl => namedEnd?_agrees negated name hl) fun _ _ h => h.elim

theorem namedFrom?_eq (f : Flags) (negated : Bool) (s : List Char) : namedFrom? f negated s =
    match cutAt (· == ':') s with
    | some (name, ']' :: s) =>
      (CharSet.ofAsciiName? (String.ofList name)).map fun set =>
        let folded := if f.anyCase then set.anyCase (!f.unicode) else set
        (if negated then folded.compl (!f.unicode) else folded, s)
    | _ => none := by
  unfold namedFrom?
  split
  · next name t h =>
    rw [h]
    exact Option.map_map _ _ _
  · next hne =>
    rcases h : cutAt (· == ':') s with _ | ⟨name, t⟩
    · rfl
    · exact namedEnd?.eq_2 f negated name t fun u hu => hne name u (by rw [h, hu])

theorem named?_negated (f : Flags) (s : List Char) :
    named? f (':' :: '^' :: s) = namedFrom? f true s :=
  (named?.eq_1 f s).trans (namedFrom?_eq f true s).symm

theorem named?_plain (f : Flags) {s : List Char} (hs : ∀ t, s ≠ '^' :: t) :
    named? f (':' :: s) = namedFrom? f false s :=
  (named?.eq_2 f s hs).trans (namedFrom?_eq f false s).symm

theorem named?_agrees (s : List Char) :
    Agrees Never s (named? f s) (named? f (s ++ frameEnd)) := by
  rcases (Left.refl s).head (c := ':') (by decide) with ⟨t, v, hs, hv, ht⟩ | ⟨hs, hs'⟩
  · rw [hv, hs]
    rcases ht.head (c := '^') (by decide) with ⟨u, w, rfl, rfl, hu⟩ | ⟨ht', hv'⟩
    · rw [named?_negated, named?_negated, ← hs]
      exact namedFrom?_agrees true hu
    · rw [named?_plain f ht', named?_plain f hv', ← hs]
      exact namedFrom?_agrees false ht
  · rw [named?.eq_3 f s hs, named?.eq_3 f _ hs']
    exact .fails

/-- An atom takes at least one character. -/
theorem bracketAtom?_agrees (s : List Char) :
    Agrees (Cut f) s.tail (bracketAtom? f s) (bracketAtom? f (s ++ frameEnd)) := by
  cases s with
  | nil =>
    rintro a w hw
    cases hw
    exact .inl rfl
  | cons c s =>
    by_cases hc : c = '\\'
    · subst hc
      exact escape?_agrees s
    · rw [List.cons_append, bracketAtom?.eq_3 f c s hc, bracketAtom?.eq_3 f c _ hc]
      exact .reads (.refl s)

/-- The set of a range between two atoms. -/
def rangeSet? (f : Flags) (a b : Atom) : Option CharSet :=
  (plainChar? f a).bind fun low => (plainChar? f b).bind fun high =>
    if low ≤ high then some (.range low high) else none

theorem rangeSet?_look (f : Flags) (a : Atom) (l : Look) : rangeSet? f a (.look l) = none := by
  unfold rangeSet?
  cases plainChar? f a <;> rfl

/-- The set of one atom. -/
def soleSet? (f : Flags) : Atom → Option CharSet
  | .set set => some set
  | .char c octet => (plainChar? f (.char c octet)).map .single
  | .look _ => none

/-- A range behind its second atom, and what is left. -/
def rangeFrom? (f : Flags) (a b : Atom) (s : List Char) : Option (CharSet × List Char) :=
  (rangeSet? f a b).map (·, s)

/-- An item in brackets behind its first atom and white space. -/
def itemFrom? (f : Flags) (a : Atom) (s : List Char) : Option (CharSet × List Char) :=
  if s.isEmpty then none
  else if startsRange f s then
    (bracketAtom? f (advance f s)).bind fun x => rangeFrom? f a x.1 x.2
  else (soleSet? f a).map (·, s)

theorem bracketItem?_eq (f : Flags) (s : List Char) : bracketItem? f s =
    (bracketAtom? f s).bind fun x => itemFrom? f x.1 (passSpace f x.2) := by
  unfold bracketItem?
  refine Option.bind_congr fun x _ => ?_
  obtain ⟨a, t⟩ := x
  unfold itemFrom? rangeFrom? rangeSet? soleSet?
  dsimp only
  cases (passSpace f t).isEmpty with
  | true => rfl
  | false =>
    rw [guard_of Bool.not_false, if_neg Bool.false_ne_true]
    dsimp only [Option.bind_eq_bind, Option.bind_some]
    cases startsRange f (passSpace f t) with
    | true =>
      cases bracketAtom? f (advance f (passSpace f t)) with
      | none => rfl
      | some y =>
        dsimp only [Option.bind_some]
        cases plainChar? f a with
        | none => rfl
        | some low =>
          dsimp only [Option.bind_some]
          cases plainChar? f y.1 with
          | none => rfl
          | some high =>
            dsimp only [Option.bind_some]
            by_cases hle : low ≤ high
            · rw [guard_of hle, if_pos hle]
              rfl
            · rw [guard_of_not hle, if_neg hle]
              rfl
    | false =>
      cases a with
      | set set => rfl
      | look l => rfl
      | char c octet =>
        dsimp only
        cases plainChar? f (.char c octet) <;> rfl

theorem startsRange_hyphen (f : Flags) (s : List Char) : startsRange f ('-' :: s) =
    !((passSpace f s).head?.any fun c => c == ']' || c == '-') := by
  rw [startsRange]
  rcases passSpace f s with _ | ⟨c, t⟩
  · rfl
  · by_cases h : c = ']'
    · subst h
      rfl
    · by_cases h' : c = '-'
      · subst h'
        rfl
      · simp [h, h']

theorem startsRange_left (h : Left s r w) : startsRange f w = startsRange f r := by
  rcases h.head (c := '-') (by decide) with ⟨u, v, rfl, rfl, hv⟩ | ⟨hr, hw⟩
  · rw [startsRange_hyphen, startsRange_hyphen]
    have hp := hv.passSpace f
    rcases hu : passSpace f u with _ | ⟨c, t⟩
    · rw [hu] at hp
      rcases hp.of_nil with hw | hw
      · rw [hw]
        rfl
      · rw [hw]
    · rw [hu] at hp
      obtain ⟨t', hw, -⟩ := hp.of_cons
      rw [hw]
      rfl
  · rw [startsRange.eq_2 f r hr, startsRange.eq_2 f w hw]

theorem itemFrom?_agrees (a : Atom) (h : Left s r w) :
    Agrees Unclosed s (itemFrom? f a r) (itemFrom? f a w) := by
  unfold itemFrom?
  rw [startsRange_left h]
  cases r with
  | nil =>
    rw [List.isEmpty_nil, if_pos rfl, startsRange.eq_2 f [] (by simp), if_neg Bool.false_ne_true]
    rcases h.of_nil with rfl | rfl
    · intro set v hv
      obtain ⟨x, -, hx⟩ := Option.map_eq_some_iff.1 hv
      cases hx
      show ']' ∉ frameEnd
      decide
    · exact .fails
  | cons c u =>
    obtain ⟨v, rfl, hv⟩ := h.of_cons
    rw [List.isEmpty_cons, List.isEmpty_cons, if_neg Bool.false_ne_true, if_neg Bool.false_ne_true]
    split
    · have hb :=
        (bracketAtom?_agrees (f := f) (passSpace f u)).mono (List.tail_suffix _) fun _ _ => id
      refine (Agrees.of_left (hv.passSpace f) hb rfl).bind
        (g := rangeFrom? f a) (fun b r w hl => ?_) fun b w hD c v hv => ?_
      · unfold rangeFrom?
        cases rangeSet? f a b with
        | none => exact .fails
        | some set => exact .reads hl
      · obtain ⟨set, hset, hv⟩ := Option.map_eq_some_iff.1 hv
        cases hv
        rcases hD with rfl | ⟨⟨l, rfl⟩, -⟩
        · show ']' ∉ ['$']
          decide
        · rw [rangeSet?_look] at hset
          cases hset
    · cases soleSet? f a with
      | none => exact .fails
      | some set => exact .reads h

theorem bracketItem?_agrees (s : List Char) :
    Agrees Unclosed s.tail (bracketItem? f s) (bracketItem? f (s ++ frameEnd)) := by
  rw [bracketItem?_eq, bracketItem?_eq]
  refine (bracketAtom?_agrees s).bind (k := fun a r => itemFrom? f a (passSpace f r))
    (fun a r w hl => itemFrom?_agrees a (hl.passSpace f)) fun a w hD set v hv => ?_
  rcases hD with rfl | ⟨⟨l, rfl⟩, u, rfl, -⟩
  · have hitem : itemFrom? f a ['$'] = (soleSet? f a).map (·, ['$']) := rfl
    rw [passSpace_dollar, hitem] at hv
    obtain ⟨x, -, hx⟩ := Option.map_eq_some_iff.1 hv
    cases hx
    show ']' ∉ ['$']
    decide
  · rw [passSpace_cons (by decide) (by decide)] at hv
    cases hv

/-! ### Steps -/

/-- An operation on sets. -/
def setOp? : List Char → Option (SetOp × List Char)
  | '&' :: '&' :: s => some (.inter, s)
  | '-' :: '-' :: s => some (.diff, s)
  | '~' :: '~' :: s => some (.symmDiff, s)
  | _ => none

theorem setOp?_agrees (s : List Char) :
    Agrees Never s.tail (setOp? s) (setOp? (s ++ frameEnd)) := by
  rcases s with _ | ⟨c, _ | ⟨d, s⟩⟩
  · exact .fails
  · rw [setOp?.eq_4 [c] (by simp) (by simp) (by simp),
      setOp?.eq_4 ([c] ++ frameEnd) (by simp [frameEnd]) (by simp [frameEnd]) (by simp [frameEnd])]
    exact .fails
  · have hl : Left (d :: s) s (s ++ frameEnd) := (Left.refl s).mono (List.suffix_cons d s)
    unfold setOp?
    split
    case h_4 h₁ h₂ h₃ =>
      split
      case h_4 => exact .fails
      all_goals
        next h => cases h; exact absurd rfl (by first | exact h₁ s | exact h₂ s | exact h₃ s)
    all_goals
      next h => cases h; exact .reads hl

/-- What an open bracket is when it ends: an item of the one around it, or the whole set. -/
def endBracket? (f : Flags) (b : Bracket) (outer : List Bracket) :
    Option ((Bracket × List Bracket) ⊕ Nested) :=
  (b.close? f).map fun n =>
    match outer with
    | [] => .inr n
    | o :: outer => .inl (o.add n, outer)

/-- One step behind an open bracket and white space, and what is left. -/
def bracketPart? (f : Flags) (b : Bracket) (outer : List Bracket) :
    List Char → Option (((Bracket × List Bracket) ⊕ Nested) × List Char)
  | [] => none
  | '[' :: s =>
    match named? f s with
    | some (set, s) => some (.inl (b.add ⟨set, 0⟩, outer), s)
    | none => (openBracket? f s).map fun x => (.inl (x.1, b :: outer), x.2)
  | ']' :: s => (endBracket? f b outer).map (·, s)
  | s =>
    match setOp? s with
    | some (op, s) => some (.inl (b.operate f op, outer), s)
    | none => (bracketItem? f s).map fun x => (.inl (b.add ⟨x.1, 0⟩, outer), x.2)

/-- A step and what is left as one. -/
def placed : ((Bracket × List Bracket) ⊕ Nested) × List Char →
    (Bracket × List Bracket × List Char) ⊕ (Nested × List Char)
  | (.inl x, s) => .inl (x.1, x.2, s)
  | (.inr n, s) => .inr (n, s)

theorem bracketPart?_op {b : Bracket} {outer : List Bracket} {op : SetOp} {s t : List Char}
    (h : setOp? s = some (op, t)) :
    bracketPart? f b outer s = some (.inl (b.operate f op, outer), t) := by
  have hs : s ≠ [] ∧ (∀ u, s ≠ '[' :: u) ∧ ∀ u, s ≠ ']' :: u := by
    unfold setOp? at h
    split at h
    case h_4 => cases h
    all_goals exact ⟨by simp, by simp, by simp⟩
  rw [bracketPart?.eq_4 f b outer s hs.1 hs.2.1 hs.2.2, h]

theorem bracketPart?_item {b : Bracket} {outer : List Bracket} {s : List Char} (hs : s ≠ [])
    (hopen : ∀ u, s ≠ '[' :: u) (hclose : ∀ u, s ≠ ']' :: u) (hop : setOp? s = none) :
    bracketPart? f b outer s =
      (bracketItem? f s).map fun x => (.inl (b.add ⟨x.1, 0⟩, outer), x.2) := by
  rw [bracketPart?.eq_4 f b outer s hs hopen hclose, hop]

theorem bracketStep?_eq (f : Flags) (b : Bracket) (outer : List Bracket) (s : List Char) :
    bracketStep? f b outer s = (bracketPart? f b outer (passSpace f s)).map placed := by
  unfold bracketStep?
  split
  case h_1 h => rw [h]; rfl
  case h_2 t h =>
    rw [h, bracketPart?]
    rcases named? f t with _ | ⟨set, u⟩
    · cases openBracket? f t <;> rfl
    · rfl
  case h_3 t h =>
    rw [h, bracketPart?, endBracket?]
    cases b.close? f with
    | none => rfl
    | some n => cases outer <;> rfl
  case h_7 h₁ h₂ h₃ h₄ h₅ h₆ =>
    rw [bracketPart?_item h₁ h₂ h₃ (setOp?.eq_4 _ h₄ h₅ h₆)]
    cases bracketItem? f (passSpace f s) <;> rfl
  all_goals
    next h => rw [h]; rfl

/-- A step that is cut short is not the last one, and leaves no bracket to close. -/
abbrev Open (x : (Bracket × List Bracket) ⊕ Nested) (w : List Char) : Prop :=
  (∃ y, x = .inl y) ∧ ']' ∉ w

/-- A step takes at least one character. -/
theorem bracketPart?_agrees (b : Bracket) (outer : List Bracket) (s : List Char) :
    Agrees Open s.tail (bracketPart? f b outer s) (bracketPart? f b outer (s ++ frameEnd)) := by
  have hitem := (bracketItem?_agrees (f := f) s).map
    (E := Open) (fun set => .inl (b.add ⟨set, 0⟩, outer)) fun _ _ h => ⟨⟨_, rfl⟩, h⟩
  cases s with
  | nil =>
    rw [List.nil_append, bracketPart?_item (s := frameEnd) (by simp [frameEnd]) (by simp [frameEnd])
      (by simp [frameEnd]) rfl]
    exact hitem
  | cons c s =>
    by_cases hopen : c = '['
    · subst hopen
      rw [List.cons_append, bracketPart?, bracketPart?]
      have hn := named?_agrees (f := f) s
      rcases hr : named? f s with _ | ⟨set, r⟩
      · rw [hr] at hn
        rcases hw : named? f (s ++ frameEnd) with _ | ⟨set, w⟩
        · exact (openBracket?_agrees s).map (E := Open) (fun inner => .inl (inner, b :: outer))
            fun _ _ h => ⟨⟨_, rfl⟩, h⟩
        · exact (hn set w hw).elim
      · rw [hr] at hn
        obtain ⟨w, hw, hl⟩ := hn
        rw [hw]
        exact .reads hl
    · by_cases hclose : c = ']'
      · subst hclose
        rw [List.cons_append, bracketPart?, bracketPart?]
        cases endBracket? f b outer with
        | none => exact .fails
        | some x => exact .reads (.refl s)
      · have hop := setOp?_agrees (c :: s)
        rcases hr : setOp? (c :: s) with _ | ⟨op, r⟩
        · rw [hr] at hop
          rcases hw : setOp? (c :: s ++ frameEnd) with _ | ⟨op, w⟩
          · rw [bracketPart?_item (by simp) (by simp [hopen]) (by simp [hclose]) hr,
              bracketPart?_item (by simp) (by simp [hopen]) (by simp [hclose]) hw]
            exact hitem
          · exact (hop op w hw).elim
        · rw [hr] at hop
          obtain ⟨w, hw, hl⟩ := hop
          rw [bracketPart?_op hr, bracketPart?_op hw]
          exact .reads hl

theorem bracketPart?_suffix {b : Bracket} {outer : List Bracket} {x}
    (h : bracketPart? f b outer s = some (x, r)) : r <:+ s.tail := by
  have hagrees := bracketPart?_agrees (f := f) b outer s
  rw [h] at hagrees
  obtain ⟨w, -, hl⟩ := hagrees
  exact hl.suffix

/-- The whole set ends with a bracket. -/
theorem closing_of_bracketPart? {b : Bracket} {outer : List Bracket} {n : Nested}
    (h : bracketPart? f b outer s = some (.inr n, r)) : ']' ∈ s := by
  unfold bracketPart? at h
  split at h
  · cases h
  · split at h
    · cases h
    · obtain ⟨x, -, hx⟩ := Option.map_eq_some_iff.1 h
      cases hx
  · exact List.mem_cons_self
  · split at h
    · cases h
    · obtain ⟨x, -, hx⟩ := Option.map_eq_some_iff.1 h
      cases hx

/-- What comes of a set behind a step. -/
def bracketGo? (f : Flags) (n : Nat) :
    (Bracket × List Bracket) ⊕ Nested → List Char → Option (Nested × List Char)
  | .inl y, s => bracketFrom? f n y.1 y.2 s
  | .inr set, s => some (set, s)

theorem bracketFrom?_succ (n : Nat) (b : Bracket) (outer : List Bracket) (s : List Char) :
    bracketFrom? f (n + 1) b outer s =
      (bracketPart? f b outer (passSpace f s)).bind fun x => bracketGo? f n x.1 x.2 := by
  rw [bracketFrom?, bracketStep?_eq]
  rcases bracketPart? f b outer (passSpace f s) with _ | ⟨x | x, t⟩ <;> rfl

theorem bracketFrom?_nil (b : Bracket) (outer : List Bracket) :
    ∀ n, bracketFrom? f n b outer [] = none
  | 0 => rfl
  | n + 1 => by rw [bracketFrom?_succ, passSpace_nil, bracketPart?, Option.bind_none]

theorem bracketFrom?_unclosed : ∀ (n : Nat) (b : Bracket) (outer : List Bracket) (s : List Char),
    ']' ∉ s → bracketFrom? f n b outer s = none
  | 0, _, _, _, _ => rfl
  | n + 1, b, outer, s, hs => by
    have hp : ']' ∉ passSpace f s := fun h => hs ((passSpace_suffix f s).mem h)
    rw [bracketFrom?_succ]
    rcases h : bracketPart? f b outer (passSpace f s) with _ | ⟨y | set, t⟩
    · rfl
    · exact bracketFrom?_unclosed n y.1 y.2 t fun hmem =>
        hp (List.mem_of_mem_tail ((bracketPart?_suffix h).mem hmem))
    · exact absurd (closing_of_bracketPart? h) hp

theorem bracketFrom?_agrees : ∀ (n : Nat) (b : Bracket) (outer : List Bracket) (s : List Char),
    s.length ≤ n →
      Agrees Never s (bracketFrom? f n b outer s) (bracketFrom? f (n + 2) b outer (s ++ frameEnd))
  | 0, b, outer, s, hn => by
    obtain rfl := List.length_eq_zero_iff.1 (Nat.le_zero.1 hn)
    rw [List.nil_append, bracketFrom?_unclosed 2 b outer frameEnd (by decide)]
    exact .fails
  | n + 1, b, outer, s, hn => by
    rw [Nat.add_right_comm, bracketFrom?_succ, bracketFrom?_succ]
    obtain ⟨hsuffix, hw | ⟨hr, hw⟩⟩ := passSpace_left f s
    · rw [hw]
      refine ((bracketPart?_agrees b outer (passSpace f s)).bind (E := Never)
        (g := bracketGo? f n) (k := bracketGo? f (n + 2)) (fun x r w hl => ?_)
          fun x w hopen set v hv => ?_).mono ((List.tail_suffix _).trans hsuffix) fun _ _ => id
      · have hlen : r.length ≤ n := by
          have h₁ := hl.suffix.length_le
          have h₂ := hsuffix.length_le
          rw [List.length_tail] at h₁
          omega
        rcases x with y | set
        · exact Agrees.of_left (g := bracketFrom? f n y.1 y.2)
            (k := bracketFrom? f (n + 2) y.1 y.2) hl (bracketFrom?_agrees n y.1 y.2 r hlen)
            (by simp only [bracketFrom?_nil])
        · exact .reads hl
      · obtain ⟨⟨y, rfl⟩, hmem⟩ := hopen
        exact absurd hv (by rw [bracketGo?, bracketFrom?_unclosed _ _ _ w hmem]; simp)
    · rw [hr, hw]
      exact .fails

theorem bracketed?_agrees (s : List Char) :
    Agrees Never s (bracketed? f s) (bracketed? f (s ++ frameEnd)) := by
  unfold bracketed?
  have h := openBracket?_agrees (f := f) s
  rcases hr : openBracket? f s with _ | ⟨b, r⟩
  · rw [hr] at h
    rcases hw : openBracket? f (s ++ frameEnd) with _ | ⟨b, w⟩
    · exact .fails
    · dsimp only
      rw [bracketFrom?_unclosed _ _ _ w (h b w hw)]
      exact .fails
  · rw [hr] at h
    obtain ⟨w, hw, hsuffix, rfl | ⟨rfl, rfl⟩⟩ := h
    · rw [hw]
      dsimp only
      rw [List.length_append]
      exact (bracketFrom?_agrees _ b [] r (Nat.le_succ _)).mono hsuffix fun _ _ => id
    · rw [hw]
      dsimp only
      rw [bracketFrom?_nil]
      exact .fails

end YamlQuery.Pattern

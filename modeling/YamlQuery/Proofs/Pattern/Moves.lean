import YamlQuery.Pattern.Read
import YamlQuery.Proofs.Pattern.Brackets

/-!
# Proofs.Pattern.Moves — what a step of the reading of a pattern does

A step reads a move from the text and makes it.  What the move does to the groups does not depend on
the text behind it, and how the move is read does not depend on the groups.
-/

namespace YamlQuery.Pattern

open YamlQuery.Text

variable {f : Flags} {s r w : List Char}

/-! ### Bounds of repetitions -/

theorem dropBlanks_append_frameEnd : ∀ s : List Char,
    (s ++ frameEnd).dropWhile isBlank = s.dropWhile isBlank ++ frameEnd
  | [] => by decide
  | c :: s => by
    rw [List.cons_append, List.dropWhile_cons, List.dropWhile_cons]
    split
    · exact dropBlanks_append_frameEnd s
    · rfl

theorem Left.dropBlanks (h : Left s r w) :
    Left s (r.dropWhile isBlank) (w.dropWhile isBlank) := by
  obtain ⟨hr, rfl | ⟨rfl, rfl⟩⟩ := h
  · rw [dropBlanks_append_frameEnd]
    exact ⟨(List.dropWhile_suffix _).trans hr, .inl rfl⟩
  · exact .nil s

theorem Left.passLazy (h : Left s r w) : Left s (Reading.passLazy r) (Reading.passLazy w) := by
  rcases h.head (c := '?') (by decide) with ⟨u, v, rfl, rfl, hv⟩ | ⟨hr, hw⟩
  · exact hv
  · rw [Reading.passLazy.eq_2 r hr, Reading.passLazy.eq_2 w hw]
    exact h

namespace Reading

theorem digits_nil (visible : List Char → List Char) :
    ∀ n, count?.digits visible n [] = ([], [])
  | 0 => rfl
  | _ + 1 => rfl

theorem digits_agrees : ∀ (n : Nat) (s : List Char), s.length ≤ n →
    Agrees Never s (some (count?.digits (passSpace f) n s))
      (some (count?.digits (passSpace f) (n + 2) (s ++ frameEnd)))
  | n, [], _ => by
    rw [digits_nil]
    exact .reads (.refl [])
  | n + 1, c :: s, h => by
    rw [Nat.add_right_comm, List.cons_append, count?.digits, count?.digits]
    split
    · have hl := passSpace_left f s
      have hlen : (passSpace f s).length ≤ n :=
        hl.suffix.length_le.trans (Nat.le_of_succ_le_succ h)
      obtain ⟨w, hw, hleft⟩ := Agrees.of_left (g := fun s => some (count?.digits (passSpace f) n s))
        (k := fun s => some (count?.digits (passSpace f) (n + 2) s)) hl (digits_agrees n _ hlen)
        (by simp only [digits_nil])
      rw [Option.some_inj.1 hw]
      exact .reads (hleft.mono (List.suffix_cons c s))
    · exact .reads (.refl _)

/-- The number that digits write, if there are any. -/
def numberOf? (ds : List Char) : Option (Option Nat) :=
  if ds.isEmpty then some none
  else (natOf? 10 ds).bind fun n => if n < countLimit then some (some n) else none

theorem count?_eq {d : List Char}
    (h : count?.digits (passSpace f) ((s.dropWhile isBlank).length + 1) (s.dropWhile isBlank) =
      (d, r)) :
    count? f s = (numberOf? d).map (·, passSpace f (r.dropWhile isBlank)) := by
  unfold count? numberOf?
  dsimp only
  rw [h]
  dsimp only
  split
  · rfl
  · cases natOf? 10 d with
    | none => rfl
    | some n =>
      dsimp only [Option.bind_some]
      split <;> rfl

theorem count?_agrees (s : List Char) :
    Agrees Never s (count? f s) (count? f (s ++ frameEnd)) := by
  obtain ⟨ds, r, w, hr, hw, hl⟩ := (digits_agrees (f := f) _ (s.dropWhile isBlank)
    (Nat.le_succ _)).exists_of_some
  have hw : count?.digits (passSpace f) (((s ++ frameEnd).dropWhile isBlank).length + 1)
      ((s ++ frameEnd).dropWhile isBlank) = (ds, w) := by
    rw [dropBlanks_append_frameEnd, List.length_append]
    exact hw
  rw [count?_eq hr, count?_eq hw]
  cases numberOf? ds with
  | none => exact .fails
  | some n => exact .reads ((hl.mono (List.dropWhile_suffix _)).dropBlanks.passSpace f)

/-- The end of bounds. -/
def closeBounds? (least : Nat) (most : Option Nat) :
    List Char → Option ((Nat × Option Nat) × List Char)
  | '\x7d' :: s => some ((least, most), s)
  | _ => none

/-- The end of bounds behind both numbers. -/
def closeBetween? (least : Nat) (number : Option Nat) (s : List Char) :
    Option ((Nat × Option Nat) × List Char) :=
  number.bind fun most => if least ≤ most then closeBounds? least (some most) s else none

/-- The upper bound behind its comma. -/
def upperBound? (f : Flags) (least : Nat) (s : List Char) :
    Option ((Nat × Option Nat) × List Char) :=
  match closeBounds? least none s with
  | some x => some x
  | none => (count? f s).bind fun x => closeBetween? least x.1 x.2

/-- Bounds behind the first number. -/
def upperBounds? (f : Flags) (number : Option Nat) (s : List Char) :
    Option ((Nat × Option Nat) × List Char) :=
  number.bind fun least =>
    match s with
    | ',' :: s => upperBound? f least (passSpace f s)
    | s => closeBounds? least (some least) s

theorem upperBounds?_comma (f : Flags) (least : Nat) (s : List Char) :
    upperBounds? f (some least) (',' :: s) = upperBound? f least (passSpace f s) := rfl

theorem upperBounds?_close (f : Flags) (least : Nat) (h : ∀ t, s ≠ ',' :: t) :
    upperBounds? f (some least) s = closeBounds? least (some least) s := by
  unfold upperBounds?
  dsimp only [Option.bind_some]
  split
  · exact absurd rfl (h _)
  · rfl

theorem bounds?_eq (f : Flags) (s : List Char) : bounds? f s =
    ((count? f (passSpace f s)).bind fun x => upperBounds? f x.1 x.2).map
      fun x => (x.1.1, x.1.2, x.2) := by
  unfold bounds?
  rcases count? f (passSpace f s) with _ | ⟨_ | least, t⟩
  · rfl
  · rfl
  · dsimp only [Option.bind_eq_bind, Option.bind_some]
    split
    · rfl
    · next u =>
      rw [upperBounds?_comma, upperBound?]
      split
      · next v h => rw [h]; rfl
      · next hne =>
        rw [closeBounds?.eq_2 _ _ _ hne]
        dsimp only
        rcases count? f (passSpace f u) with _ | ⟨_ | most, v⟩
        · rfl
        · rfl
        · dsimp only [closeBetween?, Option.bind_some]
          by_cases hle : least ≤ most
          · rw [guard_of hle, if_pos hle]
            dsimp only [Option.bind_some]
            split
            · rfl
            · next hne => rw [closeBounds?.eq_2 _ _ _ hne]; rfl
          · rw [guard_of_not hle, if_neg hle]
            rfl
    · next hclose hcomma =>
      rw [upperBounds?_close f least hcomma, closeBounds?.eq_2 _ _ _ hclose]
      rfl

theorem closeBounds?_agrees (least : Nat) (most : Option Nat) (h : Left s r w) :
    Agrees Never s (closeBounds? least most r) (closeBounds? least most w) := by
  rcases h.head (c := '\x7d') (by decide) with ⟨u, v, rfl, rfl, hv⟩ | ⟨hr, hw⟩
  · exact .reads hv
  · rw [closeBounds?.eq_2 _ _ _ hr, closeBounds?.eq_2 _ _ _ hw]
    exact .fails

theorem closeBetween?_agrees (least : Nat) (number : Option Nat) (h : Left s r w) :
    Agrees Never s (closeBetween? least number r) (closeBetween? least number w) := by
  rcases number with _ | most
  · exact .fails
  · dsimp only [closeBetween?, Option.bind_some]
    split
    · exact closeBounds?_agrees least (some most) h
    · exact .fails

theorem upperBound?_agrees (least : Nat) (h : Left s r w) :
    Agrees Never s (upperBound? f least r) (upperBound? f least w) := by
  unfold upperBound?
  have hclose := closeBounds?_agrees least none h
  rcases hr : closeBounds? least none r with _ | ⟨x, u⟩
  · rw [hr] at hclose
    rcases hw : closeBounds? least none w with _ | ⟨x, v⟩
    · exact (Agrees.of_left h (count?_agrees r) rfl).bind
        (fun n _ _ hl => closeBetween?_agrees least n hl) fun _ _ h => h.elim
    · exact (hclose x v hw).elim
  · rw [hr] at hclose
    obtain ⟨v, hw, hl⟩ := hclose
    rw [hw]
    exact .reads hl

theorem upperBounds?_agrees (number : Option Nat) (h : Left s r w) :
    Agrees Never s (upperBounds? f number r) (upperBounds? f number w) := by
  rcases number with _ | least
  · exact .fails
  · rcases h.head (c := ',') (by decide) with ⟨u, v, rfl, rfl, hv⟩ | ⟨hr, hw⟩
    · exact upperBound?_agrees least (hv.passSpace f)
    · rw [upperBounds?_close f least hr, upperBounds?_close f least hw]
      exact closeBounds?_agrees least (some least) h

theorem bounds_agrees (s : List Char) :
    Agrees Never s ((count? f (passSpace f s)).bind fun x => upperBounds? f x.1 x.2)
      ((count? f (passSpace f (s ++ frameEnd))).bind fun x => upperBounds? f x.1 x.2) :=
  (Agrees.of_left (passSpace_left f s) (count?_agrees _) rfl).bind
    (fun n _ _ hl => upperBounds?_agrees n hl) fun _ _ h => h.elim

/-- Nothing repeats behind a brace with nothing but white space behind it. -/
theorem bounds?_space {u : List Char} (h : passSpace f u = []) :
    bounds? f (u ++ frameEnd) = none := by
  have hcount : count? f [] = some (none, []) := by
    rw [count?_eq (d := []) (r := []) rfl, List.dropWhile_nil, passSpace_nil]
    rfl
  have hcount' : count? f frameEnd = some (none, frameEnd) := by
    rw [count?_eq (d := []) (r := frameEnd) rfl]
    exact congrArg (fun t => some (none, t)) (passSpace_frameEnd f)
  have hl := passSpace_left f u
  rw [h] at hl
  rw [bounds?_eq]
  rcases hl.of_nil with hw | hw
  · rw [hw, hcount']
    rfl
  · rw [hw, hcount]
    rfl

/-! ### Flags and names -/

/-- The flags behind an open group, whether they are those of the group, and what is left. -/
def flagPart? (seen : List Char) (on : Bool) (f : Flags) (s : List Char) :
    Option ((Flags × Bool) × List Char) :=
  (flags? seen on f s).map fun x => ((x.1, x.2.1), x.2.2)

theorem flagPart?_agrees : ∀ (s seen : List Char) (on : Bool) (f : Flags),
    Agrees (fun x w => x.2 = false ∧ w = ['$']) s (flagPart? seen on f s)
      (flagPart? seen on f (s ++ frameEnd))
  | [], seen, on, f => by
    intro x w hw
    obtain ⟨y, hy, hx⟩ := Option.map_eq_some_iff.1 hw
    rw [List.nil_append, frameEnd, flags?.eq_def] at hy
    dsimp only at hy
    rw [if_pos (by decide)] at hy
    split at hy
    · cases hy
    · cases hy
      cases hx
      exact ⟨rfl, rfl⟩
  | c :: s, seen, on, f => by
    have ih (g : Flags) (on : Bool) :=
      (flagPart?_agrees s (c :: seen) on g).mono (List.suffix_cons c s) fun _ _ => id
    rw [List.cons_append]
    unfold flagPart? at ih ⊢
    rw [flags?.eq_def, flags?.eq_def _ _ _ (c :: (s ++ frameEnd))]
    dsimp only
    split
    · split
      · exact .fails
      · exact .reads ((Left.refl s).mono (List.suffix_cons c s))
    · split
      · exact .fails
      · split
        all_goals first | exact ih _ _ | exact .fails

theorem groupName?_agrees (names : List (List Char)) (s : List Char) :
    Agrees Never s (groupName? names s) (groupName? names (s ++ frameEnd)) := by
  have h := cutAt_agrees (p := (· == '>')) (by decide) (by decide) s
  unfold groupName?
  rcases hr : cutAt (· == '>') s with _ | ⟨name, r⟩
  · rw [hr] at h
    rcases hw : cutAt (· == '>') (s ++ frameEnd) with _ | ⟨name, w⟩
    · exact .fails
    · exact (h name w hw).elim
  · rw [hr] at h
    obtain ⟨w, hw, hl⟩ := h
    rw [hw]
    dsimp only
    split
    · exact .reads hl
    · exact .fails

/-! ### Moves -/

/-- What the next element does to the groups that are read. -/
inductive Move
  | opens (inner : Flags) (name : Option (List Char))
  | sets (flags : Flags)
  | closes
  | branches
  | repeats (least : Nat) (most : Option Nat)
  | pushes (part : Part)

/-- Makes a move and leaves the rest. -/
def Move.make? (m : Move) (rest : List Char) (r : Reading) : Option Reading :=
  match m with
  | .opens inner name =>
    some { r.openGroup inner rest with names := name.toList ++ r.names }
  | .sets flags => some { r.push { re := .empty, repeatable := false } rest with flags }
  | .closes => r.closeGroup? rest
  | .branches => some (r.branch rest)
  | .repeats least most => r.repeatLast? least most rest
  | .pushes p => some (r.push p rest)

/-- A group with a name. -/
def namedMove? (f : Flags) (names : List (List Char)) (s : List Char) :
    Option (Move × List Char) :=
  (groupName? names s).map fun x => (.opens f (some x.1), x.2)

/-- Flags, of a group or of what follows. -/
def flagMove? (f : Flags) (s : List Char) : Option (Move × List Char) :=
  (flagPart? [] true f s).map fun x => (if x.1.2 then .opens x.1.1 none else .sets x.1.1, x.2)

/-- A group or flags behind a question mark. -/
def markedMove? (f : Flags) (names : List (List Char)) : List Char → Option (Move × List Char)
  | '=' :: _ => none
  | '!' :: _ => none
  | '<' :: '=' :: _ => none
  | '<' :: '!' :: _ => none
  | 'P' :: '<' :: s => namedMove? f names s
  | '<' :: s => namedMove? f names s
  | s => flagMove? f s

/-- A group or flags behind the parenthesis and white space. -/
def groupMove? (f : Flags) (names : List (List Char)) : List Char → Option (Move × List Char)
  | '?' :: s => markedMove? f names s
  | s => some (.opens f none, s)

/-- An atom behind a backslash. -/
def atomMove? (f : Flags) (a : Atom) (s : List Char) : Option (Move × List Char) :=
  (atomPart? f a).map fun p => (.pushes p, s)

/-- A repetition with bounds behind its brace. -/
def boundsMove? (f : Flags) (s : List Char) : Option (Move × List Char) :=
  ((count? f (passSpace f s)).bind fun x => upperBounds? f x.1 x.2).map fun x =>
    (.repeats x.1.1 x.1.2, passLazy (passSpace f x.2))

/-- The next move. -/
def move? (f : Flags) (names : List (List Char)) : List Char → Option (Move × List Char)
  | [] => none
  | '(' :: s => groupMove? f names (passSpace f s)
  | ')' :: s => some (.closes, s)
  | '|' :: s => some (.branches, s)
  | '[' :: s => (bracketed? f s).map fun x => (.pushes (setPart x.1.set x.1.depth), x.2)
  | '?' :: s => some (.repeats 0 (some 1), passLazy s)
  | '*' :: s => some (.repeats 0 none, passLazy s)
  | '+' :: s => some (.repeats 1 none, passLazy s)
  | '\x7b' :: s => boundsMove? f s
  | '\\' :: s => (escape? f s).bind fun x => atomMove? f x.1 x.2
  | '.' :: s => (dotPart? f).map fun p => (.pushes p, s)
  | '^' :: s => some (.pushes (lookPart (startLook f)), s)
  | '$' :: s => some (.pushes (lookPart (endLook f)), s)
  | c :: s => some (.pushes (charPart f c), s)

theorem namedMove?_make (s : List Char) (r : Reading) :
    (namedMove? r.flags r.names s).bind (fun x => x.1.make? x.2 r) =
      (groupName? r.names s).map fun (name, s) =>
        { r.openGroup r.flags s with names := name :: r.names } := by
  unfold namedMove?
  cases groupName? r.names s <;> rfl

theorem group?_eq (s : List Char) (r : Reading) : r.group? s =
    (groupMove? r.flags r.names (passSpace r.flags s)).bind fun x => x.1.make? x.2 r := by
  unfold group?
  generalize passSpace r.flags s = t
  split
  · next t =>
    rw [groupMove?]
    dsimp only
    split
    case h_5 => exact (namedMove?_make _ r).symm
    case h_6 heq hbang =>
      rw [markedMove?.eq_6 _ _ _ heq hbang]
      exact (namedMove?_make _ r).symm
    case h_7 h₁ h₂ h₃ h₄ h₅ h₆ =>
      rw [markedMove?.eq_7 _ _ _ h₁ h₂ h₃ h₄ h₅ h₆]
      unfold flagMove? flagPart?
      rcases flags? [] true r.flags t with _ | ⟨f, opens, u⟩
      · rfl
      · cases opens <;> rfl
    all_goals rfl
  · next hne =>
    rw [groupMove?.eq_2 _ _ t hne]
    rfl

/-- A step reads a move and makes it. -/
theorem step?_eq {r : Reading} (h : r.rest ≠ []) :
    r.step? = (move? r.flags r.names r.rest).bind fun x => x.1.make? x.2 r := by
  rcases hr : r.rest with _ | ⟨c, s⟩
  · exact absurd hr h
  · unfold step?
    rw [hr]
    dsimp only
    split
    case h_1 => exact group?_eq s r
    case h_4 =>
      rw [move?]
      cases bracketed? r.flags s <;> rfl
    case h_8 =>
      rw [move?, boundsMove?, bounds?_eq, Option.bind_map, Option.bind_map]
      rfl
    case h_9 =>
      rw [move?]
      rcases escape? r.flags s with _ | ⟨a, t⟩
      · rfl
      · dsimp only [Option.bind_some, atomMove?]
        cases atomPart? r.flags a <;> rfl
    case h_10 =>
      rw [move?]
      cases dotPart? r.flags <;> rfl
    case h_13 =>
      rw [move?.eq_14]
      · rfl
      all_goals assumption
    all_goals rfl

/-- A move that is read from `frameEnd` and what follows a text that ends too early.  It opens and
closes no group, and what is left cannot be read to the end of the frame. -/
structure Doomed (f : Flags) (m : Move) (w : List Char) : Prop where
  keeps : (∃ g, m = .sets g) ∨ ∃ p, m = .pushes p
  rest : w = ['$'] ∨ (∃ p, m = .pushes p) ∧ ∃ u, w = '\x7b' :: (u ++ frameEnd) ∧ passSpace f u = []

theorem namedMove?_agrees {D : Move → List Char → Prop} (names : List (List Char))
    (h : Left s r w) : Agrees D s (namedMove? f names r) (namedMove? f names w) :=
  (Agrees.of_left h (groupName?_agrees names r) rfl).map (E := D)
    (fun name => Move.opens f (some name)) fun _ _ h => h.elim

theorem flagMove?_agrees (h : Left s r w) :
    Agrees (Doomed f) s (flagMove? f r) (flagMove? f w) := by
  refine (Agrees.of_left h (flagPart?_agrees r [] true f) rfl).map (E := Doomed f)
    (fun x => if x.2 then Move.opens x.1 none else .sets x.1) ?_
  rintro ⟨g, opens⟩ w ⟨rfl, hw⟩
  exact ⟨.inl ⟨g, rfl⟩, .inl hw⟩

theorem markedMove?_agrees (names : List (List Char)) (h : Left s r w) :
    Agrees (Doomed f) s (markedMove? f names r) (markedMove? f names w) := by
  rcases h.head (c := '=') (by decide) with ⟨u, v, rfl, rfl, -⟩ | ⟨hr, hw⟩
  · exact .fails
  rcases h.head (c := '!') (by decide) with ⟨u, v, rfl, rfl, -⟩ | ⟨hr', hw'⟩
  · exact .fails
  rcases h.head (c := '<') (by decide) with ⟨u, v, rfl, rfl, hv⟩ | ⟨hangle, hangle'⟩
  · rcases hv.head (c := '=') (by decide) with ⟨u, v, rfl, rfl, -⟩ | ⟨hu, hv'⟩
    · exact .fails
    rcases hv.head (c := '!') (by decide) with ⟨u, v, rfl, rfl, -⟩ | ⟨hu', hv''⟩
    · exact .fails
    rw [markedMove?.eq_6 _ _ u hu hu', markedMove?.eq_6 _ _ v hv' hv'']
    exact namedMove?_agrees names hv
  rcases h.head (c := 'P') (by decide) with ⟨u, v, rfl, rfl, hv⟩ | ⟨hP, hP'⟩
  · rcases hv.head (c := '<') (by decide) with ⟨u, v, rfl, rfl, hname⟩ | ⟨hu, hv'⟩
    · exact namedMove?_agrees names hname
    · rw [markedMove?.eq_7 _ _ _ (by simp) (by simp) (by simp) (by simp) (by simpa using hu)
        (by simp), markedMove?.eq_7 _ _ _ (by simp) (by simp) (by simp) (by simp)
        (by simpa using hv') (by simp)]
      exact flagMove?_agrees h
  · rw [markedMove?.eq_7 _ _ r hr hr' (fun _ => hangle _) (fun _ => hangle _) (fun _ => hP _)
        hangle,
      markedMove?.eq_7 _ _ w hw hw' (fun _ => hangle' _) (fun _ => hangle' _) (fun _ => hP' _)
        hangle']
    exact flagMove?_agrees h

theorem groupMove?_agrees (names : List (List Char)) (h : Left s r w) :
    Agrees (Doomed f) s (groupMove? f names r) (groupMove? f names w) := by
  rcases h.head (c := '?') (by decide) with ⟨u, v, rfl, rfl, hv⟩ | ⟨hr, hw⟩
  · exact markedMove?_agrees names hv
  · rw [groupMove?.eq_2 _ _ r hr, groupMove?.eq_2 _ _ w hw]
    exact .reads h

theorem escapeMove?_agrees (s : List Char) :
    Agrees (Doomed f) s ((escape? f s).bind fun x => atomMove? f x.1 x.2)
      ((escape? f (s ++ frameEnd)).bind fun x => atomMove? f x.1 x.2) := by
  refine (escape?_agrees s).bind (fun a r w hl => ?_) fun a w hcut m v hv => ?_
  · unfold atomMove?
    cases atomPart? f a with
    | none => exact .fails
    | some p => exact .reads hl
  · obtain ⟨p, -, hp⟩ := Option.map_eq_some_iff.1 hv
    cases hp
    rcases hcut with rfl | ⟨-, u, rfl, hu⟩
    · exact ⟨.inr ⟨p, rfl⟩, .inl rfl⟩
    · exact ⟨.inr ⟨p, rfl⟩, .inr ⟨⟨p, rfl⟩, u, rfl, hu⟩⟩

theorem boundsMove?_agrees (s : List Char) :
    Agrees (Doomed f) s (boundsMove? f s) (boundsMove? f (s ++ frameEnd)) := by
  have h := bounds_agrees (f := f) s
  unfold boundsMove?
  rcases hr : (count? f (passSpace f s)).bind fun x => upperBounds? f x.1 x.2 with _ | ⟨b, r⟩
  · rw [hr] at h
    rcases hw : (count? f (passSpace f (s ++ frameEnd))).bind fun x => upperBounds? f x.1 x.2 with
      _ | ⟨b, w⟩
    · exact .fails
    · exact (h b w hw).elim
  · rw [hr] at h
    obtain ⟨w, hw, hl⟩ := h
    rw [hw]
    exact .reads (hl.passSpace f).passLazy

/-- A move takes at least one character. -/
theorem move?_agrees (names : List (List Char)) (c : Char) (s : List Char) :
    Agrees (Doomed f) s (move? f names (c :: s)) (move? f names (c :: s ++ frameEnd)) := by
  have hl := Left.refl s
  rw [List.cons_append]
  unfold move?
  split
  case h_1 hs => cases hs
  case h_2 hs => cases hs; exact groupMove?_agrees names (passSpace_left f s)
  case h_5 hs =>
    cases hs
    exact (bracketed?_agrees s).map (E := Doomed f) (fun n => Move.pushes (setPart n.set n.depth))
      fun _ _ h => h.elim
  case h_9 hs => cases hs; exact boundsMove?_agrees s
  case h_10 hs => cases hs; exact escapeMove?_agrees s
  case h_11 hs =>
    cases hs
    cases dotPart? f with
    | none => exact .fails
    | some p => exact .reads hl
  case h_14 hs =>
    cases hs
    show Agrees (Doomed f) s _ (move? f names (c :: (s ++ frameEnd)))
    rw [move?.eq_14]
    · exact .reads hl
    all_goals assumption
  all_goals
    next hs => cases hs; first | exact .reads hl | exact .reads hl.passLazy

end Reading

end YamlQuery.Pattern

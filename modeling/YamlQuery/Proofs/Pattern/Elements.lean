import Mathlib.Data.List.Infix
import Mathlib.Data.Option.Basic
import YamlQuery.Pattern.Class

/-!
# Proofs.Pattern.Elements — elements of patterns with a frame around the text

The pattern of a segment stands between `^(?:` and `)$`.  Here the readers of single elements are
given a text alone and with `frameEnd` behind it.  They read the same and leave the same
(`Agrees`), but for two kinds of texts: one that ends inside a comment, of which `frameEnd` becomes
a part, and one that ends too early, of which `frameEnd` may be taken for the missing end.  What can
be left in the second case is said for each reader; nothing that is left so can still be read to the
end of the frame.
-/

namespace YamlQuery.Pattern

open YamlQuery.Text

variable {α β : Type} {f : Flags} {s r w : List Char}

/-- What stands behind a segment in its pattern. -/
def frameEnd : List Char := [')', '$']

/-- If `r` is left of the text `s`, then `w` is left of it with `frameEnd` behind it: the same with
`frameEnd`, or nothing if that is part of a comment. -/
structure Left (s r w : List Char) : Prop where
  suffix : r <:+ s
  rest : w = r ++ frameEnd ∨ r = [] ∧ w = []

theorem Left.refl (s : List Char) : Left s s (s ++ frameEnd) := ⟨List.suffix_refl s, .inl rfl⟩

theorem Left.mono {s' : List Char} (h : Left s r w) (hs : s <:+ s') : Left s' r w :=
  ⟨h.suffix.trans hs, h.rest⟩

theorem Left.nil (s : List Char) : Left s [] [] := ⟨List.nil_suffix, .inr ⟨rfl, rfl⟩⟩

/-- What two readers make of a text alone and with `frameEnd` behind it.  If the first one fails,
then the second one fails as well or leaves something with `D`. -/
def Agrees (D : α → List Char → Prop) (s : List Char) :
    Option (α × List Char) → Option (α × List Char) → Prop
  | some (a, r), o => ∃ w, o = some (a, w) ∧ Left s r w
  | none, o => ∀ a w, o = some (a, w) → D a w

namespace Agrees

variable {D D' : α → List Char → Prop} {o o' : Option (α × List Char)}

theorem reads {a : α} (h : Left s r w) : Agrees D s (some (a, r)) (some (a, w)) := ⟨w, rfl, h⟩

theorem fails : Agrees D s none (none : Option (α × List Char)) := fun _ _ h => by cases h

theorem mono {s' : List Char} (h : Agrees D s o o') (hs : s <:+ s') (hD : ∀ a w, D a w → D' a w) :
    Agrees D' s' o o' := by
  rcases o with _ | ⟨a, r⟩
  · exact fun a w hw => hD a w (h a w hw)
  · obtain ⟨w, hw, hl⟩ := h
    exact ⟨w, hw, hl.mono hs⟩

theorem exists_of_some {x y : α × List Char} (h : Agrees D s (some x) (some y)) :
    ∃ a r w, x = (a, r) ∧ y = (a, w) ∧ Left s r w := by
  obtain ⟨w, hw, hl⟩ := h
  exact ⟨x.1, x.2, w, rfl, Option.some_inj.1 hw, hl⟩

/-- Readers that agree on what is left of a text also do so if nothing is left. -/
theorem of_left {g k : List Char → Option (α × List Char)} (hl : Left s r w)
    (h : Agrees D r (g r) (k (r ++ frameEnd))) (hnil : k [] = g []) :
    Agrees D s (g r) (k w) := by
  obtain ⟨hr, rfl | ⟨rfl, rfl⟩⟩ := hl
  · exact h.mono hr fun _ _ => id
  · rw [hnil]
    rcases hread : g [] with _ | ⟨a, r⟩
    · exact fails
    · rw [hread] at h
      obtain ⟨w, -, hw⟩ := h
      rw [List.suffix_nil.1 hw.suffix]
      exact reads (.nil s)

theorem map {E : β → List Char → Prop} (g : α → β) (h : Agrees D s o o')
    (hD : ∀ a w, D a w → E (g a) w) :
    Agrees E s (o.map fun x => (g x.1, x.2)) (o'.map fun x => (g x.1, x.2)) := by
  rcases o with _ | ⟨a, r⟩
  · intro b w hw
    obtain ⟨⟨a, w'⟩, hw', hb⟩ := Option.map_eq_some_iff.1 hw
    cases hb
    exact hD a _ (h a _ hw')
  · obtain ⟨w, rfl, hl⟩ := h
    exact reads hl

/-- One reader after another. -/
theorem bind {E : β → List Char → Prop} {g k : α → List Char → Option (β × List Char)}
    (h : Agrees D s o o') (hk : ∀ a r w, Left s r w → Agrees E s (g a r) (k a w))
    (hD : ∀ a w, D a w → ∀ b v, k a w = some (b, v) → E b v) :
    Agrees E s (o.bind fun x => g x.1 x.2) (o'.bind fun x => k x.1 x.2) := by
  rcases o with _ | ⟨a, r⟩
  · intro b v hv
    obtain ⟨⟨a, w⟩, hw, hk'⟩ := Option.bind_eq_some_iff.1 hv
    exact hD a w (h a w hw) b v hk'
  · obtain ⟨w, rfl, hl⟩ := h
    exact hk a r w hl

end Agrees

/-! ### White space -/

theorem passComment_left : ∀ s : List Char, Left s (passComment s) (passComment (s ++ frameEnd))
  | [] => .nil []
  | c :: s => by
    rw [List.cons_append, passComment, passComment]
    split
    · exact (Left.refl s).mono (List.suffix_cons c s)
    · exact (passComment_left s).mono (List.suffix_cons c s)

theorem passSpaceFrom_nil : ∀ n, passSpaceFrom n [] = []
  | 0 => rfl
  | _ + 1 => rfl

theorem passSpaceFrom_left : ∀ (n m : Nat) (s : List Char), s.length < n → s.length + 2 < m →
    Left s (passSpaceFrom n s) (passSpaceFrom m (s ++ frameEnd))
  | n + 1, m + 1, [], _, _ => .refl []
  | n + 1, m + 1, c :: s, hn, hm => by
    have hn : s.length < n := by simpa using hn
    have hm : s.length + 2 < m := by
      rw [List.length_cons] at hm
      omega
    rw [List.cons_append, passSpaceFrom, passSpaceFrom]
    split
    · exact (passSpaceFrom_left n m s hn hm).mono (List.suffix_cons c s)
    · split
      · obtain ⟨hsuffix, hw | ⟨hr, hw⟩⟩ := passComment_left s
        · have hle := hsuffix.length_le
          rw [hw]
          exact (passSpaceFrom_left n m _ (by omega) (by omega)).mono
            (hsuffix.trans (List.suffix_cons c s))
        · rw [hr, hw, passSpaceFrom_nil, passSpaceFrom_nil]
          exact .nil _
      · exact .refl _

theorem passSpace_left (f : Flags) (s : List Char) :
    Left s (passSpace f s) (passSpace f (s ++ frameEnd)) := by
  rw [passSpace, passSpace]
  split
  · exact passSpaceFrom_left _ _ s (Nat.lt_succ_self _) (by simp [frameEnd])
  · exact .refl s

@[simp] theorem passSpace_nil (f : Flags) : passSpace f [] = [] := by
  rw [passSpace]
  split <;> rfl

theorem Left.passSpace (h : Left s r w) (f : Flags) :
    Left s (passSpace f r) (passSpace f w) := by
  obtain ⟨hr, rfl | ⟨rfl, rfl⟩⟩ := h
  · exact (passSpace_left f r).mono hr
  · rw [passSpace_nil]
    exact .nil s

theorem passSpace_suffix (f : Flags) (s : List Char) : Pattern.passSpace f s <:+ s :=
  (passSpace_left f s).suffix

/-- White space ends before a character that is not blank and starts no comment. -/
theorem passSpace_cons {c : Char} (hb : isBlank c = false) (hc : c ≠ '#') (f : Flags)
    (s : List Char) : Pattern.passSpace f (c :: s) = c :: s := by
  rw [Pattern.passSpace]
  split
  · simp [passSpaceFrom, hb, hc]
  · rfl

theorem passSpace_frameEnd (f : Flags) : Pattern.passSpace f frameEnd = frameEnd :=
  passSpace_cons (by decide) (by decide) f _

theorem passSpace_dollar (f : Flags) : Pattern.passSpace f ['$'] = ['$'] :=
  passSpace_cons (by decide) (by decide) f _

/-! ### Characters by number -/

/-- Nothing is left that could be read to the end. -/
abbrev Never {α : Type} (_ : α) (_ : List Char) : Prop := False

theorem hexDigits_nil (f : Flags) : ∀ n, hexDigits f n [] = ([], [])
  | 0 => rfl
  | _ + 1 => rfl

/-- With more fuel if there is fuel for the whole text. -/
theorem hexDigits_agrees (k : Nat) : ∀ (n : Nat) (s : List Char), k = 0 ∨ s.length ≤ n →
    Agrees Never s (some (hexDigits f n s)) (some (hexDigits f (n + k) (s ++ frameEnd)))
  | 0, s, h => by
    rcases h with rfl | h
    · exact .reads (.refl s)
    · rw [List.length_eq_zero_iff.1 (Nat.le_zero.1 h)]
      cases k <;> exact .reads (.refl [])
  | n + 1, [], _ => by
    rw [Nat.add_right_comm]
    exact .reads (.refl [])
  | n + 1, c :: s, h => by
    rw [Nat.add_right_comm, List.cons_append, hexDigits, hexDigits]
    split
    · have hl := passSpace_left f s
      have hlen : k = 0 ∨ (passSpace f s).length ≤ n := by
        have hle := hl.suffix.length_le
        rw [List.length_cons] at h
        omega
      obtain ⟨w, hw, hleft⟩ := Agrees.of_left (g := fun s => some (hexDigits f n s))
        (k := fun s => some (hexDigits f (n + k) s)) hl (hexDigits_agrees k n _ hlen)
        (by simp only [hexDigits_nil])
      rw [Option.some_inj.1 hw]
      exact .reads (hleft.mono (List.suffix_cons c s))
    · exact .reads (.refl _)

/-- What is left is the same behind a first character. -/
theorem Left.of_cons {c : Char} (h : Left s (c :: r) w) :
    ∃ v, w = c :: v ∧ Left s r v := by
  obtain ⟨hr, rfl | ⟨hnil, -⟩⟩ := h
  · exact ⟨r ++ frameEnd, rfl, (List.suffix_cons c r).trans hr, .inl rfl⟩
  · cases hnil

theorem Left.of_nil (h : Left s [] w) : w = frameEnd ∨ w = [] := by
  obtain ⟨-, rfl | ⟨-, rfl⟩⟩ := h
  · exact .inl rfl
  · exact .inr rfl

/-- What is left starts with a character in both cases or in none, unless that is the parenthesis of
`frameEnd`. -/
theorem Left.head (h : Left s r w) {c : Char} (hc : c ≠ ')') :
    (∃ u v, r = c :: u ∧ w = c :: v ∧ Left s u v) ∨ (∀ u, r ≠ c :: u) ∧ ∀ v, w ≠ c :: v := by
  cases r with
  | nil =>
    refine .inr ⟨by simp, fun v hv => ?_⟩
    rcases h.of_nil with rfl | rfl
    · exact hc (List.cons.inj hv).1.symm
    · cases hv
  | cons d u =>
    obtain ⟨v, rfl, hv⟩ := h.of_cons
    by_cases hd : d = c
    · subst hd
      exact .inl ⟨u, v, rfl, rfl, hv⟩
    · exact .inr ⟨fun u hu => hd (List.cons.inj hu).1, fun v hv => hd (List.cons.inj hv).1⟩

theorem hexDigits_passed (s : List Char) : ∃ ds r w,
    hexDigits f s.length (passSpace f s) = (ds, r) ∧
      hexDigits f (s ++ frameEnd).length (passSpace f (s ++ frameEnd)) = (ds, w) ∧ Left s r w := by
  have hl := passSpace_left f s
  rw [List.length_append]
  exact (Agrees.of_left (g := fun r => some (hexDigits f s.length r))
    (k := fun r => some (hexDigits f (s.length + 2) r)) hl
    (hexDigits_agrees 2 s.length _ (.inr hl.suffix.length_le))
    (by simp only [hexDigits_nil])).exists_of_some

theorem hexChar?_agrees (n : Nat) (s : List Char) :
    Agrees Never s (hexChar? f n s) (hexChar? f n (s ++ frameEnd)) := by
  rcases (Left.refl s).head (c := '\x7b') (by decide) with ⟨t, v, rfl, hv, ht⟩ | ⟨hs, hs'⟩
  · obtain rfl : v = t ++ frameEnd := (List.cons.inj hv).2.symm
    obtain ⟨ds, r, w, hr, hw, hleft⟩ := hexDigits_passed (f := f) t
    rw [List.cons_append, hexChar?, hexChar?, hr, hw]
    dsimp only
    rcases hleft.head (c := '\x7d') (by decide) with ⟨u, v, rfl, rfl, hv⟩ | ⟨hclose, hclose'⟩
    · cases charOfHex? ds with
      | none => exact .fails
      | some c => exact .reads ((hv.passSpace f).mono (List.suffix_cons _ t))
    · split
      · next u _ => exact absurd rfl (hclose _)
      · exact .fails
  · obtain ⟨ds, r, w, hr, hw, hleft⟩ := (hexDigits_agrees (f := f) 0 n s (.inl rfl)).exists_of_some
    rw [Nat.add_zero] at hw
    rw [hexChar?.eq_2 f n s hs, hexChar?.eq_2 f n _ hs', hr, hw]
    dsimp only
    split
    · exact .fails
    · cases charOfHex? ds with
      | none => exact .fails
      | some c => exact .reads hleft

/-! ### Properties -/

theorem cutAt_agrees {p : Char → Bool} (hp : p ')' = false) (hd : p '$' = false) :
    ∀ s, Agrees Never s (cutAt p s) (cutAt p (s ++ frameEnd))
  | [] => by
    have hnone : cutAt p frameEnd = none := by simp [cutAt, frameEnd, hp, hd]
    rw [List.nil_append, hnone]
    exact .fails
  | c :: s => by
    rw [List.cons_append, cutAt, cutAt]
    split
    · exact .reads ((Left.refl s).mono (List.suffix_cons c s))
    · exact ((cutAt_agrees hp hd s).mono (List.suffix_cons c s) fun _ _ => id).map (c :: ·)
        fun _ _ => id

theorem braced?_nil (f : Flags) : ∀ n, braced? f n [] = none
  | 0 => rfl
  | _ + 1 => rfl

theorem braced?_frameEnd (f : Flags) : ∀ n, braced? f n frameEnd = none
  | 0 => rfl
  | 1 => rfl
  | n + 2 => by simp [frameEnd, braced?, passSpace_dollar, braced?_nil]

theorem braced?_agrees : ∀ (n : Nat) (s : List Char), s.length < n →
    Agrees Never s (braced? f n s) (braced? f (n + 2) (s ++ frameEnd))
  | n + 1, [], _ => by
    rw [List.nil_append, braced?_frameEnd]
    exact .fails
  | n + 1, c :: s, h => by
    by_cases hc : c = '\x7d'
    · subst hc
      exact .reads ((Left.refl s).mono (List.suffix_cons _ s))
    · have hl := passSpace_left f s
      have hlen : (passSpace f s).length < n := by
        have hle := hl.suffix.length_le
        rw [List.length_cons] at h
        omega
      have ih := Agrees.of_left (g := braced? f n) (k := braced? f (n + 2)) hl
        (braced?_agrees n _ hlen) (by simp only [braced?_nil])
      rw [List.cons_append, Nat.add_right_comm, braced?.eq_4 f n c s hc, braced?.eq_4 f _ c _ hc]
      exact (ih.mono (List.suffix_cons c s) fun _ _ => id).map (c :: ·) fun _ _ => id

/-- The set that the text of a property names, and whether it is negated. -/
def namedSet? (f : Flags) (negated : Bool) (name : List Char) : Option (CharSet × Bool) :=
  match cut ['!', '='] name with
  | some (n, v) => (f.sets.ofNameValue? n v).map (·, !negated)
  | none =>
    match cutAt (· == ':') name with
    | some (n, v) => (f.sets.ofNameValue? n v).map (·, negated)
    | none =>
      match cutAt (· == '=') name with
      | some (n, v) => (f.sets.ofNameValue? n v).map (·, negated)
      | none => (f.sets.ofName? name).map (·, negated)

/-- The set of a property as an atom under the flags. -/
def setAtom? (f : Flags) (x : CharSet × Bool) : Option Atom :=
  if f.unicode then (finishSet? f x.2 x.1).map .set else none

theorem guard_of {p : Prop} [Decidable p] (h : p) : (guard p : Option Unit) = some () := if_pos h

theorem guard_of_not {p : Prop} [Decidable p] (h : ¬ p) : (guard p : Option Unit) = none := if_neg h

theorem map_setAtom? (f : Flags) (set : CharSet) (negated : Bool) (r : List Char) :
    ((guard (f.unicode = true) : Option Unit).bind fun _ =>
      (finishSet? f negated set).bind fun set => pure (Atom.set set, r)) =
        (setAtom? f (set, negated)).map (·, r) := by
  unfold setAtom?
  cases f.unicode with
  | false => rfl
  | true => cases finishSet? f negated set <;> rfl

/-- The atom of a property with a name in braces, and what is behind it. -/
def bracedAtom? (f : Flags) (negated : Bool) (name s : List Char) : Option (Atom × List Char) :=
  ((namedSet? f negated name).bind (setAtom? f)).map (·, s)

theorem property?_brace {negated : Bool} {t : List Char} (h : passSpace f s = '\x7b' :: t) :
    property? f negated s = (braced? f (t.length + 1) (passSpace f t)).bind fun x =>
      bracedAtom? f negated x.1 x.2 := by
  unfold property? bracedAtom?
  simp only [h]
  cases braced? f (t.length + 1) (passSpace f t) with
  | none => rfl
  | some x =>
    simp only [Option.bind_eq_bind, Option.bind_some, namedSet?, map_setAtom?]
    rcases cut ['!', '='] x.1 with _ | ⟨n, v⟩
    · rcases cutAt (· == ':') x.1 with _ | ⟨n, v⟩
      · rcases cutAt (· == '=') x.1 with _ | ⟨n, v⟩
        · cases f.sets.ofName? x.1 <;> rfl
        · dsimp only
          cases f.sets.ofNameValue? n v <;> rfl
      · dsimp only
        cases f.sets.ofNameValue? n v <;> rfl
    · dsimp only
      cases f.sets.ofNameValue? n v <;> rfl

theorem property?_cons {negated : Bool} {c : Char} {t : List Char} (hc : c ≠ '\x7b')
    (h : passSpace f s = c :: t) :
    property? f negated s = if c == '\\' then none else
      ((f.sets.ofName? [c]).bind fun set => setAtom? f (set, negated)).map (·, passSpace f t) := by
  unfold property?
  simp only [h, Option.bind_eq_bind, map_setAtom?]
  split
  · rfl
  · cases f.sets.ofName? [c] <;> rfl

theorem property?_nil {negated : Bool} (h : passSpace f s = []) : property? f negated s = none := by
  unfold property?
  simp only [h]
  rfl

/-- Only the last sign of a frame is left. -/
abbrev Dollar {α : Type} (_ : α) (w : List Char) : Prop := w = ['$']

theorem property?_agrees (negated : Bool) (s : List Char) :
    Agrees Dollar s (property? f negated s) (property? f negated (s ++ frameEnd)) := by
  have hl := passSpace_left f s
  rcases hr : passSpace f s with _ | ⟨c, t⟩
  · rw [hr] at hl
    rw [property?_nil hr]
    intro a w hw
    rcases hl.of_nil with hw' | hw'
    · rw [property?_cons (by decide) hw', if_neg (by decide), passSpace_dollar] at hw
      obtain ⟨b, -, hb⟩ := Option.map_eq_some_iff.1 hw
      exact (Prod.mk.inj hb).2.symm
    · rw [property?_nil hw'] at hw
      cases hw
  · rw [hr] at hl
    obtain ⟨v, hv, ht⟩ := hl.of_cons
    by_cases hc : c = '\x7b'
    · subst hc
      have hbraced : Agrees Never s (braced? f (t.length + 1) (passSpace f t))
          (braced? f (v.length + 1) (passSpace f v)) := by
        obtain ⟨hsuffix, rfl | ⟨rfl, rfl⟩⟩ := ht
        · rw [List.length_append, Nat.add_right_comm]
          exact Agrees.of_left (g := braced? f (t.length + 1))
            (k := braced? f (t.length + 1 + 2)) ((passSpace_left f t).mono hsuffix)
            (braced?_agrees _ _ (Nat.lt_succ_of_le (passSpace_suffix f t).length_le)) rfl
        · rw [passSpace_nil]
          exact .fails
      rw [property?_brace hr, property?_brace hv]
      refine hbraced.bind (g := bracedAtom? f negated) (fun name r w hleft => ?_)
        fun _ _ h => h.elim
      · unfold bracedAtom?
        cases (namedSet? f negated name).bind (setAtom? f) with
        | none => exact .fails
        | some a => exact .reads hleft
    · rw [property?_cons hc hr, property?_cons hc hv]
      split
      · exact .fails
      · cases (f.sets.ofName? [c]).bind fun set => setAtom? f (set, negated) with
        | none => exact .fails
        | some a => exact .reads (ht.passSpace f)

/-! ### Escapes -/

theorem boundaryName_nil (f : Flags) : ∀ n, boundaryName f n [] = ([], [])
  | 0 => rfl
  | _ + 1 => rfl

theorem boundaryName_agrees : ∀ (n : Nat) (s : List Char), s.length ≤ n →
    Agrees Never s (some (boundaryName f n s)) (some (boundaryName f (n + 2) (s ++ frameEnd)))
  | n, [], _ => by
    rw [boundaryName_nil]
    exact .reads (.refl [])
  | n + 1, c :: s, h => by
    rw [Nat.add_right_comm, List.cons_append, boundaryName, boundaryName]
    split
    · have hl := passSpace_left f s
      have hlen : (passSpace f s).length ≤ n :=
        hl.suffix.length_le.trans (Nat.le_of_succ_le_succ h)
      obtain ⟨w, hw, hleft⟩ := Agrees.of_left (g := fun s => some (boundaryName f n s))
        (k := fun s => some (boundaryName f (n + 2) s)) hl (boundaryName_agrees n _ hlen)
        (by simp only [boundaryName_nil])
      rw [Option.some_inj.1 hw]
      exact .reads (hleft.mono (List.suffix_cons c s))
    · exact .reads (.refl _)

/-- The boundary that a name in braces stands for. -/
def namedBoundary? (ascii : Bool) (name : String) : Option Look :=
  match name with
  | "start" => some (.wordStart ascii)
  | "end" => some (.wordEnd ascii)
  | "start-half" => some (.wordStartHalf ascii)
  | "end-half" => some (.wordEndHalf ascii)
  | _ => none

/-- What a boundary with a name in braces is, and what is behind it. -/
def closedBoundary? (ascii : Bool) (name : String) : List Char → Option (Atom × List Char)
  | '\x7d' :: s => (namedBoundary? ascii name).map fun l => (.look l, s)
  | _ => none

theorem closedBoundary?_agrees {D : Atom → List Char → Prop} (ascii : Bool) (name : String)
    (h : Left s r w) :
    Agrees D s (closedBoundary? ascii name r) (closedBoundary? ascii name w) := by
  rcases h.head (c := '\x7d') (by decide) with ⟨u, v, rfl, rfl, hv⟩ | ⟨hr, hw⟩
  · rw [closedBoundary?, closedBoundary?]
    cases namedBoundary? ascii name with
    | none => exact .fails
    | some l => exact .reads hv
  · rw [closedBoundary?.eq_2 ascii name r hr, closedBoundary?.eq_2 ascii name w hw]
    exact .fails

theorem boundary?_named {t name rest : List Char} (hne : passSpace f t ≠ [])
    (hn : boundaryName f (passSpace f t).length (passSpace f t) = (name, rest))
    (hname : name.isEmpty = false) : boundary? f ('\x7b' :: t) =
      closedBoundary? (!f.unicode) (String.ofList name) rest := by
  rw [boundary?]
  split
  · next h => exact absurd h hne
  · rw [hn]
    simp only [hname, Bool.false_eq_true, if_false]
    split
    case h_5 hstart hend hstartHalf hendHalf =>
      unfold closedBoundary?
      split
      · next u =>
        unfold namedBoundary?
        split
        · next h => exact (hstart u rfl h).elim
        · next h => exact (hend u rfl h).elim
        · next h => exact (hstartHalf u rfl h).elim
        · next h => exact (hendHalf u rfl h).elim
        · rfl
      · rfl
    all_goals
      next hname => rw [hname]; rfl

theorem boundary?_unnamed {t u : List Char} (hne : passSpace f t ≠ [])
    (hn : boundaryName f (passSpace f t).length (passSpace f t) = ([], u)) :
    boundary? f ('\x7b' :: t) = some (.look (.wordBoundary !f.unicode), '\x7b' :: t) := by
  rw [boundary?]
  split
  · next h => exact absurd h hne
  · rw [hn]
    rfl

/-- Left is a brace that starts no repetition. -/
def Brace (f : Flags) (a : Atom) (w : List Char) : Prop :=
  (∃ l, a = .look l) ∧ ∃ u, w = '\x7b' :: (u ++ frameEnd) ∧ passSpace f u = []

theorem boundary?_agrees (s : List Char) :
    Agrees (Brace f) s (boundary? f s) (boundary? f (s ++ frameEnd)) := by
  rcases (Left.refl s).head (c := '\x7b') (by decide) with ⟨t, v, rfl, hv, ht⟩ | ⟨hs, hs'⟩
  · obtain rfl : v = t ++ frameEnd := (List.cons.inj hv).2.symm
    rw [List.cons_append]
    have hl := passSpace_left f t
    by_cases hr : passSpace f t = []
    · have hnone : boundary? f ('\x7b' :: t) = none := by
        rw [boundary?, hr]
      rw [hnone]
      rw [hr] at hl
      intro a w hw
      rcases hl.of_nil with hw' | hw'
      · rw [boundary?_unnamed (u := frameEnd) (by rw [hw']; decide) (by rw [hw']; rfl)] at hw
        cases hw
        exact ⟨⟨_, rfl⟩, t, rfl, hr⟩
      · rw [boundary?, hw'] at hw
        cases hw
    · obtain ⟨hsuffix, hw | ⟨hr', -⟩⟩ := hl
      · have hne : passSpace f (t ++ frameEnd) ≠ [] := by
          rw [hw]
          simp [hr]
        obtain ⟨name, r, w, hn, hn', hleft⟩ :=
          (boundaryName_agrees (f := f) _ (passSpace f t) (Nat.le_refl _)).exists_of_some
        have hn' : boundaryName f (passSpace f (t ++ frameEnd)).length
            (passSpace f (t ++ frameEnd)) = (name, w) := by
          rw [hw, List.length_append]
          exact hn'
        cases hname : name.isEmpty with
        | true =>
          obtain rfl := List.isEmpty_iff.1 hname
          rw [boundary?_unnamed hr hn, boundary?_unnamed hne hn']
          exact .reads (.refl _)
        | false =>
          rw [boundary?_named hr hn hname, boundary?_named hne hn' hname]
          exact closedBoundary?_agrees _ _ (hleft.mono (hsuffix.trans (List.suffix_cons _ t)))
      · exact absurd hr' hr
  · rw [boundary?.eq_2 f s hs, boundary?.eq_2 f _ hs']
    exact .reads (.refl s)

/-- What may be left behind an escape that ends too early. -/
def Cut (f : Flags) (a : Atom) (w : List Char) : Prop := w = ['$'] ∨ Brace f a w

theorem escape?_frameEnd (f : Flags) : escape? f frameEnd = some (.char ')' false, ['$']) := by
  cases h : f.unicode <;> simp [escape?, frameEnd, h] <;> rfl

theorem escape?_agrees (s : List Char) :
    Agrees (Cut f) s (escape? f s) (escape? f (s ++ frameEnd)) := by
  cases s with
  | nil =>
    rw [List.nil_append, escape?_frameEnd]
    rintro a w hw
    cases hw
    exact .inl rfl
  | cons c s =>
    have hs : s <:+ c :: s := List.suffix_cons c s
    have hsimple (a : Atom) : Agrees (Cut f) (c :: s) (some (a, s)) (some (a, s ++ frameEnd)) :=
      .reads ((Left.refl s).mono hs)
    have hhex (n : Nat) : Agrees (Cut f) (c :: s) (hexChar? f n (passSpace f s))
        (hexChar? f n (passSpace f (s ++ frameEnd))) :=
      (Agrees.of_left ((passSpace_left f s).mono hs) (hexChar?_agrees n _) rfl).mono
        (List.suffix_refl _) fun _ _ h => h.elim
    have hproperty (negated : Bool) : Agrees (Cut f) (c :: s) (property? f negated s)
        (property? f negated (s ++ frameEnd)) :=
      (property?_agrees negated s).mono hs fun _ _ h => .inl h
    rw [List.cons_append]
    unfold escape?
    split
    case h_1 hs => cases hs
    case h_2 hs => cases hs; exact hhex 2
    case h_3 hs => cases hs; exact hhex 4
    case h_4 hs => cases hs; exact hhex 8
    case h_5 hs => cases hs; exact hproperty false
    case h_6 hs => cases hs; exact hproperty true
    case h_15 hs =>
      cases hs
      exact (boundary?_agrees s).mono (List.suffix_cons _ s) fun _ _ h => .inr h
    case h_19 hs =>
      cases hs
      show Agrees (Cut f) (c :: s) _ (escape? f (c :: (s ++ frameEnd)))
      rw [escape?.eq_19]
      · dsimp only
        cases CharSet.ofLetter? (!f.unicode) c with
        | some set => exact hsimple _
        | none =>
          dsimp only
          split
          · cases CharSet.ofLetter? (!f.unicode) c.toLower with
            | none => exact .fails
            | some set =>
              dsimp only
              split
              · exact .fails
              · exact hsimple _
          · split
            · exact hsimple _
            · exact .fails
      all_goals assumption
    all_goals
      next hs => cases hs; exact hsimple _

end YamlQuery.Pattern

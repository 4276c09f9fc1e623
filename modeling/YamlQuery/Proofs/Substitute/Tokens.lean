import Mathlib.Data.List.TakeDrop
import Mathlib.Data.List.TakeWhile
import Mathlib.Data.Nat.Find
import YamlQuery.Proofs.Command.Blind
import YamlQuery.Proofs.Text.Occurrences

/-!
# Proofs.Substitute.Tokens — the tokens of a text

A token is a name in its braces at a place of the text (`TokenAt`).  Its name has none of the
characters that tokens begin and end with, so no two tokens overlap (`TokenAt.length_le`).

A text can be cut at those of its tokens that are defined (`Cuts`), and with their values in place of
these tokens it is what a substitution makes of it (`chars_of_cuts`).  What stands between them is
left alone, and the values are not looked at, so texts can be substituted one by one as long as no
token lies across their ends (`chars_append`).
-/

namespace YamlQuery.Substitute

variable {lookup : Lookup} {ns s t name value property : List Char} {i : Nat}

/-! ### Tokens -/

/-- A name as it stands in a token. -/
def IsName (name : List Char) : Prop := name ≠ [] ∧ ∀ c ∈ name, isNameChar c

def token (name : List Char) : List Char := mark ++ name ++ ['\x7d']

/-- A token with the name stands at a place of the text. -/
structure TokenAt (s : List Char) (i : Nat) (name : List Char) : Prop where
  isName : IsName name
  standsAt : Text.StandsAt (token name) s i

theorem length_token (name : List Char) : (token name).length = name.length + 3 := by
  simp [token, mark]

theorem TokenAt.zero (h : IsName name) (s : List Char) : TokenAt (token name ++ s) 0 name :=
  ⟨h, List.prefix_append _ s⟩

theorem nameOf?_eq_some_iff {rest : List Char} :
    nameOf? s = some (name, rest) ↔ IsName name ∧ name ++ '\x7d' :: rest = s := by
  rw [nameOf?, List.span_eq_takeWhile_dropWhile]
  constructor
  · intro h
    split at h
    · next c w r heq =>
      obtain ⟨htake, hdrop⟩ := Prod.mk.inj heq
      cases h
      refine ⟨⟨List.cons_ne_nil c w, fun d hd => List.mem_takeWhile_imp (htake ▸ hd)⟩, ?_⟩
      rw [← htake, ← hdrop, List.takeWhile_append_dropWhile]
    · cases h
  · rintro ⟨⟨hne, hall⟩, rfl⟩
    have hbrace : isNameChar '\x7d' = false := rfl
    obtain ⟨c, w, rfl⟩ := List.exists_cons_of_ne_nil hne
    rw [List.takeWhile_append_of_pos hall, List.dropWhile_append_of_pos hall,
      List.takeWhile_cons_of_neg (by simp [hbrace]), List.dropWhile_cons_of_neg (by simp [hbrace]),
      List.append_nil]
    rfl

/-- The name of the token that a text starts with. -/
def nameAt? : List Char → Option (List Char)
  | '$' :: '\x7b' :: s => (nameOf? s).map (·.1)
  | _ => none

theorem nameAt?_eq_some_iff : nameAt? s = some name ↔ TokenAt s 0 name := by
  have hstart : TokenAt s 0 name ↔ IsName name ∧ token name <+: s :=
    ⟨fun h => ⟨h.isName, h.standsAt⟩, fun h => ⟨h.1, h.2⟩⟩
  rw [hstart]
  unfold nameAt?
  split
  · next s =>
    have hrest : token name <+: '$' :: '\x7b' :: s ↔ ∃ rest, name ++ '\x7d' :: rest = s := by
      simp [token, mark, List.IsPrefix]
    rw [hrest, ← exists_and_left, Option.map_eq_some_iff]
    constructor
    · rintro ⟨⟨n, rest⟩, h, rfl⟩
      exact ⟨rest, nameOf?_eq_some_iff.1 h⟩
    · rintro ⟨rest, h⟩
      exact ⟨(name, rest), nameOf?_eq_some_iff.2 h, rfl⟩
  · next hnot =>
    refine iff_of_false (by simp) ?_
    rintro ⟨-, rest, rfl⟩
    exact hnot _ rfl

theorem tokenAt_iff : TokenAt s i name ↔ nameAt? (s.drop i) = some name := by
  rw [nameAt?_eq_some_iff]
  exact ⟨fun h => ⟨h.isName, h.standsAt⟩, fun h => ⟨h.isName, h.standsAt⟩⟩

/-- Behind another text, the tokens of a text are as far from its start as they were. -/
theorem tokenAt_append_left (w s : List Char) :
    TokenAt (w ++ s) (w.length + i) name ↔ TokenAt s i name := by
  rw [tokenAt_iff, tokenAt_iff, ← List.drop_drop, List.drop_left]

/-- At a place there is one token at most. -/
theorem TokenAt.name_eq {m n : List Char} (hm : TokenAt s i m) (hn : TokenAt s i n) : m = n :=
  Option.some.inj ((tokenAt_iff.1 hm).symm.trans (tokenAt_iff.1 hn))

/-- **No two tokens overlap.** -/
theorem TokenAt.length_le {j : Nat} {m n : List Char} (hm : TokenAt s i m) (hn : TokenAt s j n)
    (hij : i < j) : i + (token m).length ≤ j := by
  by_contra hlt
  obtain ⟨r, hr⟩ := hm.standsAt
  obtain ⟨d, rfl⟩ : ∃ d, j = i + (d + 1) := ⟨j - i - 1, by omega⟩
  -- behind its first character the token has none that a token begins with
  have hdollar : '$' ∉ (token m).tail := by
    show '$' ∉ '\x7b' :: (m ++ ['\x7d'])
    rw [List.mem_cons, List.mem_append, List.mem_singleton]
    rintro (h | h | h)
    · cases h
    · exact absurd (hm.isName.2 _ h) (by decide)
    · cases h
  have hstart : token n <+: (token m).tail.drop d ++ r := by
    have hdrop : s.drop (i + (d + 1)) = (token m).tail.drop d ++ r := by
      rw [← List.drop_drop, ← hr, List.drop_append_of_le_length (by omega), List.drop_tail]
    exact hdrop ▸ hn.standsAt
  cases hcut : (token m).tail.drop d with
  | nil =>
    rw [List.drop_eq_nil_iff, List.length_tail] at hcut
    omega
  | cons c cs =>
    rw [hcut] at hstart
    obtain ⟨rfl, -⟩ : '$' = c ∧ _ := List.cons_prefix_cons.1 hstart
    refine hdollar (List.mem_of_mem_drop (i := d) ?_)
    rw [hcut]
    exact List.mem_cons_self

theorem TokenAt.apart {j : Nat} {m n : List Char} (hm : TokenAt s i m) (hn : TokenAt s j n) :
    (i = j ∧ m = n) ∨ i + (token m).length ≤ j ∨ j + (token n).length ≤ i := by
  obtain hlt | rfl | hlt := Nat.lt_trichotomy i j
  · exact .inr (.inl (hm.length_le hn hlt))
  · exact .inl ⟨rfl, hm.name_eq hn⟩
  · exact .inr (.inr (hn.length_le hm hlt))

/-! ### What a token stands for -/

/-- What stands between a namespace and the name of a property. -/
def colons : List Char := [':', ':']

/-- The name in a token asks for a property: for the one with this name if there are no colons in it,
and else for the one that is named behind the first colons, if the namespace stands before them. -/
def Asks (ns name property : List Char) : Prop :=
  (¬ colons <:+: name ∧ property = name) ∨
    ns ++ colons ++ property = name ∧ ∀ i < ns.length, ¬ Text.StandsAt colons name i

/-- The property that the name in a token asks for has a value. -/
def Defines (lookup : Lookup) (ns name value : List Char) : Prop :=
  ∃ property, Asks ns name property ∧
    lookup (String.ofList property) = some (String.ofList value)

theorem propertyOf?_eq_some_iff : propertyOf? ns name = some property ↔ Asks ns name property := by
  have hcolons : colons ≠ [] := List.cons_ne_nil _ _
  rw [propertyOf?, ← colons, Asks]
  cases hcut : Text.cut colons name with
  | none =>
    have hnot := (Text.cut_eq_none_iff hcolons).1 hcut
    constructor
    · intro h
      exact .inl ⟨hnot, (Option.some.inj h).symm⟩
    · rintro (⟨-, rfl⟩ | ⟨rfl, -⟩)
      · rfl
      · exact absurd ⟨ns, property, rfl⟩ hnot
  | some cut =>
    obtain ⟨before, rest⟩ := cut
    have hinfix : colons <:+: name := by
      by_contra hnot
      rw [(Text.cut_eq_none_iff hcolons).2 hnot] at hcut
      cases hcut
    rw [← Text.cut_eq_some_iff hcolons, hcut]
    dsimp only
    constructor
    · intro h
      split at h
      · next hbefore => exact .inr (by rw [hbefore, Option.some.inj h])
      · cases h
    · rintro (⟨hnot, -⟩ | h)
      · exact absurd hinfix hnot
      · cases h
        exact if_pos rfl

theorem valueOf?_eq_some_iff : valueOf? lookup ns name = some value ↔
    Defines lookup ns name value := by
  rw [valueOf?, Option.bind_eq_some_iff]
  refine exists_congr fun p => and_congr propertyOf?_eq_some_iff ?_
  rw [Option.map_eq_some_iff]
  constructor
  · rintro ⟨v, hv, rfl⟩
    rw [hv, String.ofList_toList]
  · intro hv
    exact ⟨_, hv, String.toList_ofList⟩

/-- A token of the text stands for a value. -/
def DefinedAt (lookup : Lookup) (ns s : List Char) (i : Nat) (name value : List Char) : Prop :=
  TokenAt s i name ∧ Defines lookup ns name value

theorem tokenAt?_eq_some_iff {n : Nat} : tokenAt? lookup ns s = some (value, n) ↔
    ∃ name, DefinedAt lookup ns s 0 name value ∧ name.length + 3 = n := by
  have hname : tokenAt? lookup ns s =
      (nameAt? s).bind fun name => (valueOf? lookup ns name).map (·, name.length + 3) := by
    unfold nameAt?
    split
    · next s =>
      rw [tokenAt?]
      cases nameOf? s <;> rfl
    · next hnot =>
      rw [tokenAt?_eq_none]
      · rfl
      · rintro ⟨r, rfl⟩
        exact hnot r rfl
  rw [hname, Option.bind_eq_some_iff]
  simp only [nameAt?_eq_some_iff, Option.map_eq_some_iff, Prod.mk.injEq, DefinedAt,
    valueOf?_eq_some_iff, and_assoc]
  constructor
  · rintro ⟨name, hat, v, hv, rfl, hn⟩
    exact ⟨name, hat, hv, hn⟩
  · rintro ⟨name, hat, hv, hn⟩
    exact ⟨name, hat, value, hv, rfl, hn⟩

theorem definedAt_append_left (w s : List Char) :
    DefinedAt lookup ns (w ++ s) (w.length + i) name value ↔ DefinedAt lookup ns s i name value :=
  and_congr_left' (tokenAt_append_left w s)

/-! ### Step by step -/

theorem charsFrom_eq : ∀ (n : Nat) (s : List Char),
    charsFrom lookup ns n s = chars lookup ns (s.drop n)
  | 0, _ => rfl
  | _ + 1, [] => rfl
  | n + 1, _ :: s => charsFrom_eq n s

/-- A character at which no token begins that is defined stays. -/
theorem chars_cons {c : Char} (h : ∀ name value, ¬ DefinedAt lookup ns (c :: s) 0 name value) :
    chars lookup ns (c :: s) = (c :: (chars lookup ns s).1, (chars lookup ns s).2) := by
  have hnone : tokenAt? lookup ns (c :: s) = none := by
    rw [Option.eq_none_iff_forall_ne_some]
    rintro ⟨value, n⟩ hvalue
    obtain ⟨name, hat, -⟩ := tokenAt?_eq_some_iff.1 hvalue
    exact h name value hat
  rw [chars, charsFrom, hnone]
  rfl

/-- A token that is defined is replaced as a whole. -/
theorem chars_token (hname : IsName name) (hvalue : Defines lookup ns name value) (s : List Char) :
    chars lookup ns (token name ++ s) = (value ++ (chars lookup ns s).1, true) := by
  have hat : tokenAt? lookup ns (token name ++ s) = some (value, (token name).length) :=
    tokenAt?_eq_some_iff.2 ⟨name, ⟨.zero hname s, hvalue⟩, (length_token name).symm⟩
  obtain ⟨c, t, ht⟩ : ∃ c t, token name = c :: t := ⟨_, _, rfl⟩
  rw [ht, List.cons_append] at hat ⊢
  rw [chars, charsFrom, hat]
  dsimp only
  rw [charsFrom_eq, List.length_cons, Nat.add_sub_cancel, List.drop_left]

/-- A text at which no token begins that is defined stays. -/
theorem chars_append_of_free : ∀ {w s : List Char},
    (∀ i < w.length, ∀ name value, ¬ DefinedAt lookup ns (w ++ s) i name value) →
      chars lookup ns (w ++ s) = (w ++ (chars lookup ns s).1, (chars lookup ns s).2)
  | [], _, _ => rfl
  | c :: w, s, h => by
    have hrest : ∀ i < w.length, ∀ name value, ¬ DefinedAt lookup ns (w ++ s) i name value := by
      intro i hi name value hat
      have hat := (definedAt_append_left [c] (w ++ s)).2 hat
      rw [List.length_singleton, Nat.add_comm] at hat
      exact h (i + 1) (Nat.succ_lt_succ hi) name value hat
    have hstart : ∀ name value, ¬ DefinedAt lookup ns (c :: (w ++ s)) 0 name value :=
      h 0 (Nat.succ_pos _)
    rw [List.cons_append, chars_cons hstart, chars_append_of_free hrest]
    rfl

/-! ### A text cut at its tokens -/

/-- A token, its value, and the text in front of it. -/
structure Hit where
  before : List Char
  name : List Char
  value : List Char

namespace Hit

variable {h : Hit} {hs : List Hit}

def source (h : Hit) : List Char := h.before ++ token h.name

def result (h : Hit) : List Char := h.before ++ h.value

/-- The places and the names of the tokens, with some characters before. -/
def places : Nat → List Hit → List (Nat × List Char)
  | _, [] => []
  | n, h :: hs => (n + h.before.length, h.name) :: places (n + h.source.length) hs

theorem length_source (h : Hit) : h.source.length = h.before.length + (token h.name).length :=
  List.length_append

theorem mem_places_add {m n : Nat} : ∀ {hs : List Hit},
    (i, name) ∈ places (m + n) hs ↔ ∃ j, m + j = i ∧ (j, name) ∈ places n hs
  | [] => by simp [places]
  | h :: hs => by
    rw [places, places, Nat.add_assoc, Nat.add_assoc, List.mem_cons, mem_places_add]
    constructor
    · rintro (heq | ⟨j, rfl, hj⟩)
      · cases heq
        exact ⟨_, rfl, List.mem_cons_self⟩
      · exact ⟨j, rfl, List.mem_cons_of_mem _ hj⟩
    · rintro ⟨j, rfl, hj⟩
      rcases List.mem_cons.1 hj with heq | hj
      · cases heq
        exact .inl rfl
      · exact .inr ⟨j, rfl, hj⟩

theorem mem_places_cons : (i, name) ∈ places 0 (h :: hs) ↔
    (i = h.before.length ∧ name = h.name) ∨ ∃ j, h.source.length + j = i ∧ (j, name) ∈ places 0 hs := by
  rw [places, List.mem_cons, Prod.mk.injEq, Nat.zero_add, Nat.zero_add,
    ← Nat.add_zero h.source.length, mem_places_add, Nat.add_zero]

end Hit

/-- The text is cut at its tokens that are defined: at each of these, and nowhere else. -/
structure Cuts (lookup : Lookup) (ns s : List Char) (hits : List Hit) (rest : List Char) : Prop where
  text : hits.flatMap Hit.source ++ rest = s
  defines : ∀ h ∈ hits, Defines lookup ns h.name h.value
  places : ∀ i name, (i, name) ∈ Hit.places 0 hits ↔ ∃ value, DefinedAt lookup ns s i name value

variable {h : Hit} {hits : List Hit} {rest : List Char}

theorem tokenAt_source (hname : IsName h.name) (s : List Char) :
    TokenAt (h.source ++ s) h.before.length h.name := by
  rw [Hit.source, List.append_assoc]
  exact (tokenAt_append_left (i := 0) h.before _).2 (.zero hname s)

/-- A token of a text with a token is in front of this one, is this one, or stands behind it. -/
theorem definedAt_source (hname : IsName h.name)
    (hat : DefinedAt lookup ns (h.source ++ s) i name value) :
    i < h.before.length ∨ (i = h.before.length ∧ name = h.name) ∨
      ∃ j, h.source.length + j = i ∧ DefinedAt lookup ns s j name value := by
  obtain hlt | rfl | hlt := Nat.lt_trichotomy i h.before.length
  · exact .inl hlt
  · exact .inr (.inl ⟨rfl, hat.1.name_eq (tokenAt_source hname s)⟩)
  · have hle := (tokenAt_source hname s).length_le hat.1 hlt
    rw [← h.length_source] at hle
    obtain ⟨j, rfl⟩ := Nat.exists_eq_add_of_le hle
    exact .inr (.inr ⟨j, rfl, (definedAt_append_left h.source s).1 hat⟩)

/-- A text can be cut at its first token that is defined, and then further on. -/
theorem Cuts.cons
    (hfree : ∀ i < h.before.length, ∀ name value,
      ¬ DefinedAt lookup ns (h.source ++ s) i name value)
    (hname : IsName h.name) (hvalue : Defines lookup ns h.name h.value)
    (hcut : Cuts lookup ns s hits rest) : Cuts lookup ns (h.source ++ s) (h :: hits) rest where
  text := by rw [List.flatMap_cons, List.append_assoc, hcut.text]
  defines := List.forall_mem_cons.2 ⟨hvalue, hcut.defines⟩
  places i name := by
    rw [Hit.mem_places_cons]
    constructor
    · rintro (⟨rfl, rfl⟩ | ⟨j, rfl, hj⟩)
      · exact ⟨h.value, tokenAt_source hname s, hvalue⟩
      · obtain ⟨value, hat⟩ := (hcut.places j name).1 hj
        exact ⟨value, (definedAt_append_left h.source s).2 hat⟩
    · rintro ⟨value, hat⟩
      obtain hlt | heq | ⟨j, hj, hat⟩ := definedAt_source hname hat
      · exact absurd hat (hfree i hlt name value)
      · exact .inl heq
      · exact .inr ⟨j, hj, (hcut.places j name).2 ⟨value, hat⟩⟩

theorem Cuts.text_cons (hcut : Cuts lookup ns s (h :: hits) rest) :
    h.source ++ (hits.flatMap Hit.source ++ rest) = s := by
  rw [← hcut.text, List.flatMap_cons, List.append_assoc]

/-- Behind the first token that it is cut at, a text is cut at its tokens, too. -/
theorem Cuts.tail (hcut : Cuts lookup ns (h.source ++ s) (h :: hits) rest) :
    (∀ i < h.before.length, ∀ name value, ¬ DefinedAt lookup ns (h.source ++ s) i name value) ∧
      (IsName h.name ∧ Defines lookup ns h.name h.value) ∧ Cuts lookup ns s hits rest := by
  have hlength := h.length_source
  obtain ⟨hvalue, hvalues⟩ := List.forall_mem_cons.1 hcut.defines
  obtain ⟨_, hat, -⟩ := (hcut.places _ _).1 (Hit.mem_places_cons.2 (.inl ⟨rfl, rfl⟩))
  refine ⟨fun i hi name value hat => ?_, ⟨hat.isName, hvalue⟩, ?_, hvalues, fun j name => ?_⟩
  · obtain ⟨rfl, -⟩ | ⟨j, rfl, -⟩ := Hit.mem_places_cons.1 ((hcut.places i name).2 ⟨value, hat⟩)
    · exact Nat.lt_irrefl _ hi
    · omega
  · exact List.append_cancel_left hcut.text_cons
  · have hshift : (∃ value, DefinedAt lookup ns s j name value) ↔
        (h.source.length + j, name) ∈ Hit.places 0 (h :: hits) := by
      rw [hcut.places]
      exact exists_congr fun value => (definedAt_append_left h.source s).symm
    have hpos := length_token h.name
    rw [hshift, Hit.mem_places_cons]
    constructor
    · intro hj
      exact .inr ⟨j, rfl, hj⟩
    · rintro (⟨heq, -⟩ | ⟨k, hk, hmem⟩)
      · omega
      · rwa [Nat.add_left_cancel hk] at hmem

/-- **Every text can be cut at its tokens.** -/
theorem exists_cuts (lookup : Lookup) (ns s : List Char) :
    ∃ hits rest, Cuts lookup ns s hits rest := by
  classical
  induction hn : s.length using Nat.strong_induction_on generalizing s with
  | h n ih =>
    by_cases h : ∃ i name value, DefinedAt lookup ns s i name value
    · obtain ⟨name, value, hat⟩ := Nat.find_spec h
      have hfirst := fun i (hi : i < Nat.find h) => Nat.find_min h hi
      obtain ⟨r, hr⟩ := hat.1.standsAt
      let hit : Hit := ⟨s.take (Nat.find h), name, value⟩
      have htext : hit.source ++ r = s := by
        rw [Hit.source, List.append_assoc, hr, List.take_append_drop]
      have hshorter : r.length < n := by
        rw [← hn, ← htext, List.length_append, hit.length_source, length_token]
        omega
      obtain ⟨hits, rest, hcut⟩ := ih r.length hshorter r rfl
      refine ⟨hit :: hits, rest, htext ▸ hcut.cons (fun i hi name value hat => ?_) hat.1.isName hat.2⟩
      rw [htext] at hat
      exact hfirst i (Nat.lt_of_lt_of_le hi (List.length_take_le _ _)) ⟨name, value, hat⟩
    · refine ⟨[], s, rfl, by simp, fun i name => iff_of_false (by simp [Hit.places]) ?_⟩
      rintro ⟨value, hat⟩
      exact h ⟨i, name, value, hat⟩

/-- The text up to the end of the first token, and the text behind it. -/
theorem chars_source
    (hfree : ∀ i < h.before.length, ∀ name value,
      ¬ DefinedAt lookup ns (h.source ++ s) i name value)
    (hname : IsName h.name) (hvalue : Defines lookup ns h.name h.value) :
    chars lookup ns (h.source ++ s) = (h.result ++ (chars lookup ns s).1, true) := by
  rw [Hit.source, List.append_assoc] at hfree ⊢
  rw [chars_append_of_free hfree, chars_token hname hvalue, Hit.result, List.append_assoc]

/-- **The tokens that are defined are replaced, and nothing else.** -/
theorem chars_of_cuts : ∀ {hits : List Hit} {s rest : List Char}, Cuts lookup ns s hits rest →
    chars lookup ns s = (hits.flatMap Hit.result ++ rest, !hits.isEmpty)
  | [], s, rest, hcut => by
    obtain rfl : rest = s := hcut.text
    have hfree : ∀ i < rest.length, ∀ name value, ¬ DefinedAt lookup ns (rest ++ []) i name value := by
      rw [List.append_nil]
      intro i _ name value hat
      cases (hcut.places i name).2 ⟨value, hat⟩
    have hchars := chars_append_of_free hfree
    rwa [List.append_nil, show chars lookup ns [] = ([], false) from rfl, List.append_nil] at hchars
  | h :: hits, s, rest, hcut => by
    have htext := hcut.text_cons
    obtain ⟨hfree, ⟨hname, hvalue⟩, hrest⟩ := (htext.symm ▸ hcut).tail
    rw [← htext, chars_source hfree hname hvalue, chars_of_cuts hrest, List.flatMap_cons,
      List.append_assoc]
    rfl

/-! ### Texts one by one -/

/-- No token of two texts together lies across the end of the first. -/
def NoneAcross (s t : List Char) : Prop :=
  ∀ i name, TokenAt (s ++ t) i name → i + (token name).length ≤ s.length ∨ s.length ≤ i

instance (s t : List Char) : Decidable (NoneAcross s t) :=
  decidable_of_iff (∀ i < s.length, ∀ name ∈ nameAt? ((s ++ t).drop i),
      i + (token name).length ≤ s.length) <| by
    refine ⟨fun h i name hat => ?_, fun h i hi name hname => ?_⟩
    · rcases Nat.lt_or_ge i s.length with hi | hi
      · exact .inl (h i hi name (tokenAt_iff.1 hat))
      · exact .inr hi
    · exact (h i name (tokenAt_iff.2 hname)).resolve_right (Nat.not_le.2 hi)

/-- Then a token that begins in the first text is one of this text. -/
theorem NoneAcross.definedAt (h : NoneAcross s t) (hi : i < s.length)
    (hat : DefinedAt lookup ns (s ++ t) i name value) : DefinedAt lookup ns s i name value := by
  refine ⟨⟨hat.1.isName, ?_⟩, hat.2⟩
  have hle := (h i name hat.1).resolve_right (Nat.not_le.2 hi)
  have hstands : token name <+: s.drop i ++ t :=
    List.drop_append_of_le_length (Nat.le_of_lt hi) ▸ hat.1.standsAt
  refine List.prefix_of_prefix_length_le hstands (List.prefix_append _ t) ?_
  rw [List.length_drop]
  omega

theorem NoneAcross.of_append {w : List Char} (h : NoneAcross (w ++ s) t) : NoneAcross s t := by
  intro i name hat
  have hat := (tokenAt_append_left w (s ++ t)).2 hat
  rw [← List.append_assoc] at hat
  have hside := h _ name hat
  rw [List.length_append] at hside
  omega

/-- **Texts can be substituted one by one**, if no token lies across their ends. -/
theorem chars_append : ∀ {hits : List Hit} {s rest : List Char}, Cuts lookup ns s hits rest →
    NoneAcross s t → chars lookup ns (s ++ t) =
      ((chars lookup ns s).1 ++ (chars lookup ns t).1,
        (chars lookup ns s).2 || (chars lookup ns t).2)
  | [], s, rest, hcut, hacross => by
    have hfree : ∀ i < s.length, ∀ name value, ¬ DefinedAt lookup ns (s ++ t) i name value := by
      intro i hi name value hat
      cases (hcut.places i name).2 ⟨value, hacross.definedAt hi hat⟩
    have htext : rest = s := hcut.text
    rw [chars_append_of_free hfree, chars_of_cuts hcut, htext]
    rfl
  | h :: hits, s, rest, hcut, hacross => by
    have htext := hcut.text_cons
    generalize hits.flatMap Hit.source ++ rest = r at htext
    subst htext
    obtain ⟨hfree, ⟨hname, hvalue⟩, hrest⟩ := hcut.tail
    have hfreet : ∀ i < h.before.length, ∀ name value,
        ¬ DefinedAt lookup ns (h.source ++ (r ++ t)) i name value := by
      intro i hi name value hat
      rw [← List.append_assoc] at hat
      have hlt : i < (h.source ++ r).length := by
        rw [List.length_append, h.length_source]
        omega
      exact hfree i hi name value (hacross.definedAt hlt hat)
    rw [List.append_assoc, chars_source hfreet hname hvalue, chars_source hfree hname hvalue,
      chars_append hrest hacross.of_append, List.append_assoc]
    rfl

/-- **Exactly the tokens that are defined are replaced, in one pass.**  No two tokens of a text
overlap.  The text can be cut at its tokens that are defined, and however it is cut there, it becomes
what stands between them with their values in their places; it says that it has changed if there is
such a token.  If no token lies across the end of a text, what follows can be substituted by itself. -/
theorem text_replaces_tokens (lookup : Lookup) (ns s : String) :
    let out := text lookup ns s
    (∀ i j m n, TokenAt s.toList i m → TokenAt s.toList j n →
      (i = j ∧ m = n) ∨ i + (token m).length ≤ j ∨ j + (token n).length ≤ i) ∧
    (∃ hits rest, Cuts lookup ns.toList s.toList hits rest) ∧
    (∀ hits rest, Cuts lookup ns.toList s.toList hits rest →
      out.1.toList = hits.flatMap Hit.result ++ rest) ∧
    (out.2 = true ↔ ∃ i name value, DefinedAt lookup ns.toList s.toList i name value) ∧
    ∀ t : String, NoneAcross s.toList t.toList →
      text lookup ns (s ++ t) = (out.1 ++ (text lookup ns t).1, out.2 || (text lookup ns t).2) := by
  intro out
  obtain ⟨hits, rest, hcut⟩ := exists_cuts lookup ns.toList s.toList
  refine ⟨fun i j m n hm hn => hm.apart hn, ⟨hits, rest, hcut⟩, fun hits rest hcut => ?_, ?_,
    fun t hacross => ?_⟩
  · have hout : out.1.toList = (chars lookup ns.toList s.toList).1 := String.toList_ofList
    rw [hout, chars_of_cuts hcut]
  · have hout : out.2 = !hits.isEmpty := congrArg Prod.snd (chars_of_cuts hcut)
    rw [hout]
    constructor
    · intro hne
      obtain ⟨h, hs, rfl⟩ := List.exists_cons_of_ne_nil (by simpa using hne : hits ≠ [])
      exact ⟨_, _, (hcut.places _ _).1 List.mem_cons_self⟩
    · rintro ⟨i, name, hat⟩
      cases hits with
      | nil => cases (hcut.places i name).2 hat
      | cons h hs => rfl
  · have hchars := chars_append hcut hacross
    rw [← String.toList_append] at hchars
    rw [text, hchars]
    exact congrArg (·, _) String.ofList_append

/-- A value with a token in it, a token behind an opening without an end, one of another namespace,
and an opening before the end of the first text that makes a token with a value. -/
theorem text_replaces_tokens_nested :
    let lookup : Lookup := .ofEntries [("a", "$\x7bb\x7d"), ("b", "1")]
    let s := "$\x7bo::b\x7d$\x7ba\x7d$\x7b"
    let t := "b$\x7bns::b\x7d\x7d"
    NoneAcross s.toList t.toList ∧
      text lookup "ns" s = ("$\x7bo::b\x7d$\x7bb\x7d$\x7b", true) ∧
      text lookup "ns" t = ("b1\x7d", true) ∧
      text lookup "ns" (s ++ t) = ("$\x7bo::b\x7d$\x7bb\x7d$\x7bb1\x7d", true) := by
  intro lookup s t
  have hacross : NoneAcross s.toList t.toList := by decide +kernel
  have hs : text lookup "ns" s = ("$\x7bo::b\x7d$\x7bb\x7d$\x7b", true) := by decide +kernel
  have ht : text lookup "ns" t = ("b1\x7d", true) := by decide +kernel
  obtain ⟨-, -, -, -, happend⟩ := text_replaces_tokens lookup "ns" s
  have happend := happend t hacross
  rw [hs, ht] at happend
  exact ⟨hacross, hs, ht, happend⟩

end YamlQuery.Substitute

import Mathlib.Data.List.Infix
import YamlQuery.Text.Split

/-!
# Proofs.Text.Occurrences — where a text is cut

A text is cut at the leftmost occurrences of the separator that do not overlap (`Occurrences`): there
is one piece more than there are of these (`exists_occurrences`), and no piece contains the separator
(`not_infix_of_mem_splitOn`).  Cut once, it is cut at the first occurrence (`cut_eq_some_iff`).

Pieces that are joined can be joined in groups (`join_append`).  The empty ones among them cannot be
left out, unless nothing is left of the text (`join_filter_eq_iff`).
-/

namespace YamlQuery.Text

/-! ### Occurrences of a separator -/

/-- The separator stands at a place of the text. -/
def StandsAt (sep s : List Char) (i : Nat) : Prop := sep <+: s.drop i

/-- The leftmost occurrences of the separator that do not overlap, from a place of the text on: each
is the first one behind the end of the one before it. -/
inductive Occurrences (sep s : List Char) : Nat → List Nat → Prop
  | none {n : Nat} : (∀ i, n ≤ i → ¬ StandsAt sep s i) → Occurrences sep s n []
  | next {n i : Nat} {places : List Nat} : n ≤ i → StandsAt sep s i →
      (∀ j, n ≤ j → j < i → ¬ StandsAt sep s j) → Occurrences sep s (i + sep.length) places →
        Occurrences sep s n (i :: places)

variable {sep s : List Char}

theorem infix_iff_exists_standsAt : sep <:+: s ↔ ∃ i, StandsAt sep s i := by
  constructor
  · rintro ⟨before, rest, rfl⟩
    exact ⟨before.length, rest, by rw [List.append_assoc, List.drop_left]⟩
  · rintro ⟨i, h⟩
    exact h.isInfix.trans (List.drop_suffix i s).isInfix

/-- There is only one way to take the leftmost occurrences. -/
theorem Occurrences.unique {n : Nat} {places others : List Nat} (h : Occurrences sep s n places)
    (h' : Occurrences sep s n others) : places = others := by
  induction h generalizing others with
  | none hnone =>
    cases h' with
    | none => rfl
    | next hle hat => exact absurd hat (hnone _ hle)
  | @next n i places hle hat hfirst _ ih =>
    cases h' with
    | none hnone => exact absurd hat (hnone i hle)
    | @next _ j _ hle' hat' hfirst' h' =>
      obtain hlt | rfl | hlt := Nat.lt_trichotomy i j
      · exact absurd hat (hfirst' i hle hlt)
      · rw [ih h']
      · exact absurd hat' (hfirst j hle' hlt)

/-- A place where the separator does not stand can be passed over. -/
theorem Occurrences.of_succ {n : Nat} {places : List Nat} (hn : ¬ StandsAt sep s n)
    (h : Occurrences sep s (n + 1) places) : Occurrences sep s n places := by
  have hfrom {i : Nat} (hi : n ≤ i) : i = n ∨ n + 1 ≤ i := by omega
  cases h with
  | none hnone =>
    refine .none fun i hi => ?_
    obtain rfl | hi := hfrom hi
    · exact hn
    · exact hnone i hi
  | next hle hat hfirst h =>
    refine .next (by omega) hat (fun j hj hlt => ?_) h
    obtain rfl | hj := hfrom hj
    · exact hn
    · exact hfirst j hj hlt

theorem length_consHead {ws : List (List Char)} (c : Char) (h : ws ≠ []) :
    (consHead c ws).length = ws.length := by
  obtain ⟨w, ws, rfl⟩ := List.exists_cons_of_ne_nil h
  rfl

/-- What is left of a text from a place on is cut at the occurrences from there on. -/
theorem exists_occurrences_drop (hsep : sep ≠ []) : ∀ (t : List Char) (n skip : Nat),
    s.drop n = t → ∃ places, Occurrences sep s (n + skip) places ∧
      (splitFrom sep skip t).length = places.length + 1
  | [], n, skip, h => by
    refine ⟨[], .none fun i hi hat => hsep ?_, by cases skip <;> rfl⟩
    have hnil : s.drop i = [] := by
      rw [List.drop_eq_nil_iff] at h ⊢
      omega
    rwa [StandsAt, hnil, List.prefix_nil] at hat
  | c :: t, n, skip, h => by
    have hrest : s.drop (n + 1) = t := by
      rw [← List.drop_drop, h]
      rfl
    cases skip with
    | succ skip =>
      obtain ⟨places, hplaces, hlength⟩ := exists_occurrences_drop hsep t (n + 1) skip hrest
      refine ⟨places, ?_, hlength⟩
      rwa [Nat.add_right_comm] at hplaces
    | zero =>
      have hat : StandsAt sep s n ↔ sep.isPrefixOf (c :: t) = true := by
        rw [StandsAt, h, List.isPrefixOf_iff_prefix]
      rw [splitFrom]
      split
      · next hstart =>
        have hpos : 0 < sep.length := List.length_pos_iff.2 hsep
        obtain ⟨places, hplaces, hlength⟩ :=
          exists_occurrences_drop hsep t (n + 1) (sep.length - 1) hrest
        refine ⟨n :: places, .next (Nat.le_refl n) (hat.2 hstart) (fun j hj hlt => ?_) ?_, ?_⟩
        · omega
        · rwa [show n + 1 + (sep.length - 1) = n + sep.length by omega] at hplaces
        · rw [List.length_cons, hlength, List.length_cons]
      · next hstart =>
        obtain ⟨places, hplaces, hlength⟩ := exists_occurrences_drop hsep t (n + 1) 0 hrest
        refine ⟨places, .of_succ (mt hat.1 hstart) hplaces, ?_⟩
        rw [length_consHead c (splitFrom_ne_nil sep 0 t), hlength]

/-- **There is one piece more than there are occurrences.** -/
theorem exists_occurrences (hsep : sep ≠ []) (s : List Char) :
    ∃ places, Occurrences sep s 0 places ∧ (splitOn sep s).length = places.length + 1 :=
  exists_occurrences_drop hsep s 0 0 List.drop_zero

/-! ### The first occurrence -/

theorem after?_eq_some_iff :
    ∀ {start s rest : List Char}, after? start s = some rest ↔ start ++ rest = s
  | [], s, rest => by rw [after?, Option.some_inj, List.nil_append, eq_comm]
  | p :: start, [], rest => by simp [after?]
  | p :: start, c :: s, rest => by
    rw [after?, List.cons_append, List.cons.injEq]
    split
    · next h => rw [after?_eq_some_iff, and_iff_right h]
    · next h => simp [h]

theorem after?_eq_none_iff {start s : List Char} : after? start s = none ↔ ¬ start <+: s := by
  rw [Option.eq_none_iff_forall_ne_some, List.IsPrefix, not_exists]
  exact forall_congr' fun rest => not_congr after?_eq_some_iff

/-- The text before the first occurrence and the text behind it. -/
theorem cut_eq_some_iff (hsep : sep ≠ []) : ∀ {s before rest : List Char},
    cut sep s = some (before, rest) ↔
      before ++ sep ++ rest = s ∧ ∀ i < before.length, ¬ StandsAt sep s i
  | [], before, rest => by simp [cut, hsep]
  | c :: s, before, rest => by
    rw [cut]
    cases hstart : after? sep (c :: s) with
    | some r =>
      have hr : sep ++ r = c :: s := after?_eq_some_iff.1 hstart
      cases before with
      | nil => simp [← hr, eq_comm]
      | cons b before =>
        refine iff_of_false (by simp) fun h => ?_
        exact h.2 0 (Nat.succ_pos _) ⟨r, hr⟩
    | none =>
      have hnot : ¬ sep <+: c :: s := after?_eq_none_iff.1 hstart
      cases before with
      | nil =>
        refine iff_of_false (by simp) fun h => ?_
        exact hnot ⟨rest, h.1⟩
      | cons b before =>
        have hlater : (∀ i < (b :: before).length, ¬ StandsAt sep (c :: s) i) ↔
            ∀ i < before.length, ¬ StandsAt sep s i := by
          rw [List.length_cons, Nat.forall_lt_succ_left']
          exact and_iff_right hnot
        rw [hlater, List.cons_append, List.cons_append, List.cons.injEq, and_assoc,
          ← cut_eq_some_iff hsep]
        simp [Option.map_eq_some_iff, eq_comm (a := b), and_comm]

theorem cut_eq_none_iff (hsep : sep ≠ []) : cut sep s = none ↔ ¬ sep <:+: s := by
  induction s with
  | nil => simp [cut, hsep]
  | cons c s ih =>
    rw [cut, List.infix_cons_iff, not_or, ← ih, ← after?_eq_none_iff]
    cases after? sep (c :: s) <;> simp

/-! ### Pieces -/

/-- What is cut off first is the start of the text. -/
theorem prefix_of_splitFrom_eq_cons (hsep : sep ≠ []) {n : Nat} {w : List Char}
    {ws : List (List Char)} (h : splitFrom sep n s = w :: ws) : w <+: s.drop n := by
  rw [← join_splitFrom hsep n s, h]
  by_cases hws : ws = []
  · rw [hws]
    exact List.prefix_rfl
  · rw [join_cons hws, List.append_assoc]
    exact List.prefix_append w _

theorem not_infix_of_mem_splitFrom (hsep : sep ≠ []) :
    ∀ (n : Nat) (s : List Char), ∀ w ∈ splitFrom sep n s, ¬ sep <:+: w
  | n, [], w, hw => by
    have hnil : splitFrom sep n [] = [[]] := by cases n <;> rfl
    rw [hnil, List.mem_singleton] at hw
    rw [hw, List.infix_nil]
    exact hsep
  | n + 1, _ :: s, w, hw => not_infix_of_mem_splitFrom hsep n s w hw
  | 0, c :: s, w, hw => by
    have ih := not_infix_of_mem_splitFrom hsep 0 s
    rw [splitFrom] at hw
    split at hw
    · obtain rfl | hw := List.mem_cons.1 hw
      · rw [List.infix_nil]
        exact hsep
      · exact not_infix_of_mem_splitFrom hsep (sep.length - 1) s w hw
    · next hstart =>
      obtain ⟨v, vs, hvs⟩ := List.exists_cons_of_ne_nil (splitFrom_ne_nil sep 0 s)
      rw [hvs] at hw ih
      obtain rfl | hw := List.mem_cons.1 hw
      · -- the separator would stand at the start of the text, or in the piece behind the character
        intro hinfix
        obtain hfirst | hinfix := List.infix_cons_iff.1 hinfix
        · have hv : c :: v <+: c :: s :=
            List.cons_prefix_cons.2 ⟨rfl, prefix_of_splitFrom_eq_cons hsep hvs⟩
          exact hstart (List.isPrefixOf_iff_prefix.2 (hfirst.trans hv))
        · exact ih v List.mem_cons_self hinfix
      · exact ih w (List.mem_cons_of_mem v hw)

/-- **No piece contains the separator.** -/
theorem not_infix_of_mem_splitOn (hsep : sep ≠ []) {w : List Char} (h : w ∈ splitOn sep s) :
    ¬ sep <:+: w :=
  not_infix_of_mem_splitFrom hsep 0 s w h

/-! ### Joining -/

variable {ws vs : List (List Char)}

theorem join_append (hws : ws ≠ []) (hvs : vs ≠ []) :
    join sep (ws ++ vs) = join sep ws ++ sep ++ join sep vs := by
  induction ws with
  | nil => exact absurd rfl hws
  | cons w ws ih =>
    by_cases hnil : ws = []
    · rw [hnil, List.singleton_append, join_cons hvs]
      rfl
    · rw [List.cons_append, join_cons (List.append_ne_nil_of_left_ne_nil hnil vs), join_cons hnil,
        ih hnil]
      simp only [List.append_assoc]

theorem join_eq_nil_iff (hsep : sep ≠ []) : join sep ws = [] ↔ ws = [] ∨ ws = [[]] := by
  match ws with
  | [] => simp [join]
  | [w] => simp [join]
  | w :: v :: ws => simp [join, hsep]

/-- A joined text is as long as its pieces and the separators between them. -/
theorem length_join (h : ws ≠ []) : (join sep ws).length + sep.length =
    ws.flatten.length + ws.length * sep.length := by
  induction ws with
  | nil => exact absurd rfl h
  | cons w ws ih =>
    by_cases hnil : ws = []
    · simp [hnil, join]
    · have ih := ih hnil
      rw [join_cons hnil, List.length_append, List.length_append, List.flatten_cons,
        List.length_append, List.length_cons, Nat.succ_mul]
      omega

/-- **Empty pieces count.**  A text of pieces is the same without the empty ones only if there are
none of them, unless it is empty itself. -/
theorem join_filter_eq_iff (hsep : sep ≠ []) (h : join sep ws ≠ []) :
    join sep (ws.filter (· ≠ [])) = join sep ws ↔ [] ∉ ws := by
  constructor
  · intro heq
    have hws : ws ≠ [] := fun hnil => h (by rw [hnil]; rfl)
    have hfilter : ws.filter (· ≠ []) ≠ [] := fun hnil => h (by rw [← heq, hnil]; rfl)
    have hlength : (join sep (ws.filter (· ≠ []))).length + sep.length = _ := length_join hfilter
    rw [heq, length_join hws, List.flatten_filter_ne_nil] at hlength
    have hsame : (ws.filter (· ≠ [])).length = ws.length := by
      refine Nat.eq_of_mul_eq_mul_right (List.length_pos_iff.2 hsep) ?_
      omega
    have hall := List.length_filter_eq_length_iff.1 hsame
    exact fun hmem => by simpa using hall [] hmem
  · intro hmem
    have hall : ∀ w ∈ ws, decide (w ≠ []) = true := by
      intro w hw
      exact decide_eq_true fun hnil => hmem (hnil ▸ hw)
    rw [List.filter_eq_self.2 hall]

/-- Pieces as one piece, if there are any. -/
def group (sep : List Char) (ws : List (List Char)) : List (List Char) :=
  if ws = [] then [] else [join sep ws]

theorem group_nil : group sep [] = [] := if_pos rfl

theorem group_of_ne_nil (h : ws ≠ []) : group sep ws = [join sep ws] := if_neg h

theorem nil_mem_group_iff (hsep : sep ≠ []) : [] ∈ group sep ws ↔ ws = [[]] := by
  by_cases h : ws = []
  · simp [h, group_nil]
  · rw [group_of_ne_nil h, List.mem_singleton, eq_comm, join_eq_nil_iff hsep]
    simp [h]

theorem filter_group (sep : List Char) (ws : List (List Char)) :
    (group sep ws).filter (· ≠ []) = [join sep ws].filter (· ≠ []) := by
  by_cases h : ws = []
  · rw [h, group_nil]
    rfl
  · rw [group_of_ne_nil h]

theorem filter_groups (sep w : List Char) (ws vs : List (List Char)) :
    (group sep ws ++ w :: group sep vs).filter (· ≠ []) =
      [join sep ws, w, join sep vs].filter (· ≠ []) := by
  have hparts : [join sep ws, w, join sep vs] = [join sep ws] ++ ([w] ++ [join sep vs]) := rfl
  rw [hparts, ← List.singleton_append, List.filter_append, List.filter_append, List.filter_append,
    List.filter_append, filter_group, filter_group]

/-- The pieces before and behind one of them can each be joined first. -/
theorem join_group (sep w : List Char) (ws vs : List (List Char)) :
    join sep (group sep ws ++ w :: group sep vs) = join sep (ws ++ w :: vs) := by
  have hbehind : join sep (w :: group sep vs) = join sep (w :: vs) := by
    by_cases hvs : vs = []
    · rw [hvs, group_nil]
    · rw [group_of_ne_nil hvs, join_cons hvs]
      rfl
  by_cases hws : ws = []
  · rw [hws, group_nil]
    exact hbehind
  · rw [group_of_ne_nil hws, List.singleton_append, join_cons (List.cons_ne_nil w _), hbehind,
      join_append hws (List.cons_ne_nil w vs)]

end YamlQuery.Text

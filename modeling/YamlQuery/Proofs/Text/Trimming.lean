import Mathlib.Data.List.DropRight
import YamlQuery.Text.Blank

/-!
# Proofs.Text.Trimming — blanks at the ends of a text

What trimming does to a text with others in front of it and behind it.  Blanks that are added at the
ends make no difference (`trim_between`), and a trimmed text has none at either end (`trimStart_trim`,
`trimEnd_trim`).
-/

namespace YamlQuery.Text

variable {s t : List Char} {c : Char}

/-! ### Blanks at the end -/

theorem trimEnd_append (h : trimEnd t ≠ []) : trimEnd (s ++ t) = s ++ trimEnd t := by
  have hne : t.reverse.dropWhile isBlank ≠ [] := mt List.reverse_eq_nil_iff.2 h
  rw [trimEnd, List.reverse_append, List.dropWhile_append, if_neg (by simpa using hne),
    List.reverse_append, List.reverse_reverse]
  rfl

theorem trimEnd_append_of_blank (h : t.all isBlank) : trimEnd (s ++ t) = trimEnd s := by
  have hblank : ∀ c ∈ t.reverse, isBlank c := fun c hc =>
    List.all_eq_true.1 h c (List.mem_reverse.1 hc)
  rw [trimEnd, List.reverse_append, List.dropWhile_append_of_pos hblank]
  rfl

theorem trimEnd_cons_of_not_isBlank (h : isBlank c = false) (s : List Char) :
    trimEnd (c :: s) = c :: trimEnd s := by
  by_cases hs : trimEnd s = []
  · have hblank : s.all isBlank := by
      rw [List.all_eq_true]
      exact List.rdropWhile_eq_nil_iff.1 hs
    rw [← List.singleton_append, trimEnd_append_of_blank hblank, hs]
    exact trimEnd_append_of_not_isBlank (s := []) h
  · rw [← List.singleton_append, trimEnd_append hs]
    rfl

theorem trimEnd_append_eq_self (hs : trimEnd s = s) (ht : trimEnd t = t) :
    trimEnd (s ++ t) = s ++ t := by
  by_cases hnil : t = []
  · rw [hnil, List.append_nil, hs]
  · rw [trimEnd_append (by rwa [ht]), ht]

/-- A text is its trimmed form with blanks behind it. -/
theorem exists_blanks (s : List Char) : ∃ t, s = trimEnd s ++ t ∧ t.all isBlank :=
  ⟨s.rtakeWhile isBlank, List.rdropWhile_append_rtakeWhile.symm,
    List.all_eq_true.2 fun _ hc => List.mem_rtakeWhile_imp hc⟩

theorem trimEnd_prefix_self (s : List Char) : trimEnd s <+: s := List.rdropWhile_prefix isBlank s

theorem takeWhile_trimEnd (s : List Char) :
    (trimEnd s).takeWhile (! isBlank ·) = s.takeWhile (! isBlank ·) := by
  obtain ⟨t, hsplit, hblank⟩ := exists_blanks s
  have hnone : t.takeWhile (! isBlank ·) = [] := by
    rw [List.takeWhile_eq_nil_iff]
    intro hpos
    simpa using List.all_eq_true.1 hblank _ (List.getElem_mem hpos)
  conv_rhs => rw [hsplit]
  rw [List.takeWhile_append, hnone, List.append_nil]
  split
  case isTrue hlen => exact (List.takeWhile_prefix _).eq_of_length hlen
  case isFalse => rfl

theorem trim_infix (s : List Char) : trim s <:+: s :=
  (trimEnd_prefix_self (trimStart s)).isInfix.trans (List.dropWhile_suffix _).isInfix

/-! ### Blanks at both ends -/

theorem trim_eq_self {s : List Char} (hne : s ≠ []) (hhead : isBlank (s.head hne) = false)
    (hlast : isBlank (s.getLast hne) = false) : trim s = s := by
  rw [trim, ← List.cons_head_tail hne, trimStart_cons_of_not_isBlank hhead, List.cons_head_tail,
    ← List.dropLast_concat_getLast hne, trimEnd_append_of_not_isBlank hlast]

@[simp] theorem trimStart_trimStart (s : List Char) : trimStart (trimStart s) = trimStart s :=
  List.dropWhile_idempotent isBlank s

theorem not_isBlank_of_trimStart_eq_cons (h : trimStart s = c :: t) : isBlank c = false := by
  have hhead := List.head?_dropWhile_not isBlank s
  rw [show s.dropWhile isBlank = c :: t from h] at hhead
  simpa using hhead

@[simp] theorem trimEnd_trim (s : List Char) : trimEnd (trim s) = trim s :=
  List.rdropWhile_idempotent isBlank (trimStart s)

@[simp] theorem trimStart_trim (s : List Char) : trimStart (trim s) = trim s := by
  unfold trim
  cases h : trimStart s with
  | nil => rfl
  | cons c t =>
    have hc := not_isBlank_of_trimStart_eq_cons h
    rw [trimEnd_cons_of_not_isBlank hc, trimStart_cons_of_not_isBlank hc]

theorem trimStart_append (s t : List Char) : trimStart (s ++ t) =
    if (trimStart s).isEmpty then trimStart t else trimStart s ++ t :=
  List.dropWhile_append

/-- Blanks may be added at both ends of a text. -/
theorem trim_between {u : List Char} (hs : s.all isBlank) (hu : u.all isBlank) :
    trim (s ++ t ++ u) = trim t := by
  have hstart : trimStart (s ++ t ++ u) = trimStart (t ++ u) := by
    rw [List.append_assoc]
    exact List.dropWhile_append_of_pos (List.all_eq_true.1 hs)
  have hblank : trimStart u = [] := List.dropWhile_eq_nil_iff.2 (List.all_eq_true.1 hu)
  unfold trim
  rw [hstart, trimStart_append]
  by_cases ht : trimStart t = []
  · simp [ht, hblank]
  · simp [ht, trimEnd_append_of_blank hu]

end YamlQuery.Text

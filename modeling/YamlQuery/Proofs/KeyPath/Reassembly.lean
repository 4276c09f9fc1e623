import YamlQuery.Proofs.Pattern.Segments
import YamlQuery.Proofs.Text.Occurrences

/-!
# Proofs.KeyPath.Reassembly — the text of a path from its segments

A path is its text without the blanks around it, cut at the delimiter (`KeyPath.IsCut`), so its
segments with the delimiter between them are this text again, also if they are first parted at the
cursor (`KeyPath.joined_of_parse`).

The texts before, at and behind the cursor give the text of the path as well.  But if the empty ones
of the three are left out, because nothing may be there, then an empty segment gets lost with its
delimiter: `KeyPath.rejoined_eq_text_iff` says where.
-/

namespace YamlQuery

theorem Text.toList_joined (sep : String) (ws : List String) :
    (joined sep ws).toList = join sep.toList (ws.map String.toList) := String.toList_ofList

namespace KeyPath

variable {text delimiter : String} {engine : Pattern.Engine} {path p : KeyPath} {s : Segment}

/-! ### A path as a cut text -/

/-- The path has been cut from a text, and nothing of it has been used. -/
structure IsCut (path : KeyPath) (text delimiter : String) : Prop where
  ne_nil : delimiter.toList ≠ []
  delimiter_eq : path.delimiter = delimiter
  text_eq : path.text = Text.trimmed text
  text_ne_nil : path.text.toList ≠ []
  cursor_eq : path.cursor = 0
  raws : path.segments.map (·.raw.toList) = Text.splitOn delimiter.toList path.text.toList

theorem isCut_of_parse (h : parse text delimiter engine = .ok path) : path.IsCut text delimiter := by
  unfold parse at h
  dsimp only at h
  split at h
  · cases h
  · next hd =>
    split at h
    · cases h
    · next ht =>
      split at h
      · next hss =>
        cases h
        have hraws := raw_of_segmentsFrom hss
        refine ⟨by simpa using hd, rfl, rfl, ?_, rfl, ?_⟩
        · simpa using ht
        · rw [hraws, String.toList_ofList]
      · cases h

theorem toList_joined_raws (p : KeyPath) (ss : List Segment) :
    (p.joined ss).toList = Text.join p.delimiter.toList (ss.map (·.raw.toList)) := by
  rw [joined, Text.toList_joined, List.map_map]
  rfl

namespace IsCut

variable (h : path.IsCut text delimiter)

include h

theorem join_raws :
    Text.join delimiter.toList (path.segments.map (·.raw.toList)) = path.text.toList := by
  rw [h.raws, Text.join_splitOn h.ne_nil]

theorem joined_segments : path.joined path.segments = path.text := by
  rw [← String.toList_inj, toList_joined_raws, h.delimiter_eq, h.join_raws]

end IsCut

/-! ### Moving the cursor on -/

/-- The cursor goes one segment further each time, up to the end of the path. -/
theorem iterate_advanced (hp : p.cursor ≤ p.length) (n : Nat) :
    advanced^[n] p = { p with cursor := min (p.cursor + n) p.length } := by
  induction n with
  | zero => rw [Nat.add_zero, Nat.min_eq_left hp, Function.iterate_zero_apply]
  | succ n ih =>
    rw [Function.iterate_succ_apply', ih, advanced]
    by_cases hlt : p.cursor + n < p.length
    · rw [if_pos]
      · congr 1
        dsimp only
        omega
      · exact decide_eq_true (Nat.lt_of_le_of_lt (Nat.min_le_left _ _) hlt)
    · have hend : min (p.cursor + n) p.length = p.length := Nat.min_eq_right (by omega)
      rw [if_neg]
      · congr 1
        omega
      · rw [hend]
        exact mt of_decide_eq_true (Nat.lt_irrefl p.length)

/-- The segments before the cursor, with a delimiter behind them if some come before and some are
left. -/
theorem before_append_joined_remaining (p : KeyPath) :
    p.before ++ (if 0 < p.cursor ∧ p.hasNext then p.delimiter else "") ++ p.joined p.remaining =
      p.joined p.segments := by
  have hsegments : p.segments = p.segments.take p.cursor ++ p.remaining :=
    (List.take_append_drop p.cursor p.segments).symm
  have hfirst : p.segments.take p.cursor = [] ↔ p.cursor = 0 ∨ p.segments = [] :=
    List.take_eq_nil_iff
  have hrest : p.remaining = [] ↔ p.length ≤ p.cursor := List.drop_eq_nil_iff
  rw [← String.toList_inj, String.toList_append, String.toList_append, before, toList_joined_raws,
    toList_joined_raws, toList_joined_raws]
  conv_rhs => rw [hsegments, List.map_append]
  by_cases hstart : p.segments.take p.cursor = []
  · have hnone : ¬ (0 < p.cursor ∧ p.hasNext) := by
      rintro ⟨hpos, hnext⟩
      have hlt : p.cursor < p.length := of_decide_eq_true hnext
      rcases hfirst.1 hstart with hzero | hnil
      · omega
      · rw [length, hnil] at hlt
        exact absurd hlt (Nat.not_lt_zero _)
    rw [hstart, if_neg hnone]
    rfl
  · by_cases hend : p.remaining = []
    · have hnone : ¬ (0 < p.cursor ∧ p.hasNext) := fun ⟨_, hnext⟩ =>
        Nat.not_lt.2 (hrest.1 hend) (of_decide_eq_true hnext)
      rw [hend, if_neg hnone, List.map_nil, List.append_nil]
      simp [Text.join]
    · have hboth : 0 < p.cursor ∧ p.hasNext := by
        refine ⟨Nat.pos_of_ne_zero fun hzero => hstart (hfirst.2 (.inl hzero)), ?_⟩
        exact decide_eq_true (Nat.lt_of_not_le (mt hrest.2 hend))
      rw [if_pos hboth, Text.join_append (by simpa using hstart) (by simpa using hend)]

/-- **A path reassembles.**  Its segments with the delimiter between them are its text, the blanks
around it apart; none of them contains the delimiter, and they are one more than there are leftmost
occurrences of it that do not overlap.  Wherever the cursor has been moved to, the segments before it
and those from it on give the text again. -/
theorem joined_of_parse (h : parse text delimiter engine = .ok path) :
    path.text = Text.trimmed text ∧ path.joined path.segments = path.text ∧
    (∀ s ∈ path.segments, ¬ delimiter.toList <:+: s.raw.toList) ∧
    (∃ places, Text.Occurrences delimiter.toList path.text.toList 0 places ∧
      (∀ others, Text.Occurrences delimiter.toList path.text.toList 0 others → others = places) ∧
      path.length = places.length + 1) ∧
    ∀ n, let p := advanced^[n] path
      p.joined (p.segments.take p.cursor ++ p.remaining) = path.text ∧
      p.before ++ (if 0 < p.cursor ∧ p.hasNext then p.delimiter else "") ++ p.joined p.remaining =
        path.text := by
  have hcut := isCut_of_parse h
  refine ⟨hcut.text_eq, hcut.joined_segments, fun s hs => ?_, ?_, fun n => ?_⟩
  · refine Text.not_infix_of_mem_splitOn hcut.ne_nil (s := path.text.toList) ?_
    rw [← hcut.raws]
    exact List.mem_map_of_mem hs
  · obtain ⟨places, hplaces, hlength⟩ := Text.exists_occurrences hcut.ne_nil path.text.toList
    refine ⟨places, hplaces, fun others hothers => hothers.unique hplaces, ?_⟩
    rw [← hlength, ← hcut.raws, List.length_map]
    rfl
  · have hstart : path.cursor ≤ path.length := hcut.cursor_eq ▸ Nat.zero_le _
    rw [iterate_advanced hstart]
    intro p
    have hall : p.joined p.segments = path.text := hcut.joined_segments
    refine ⟨?_, (before_append_joined_remaining p).trans hall⟩
    rw [remaining, List.take_append_drop]
    exact hall

/-- Two occurrences that overlap, of which the first counts, and one at the end. -/
theorem joined_of_parse_overlap :
    ∃ path, parse " xaaa--aa " "aa" = .ok path ∧
      path.joined path.segments = "xaaa--aa" ∧ path.length = 3 ∧
      (∃ places, Text.Occurrences "aa".toList path.text.toList 0 places ∧ places.length = 2) ∧
      (advanced^[1] path).before = "x" ∧
      (advanced^[1] path).before ++ "aa" ++ (advanced^[1] path).joined
        (advanced^[1] path).remaining = "xaaa--aa" := by
  obtain ⟨path, hpath, htext, hlength, hcursor, hdelimiter, hbefore⟩ :=
    exists_parse " xaaa--aa " "aa"
      (fun p => p.text = "xaaa--aa" ∧ p.length = 3 ∧ (0 < p.advanced.cursor ∧ p.advanced.hasNext) ∧
        p.advanced.delimiter = "aa" ∧ p.advanced.before = "x")
      (by decide +kernel)
  obtain ⟨-, hjoined, -, ⟨places, hplaces, -, hcount⟩, hall⟩ := joined_of_parse hpath
  have hparted := (hall 1).2
  rw [Function.iterate_one, if_pos hcursor, hdelimiter, htext] at hparted
  refine ⟨path, hpath, hjoined.trans htext, hlength, ⟨places, hplaces, by omega⟩, ?_, ?_⟩
  · rwa [Function.iterate_one]
  · rwa [Function.iterate_one]

/-! ### Leaving out what is empty -/

/-- The text before the cursor, that of the segment at it and the text behind it, with the delimiter
between those of them that are not empty. -/
def rejoined (p : KeyPath) (s : Segment) : String :=
  Text.joined p.delimiter ([p.before, s.raw, p.behind].filter (· ≠ ""))

theorem toList_rejoined (p : KeyPath) (s : Segment) : (p.rejoined s).toList =
    Text.join p.delimiter.toList
      ([p.before.toList, s.raw.toList, p.behind.toList].filter (· ≠ [])) := by
  have hempty : (fun w : String => decide (w ≠ "")) = (fun w => decide (w ≠ [])) ∘ String.toList := by
    funext w
    simp [String.toList_eq_nil_iff]
  rw [rejoined, Text.toList_joined, hempty, ← List.filter_map]
  rfl

/-- Without its empty parts the text is the same only if no part is an empty segment. -/
theorem rejoined_eq_joined_iff (hd : p.delimiter.toList ≠ []) (hs : p.current? = some s)
    (hne : (p.joined p.segments).toList ≠ []) :
    p.rejoined s = p.joined p.segments ↔ s.raw ≠ "" ∧
      (p.segments.take p.cursor).map (·.raw) ≠ [""] ∧
      (p.segments.drop (p.cursor + 1)).map (·.raw) ≠ [""] := by
  obtain ⟨hlt, hget⟩ := List.getElem?_eq_some_iff.1 hs
  have hsegments : p.segments =
      p.segments.take p.cursor ++ s :: p.segments.drop (p.cursor + 1) := by
    rw [← hget, ← List.drop_eq_getElem_cons, List.take_append_drop]
  -- the part before the cursor and the part behind it, as pieces of the text
  have hraws (ss : List Segment) :
      ss.map (·.raw) = [""] ↔ ss.map (·.raw.toList) = [[]] := by
    rw [← List.map_inj_right fun _ _ => String.toList_inj.1, List.map_map]
    rfl
  let first := (p.segments.take p.cursor).map (·.raw.toList)
  let last := (p.segments.drop (p.cursor + 1)).map (·.raw.toList)
  let parts := Text.group p.delimiter.toList first ++ s.raw.toList ::
    Text.group p.delimiter.toList last
  have hwhole : (p.joined p.segments).toList = Text.join p.delimiter.toList parts := by
    rw [toList_joined_raws, Text.join_group]
    conv_lhs => rw [hsegments, List.map_append, List.map_cons]
  have hkept : (p.rejoined s).toList =
      Text.join p.delimiter.toList (parts.filter (· ≠ [])) := by
    rw [Text.filter_groups, toList_rejoined, before, behind, toList_joined_raws,
      toList_joined_raws]
  have hempty : [] ∈ parts ↔ (p.segments.take p.cursor).map (·.raw) = [""] ∨ s.raw = "" ∨
      (p.segments.drop (p.cursor + 1)).map (·.raw) = [""] := by
    rw [List.mem_append, List.mem_cons, Text.nil_mem_group_iff hd, Text.nil_mem_group_iff hd,
      ← String.toList_eq_nil_iff, eq_comm (a := []) (b := s.raw.toList), hraws, hraws]
  rw [hwhole] at hne
  rw [← String.toList_inj, hkept, hwhole, Text.join_filter_eq_iff hd hne, hempty, not_or, not_or]
  exact and_left_comm

/-- **What an empty segment costs.**  At a cursor with a segment, the texts before, at and behind it
with the delimiter between those that are not empty are the text of the path exactly if the segment is
not empty and neither the only one before it nor the only one behind it is.  So this holds at every
cursor exactly if no segment of the path is empty. -/
theorem rejoined_eq_text_iff (h : parse text delimiter engine = .ok path) :
    (∀ n s, (advanced^[n] path).current? = some s →
      let p := advanced^[n] path
      (p.rejoined s = path.text ↔ s.raw ≠ "" ∧ (p.segments.take p.cursor).map (·.raw) ≠ [""] ∧
        (p.segments.drop (p.cursor + 1)).map (·.raw) ≠ [""])) ∧
    ((∀ n s, (advanced^[n] path).current? = some s → (advanced^[n] path).rejoined s = path.text) ↔
      ∀ s ∈ path.segments, s.raw ≠ "") := by
  have hcut := isCut_of_parse h
  have hstart : path.cursor ≤ path.length := hcut.cursor_eq ▸ Nat.zero_le _
  have heach : ∀ n s, (advanced^[n] path).current? = some s →
      let p := advanced^[n] path
      (p.rejoined s = path.text ↔ s.raw ≠ "" ∧ (p.segments.take p.cursor).map (·.raw) ≠ [""] ∧
        (p.segments.drop (p.cursor + 1)).map (·.raw) ≠ [""]) := by
    intro n s
    rw [iterate_advanced hstart]
    intro hs p
    have hall : p.joined p.segments = path.text := hcut.joined_segments
    have hdelimiter : p.delimiter.toList ≠ [] := by
      show path.delimiter.toList ≠ []
      rw [hcut.delimiter_eq]
      exact hcut.ne_nil
    rw [← hall]
    exact rejoined_eq_joined_iff hdelimiter hs (hall ▸ hcut.text_ne_nil)
  refine ⟨heach, fun hrejoined s hs => ?_, fun hne n s hs => (heach n s hs).2 ?_⟩
  · -- the cursor can be moved to the segment
    obtain ⟨n, hlt, hget⟩ := List.mem_iff_getElem.1 hs
    have hcursor : (advanced^[n] path).current? = some s := by
      have hmin : min (path.cursor + n) path.length = n := by
        rw [hcut.cursor_eq, Nat.zero_add]
        exact Nat.min_eq_left (Nat.le_of_lt hlt)
      rw [iterate_advanced hstart, hmin]
      exact List.getElem?_eq_some_iff.2 ⟨hlt, hget⟩
    exact ((heach n s hcursor).1 (hrejoined n s hcursor)).1
  · have hpart {ss : List Segment} (hsub : ss ⊆ path.segments) : ss.map (·.raw) ≠ [""] := by
      intro hempty
      obtain ⟨t, ht, hraw⟩ := List.mem_map.1 (hempty ▸ List.mem_singleton_self "")
      exact hne t (hsub ht) hraw
    rw [iterate_advanced hstart] at hs ⊢
    exact ⟨hne s (List.mem_of_getElem? hs), hpart (List.take_subset _ _),
      hpart (List.drop_subset _ _)⟩

/-- An empty segment in front: lost behind the next segment, but not further on. -/
theorem rejoined_eq_text_iff_leading :
    ∃ path, parse ".a.b" "." = .ok path ∧ ∃ s t,
      (advanced^[1] path).current? = some s ∧ (advanced^[1] path).rejoined s ≠ path.text ∧
      (advanced^[2] path).current? = some t ∧ (advanced^[2] path).rejoined t = path.text := by
  obtain ⟨path, hpath, hs, ht⟩ := exists_parse ".a.b" "."
    (fun p =>
      ((advanced^[1] p).current?.any fun _ =>
        ((advanced^[1] p).segments.take (advanced^[1] p).cursor).map (·.raw) = [""]) ∧
      (advanced^[2] p).current?.any fun t => t.raw ≠ "" ∧
        ((advanced^[2] p).segments.take (advanced^[2] p).cursor).map (·.raw) ≠ [""] ∧
        ((advanced^[2] p).segments.drop ((advanced^[2] p).cursor + 1)).map (·.raw) ≠ [""])
    (by decide +kernel)
  obtain ⟨s, hs, hlost⟩ := (Option.any_eq_true _ _).1 hs
  obtain ⟨t, ht, hkept⟩ := (Option.any_eq_true _ _).1 ht
  obtain ⟨hiff, -⟩ := rejoined_eq_text_iff hpath
  exact ⟨path, hpath, s, t, hs, fun heq => ((hiff 1 s hs).1 heq).2.1 (of_decide_eq_true hlost), ht,
    (hiff 2 t ht).2 (of_decide_eq_true hkept)⟩

/-- Between two delimiters in a row there is a segment, and without it one of them is missing. -/
theorem rejoined_ne_text :
    ∃ path, parse "a..b" "." = .ok path ∧ ∃ s, (advanced^[1] path).current? = some s ∧
      (advanced^[1] path).before = "a" ∧ s.raw = "" ∧ (advanced^[1] path).behind = "b" ∧
      (advanced^[1] path).rejoined s = "a.b" ∧ path.text = "a..b" := by
  obtain ⟨path, hpath, hs, hbefore, hbehind, htext⟩ := exists_parse "a..b" "."
    (fun p => ((advanced^[1] p).current?.any fun s => s.raw = "" ∧
        (advanced^[1] p).rejoined s = "a.b") ∧
      (advanced^[1] p).before = "a" ∧ (advanced^[1] p).behind = "b" ∧ p.text = "a..b")
    (by decide +kernel)
  obtain ⟨s, hs, hprops⟩ := (Option.any_eq_true _ _).1 hs
  obtain ⟨hraw, hrejoined⟩ := of_decide_eq_true hprops
  exact ⟨path, hpath, s, hs, hbefore, hraw, hbehind, hrejoined, htext⟩

end KeyPath

end YamlQuery

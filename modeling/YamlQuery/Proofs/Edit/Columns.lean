import Mathlib.Data.List.Forall2
import YamlQuery.Edit.Table
import YamlQuery.Proofs.Text.Trimming

/-!
# Proofs.Edit.Columns — tables cut apart again

Each row of a table has a line.  A column starts behind the columns before it, which are as wide as
their widest cells and have two blanks after them (`Table.widest`, `Table.start`); `Table.cut` takes
its characters out of a line.  In a line before it is trimmed they are the cell filled up with blanks
(`Table.cut_line`).  What trimming the line takes away, trimming the cell takes away as well
(`Table.trimEnd_cut_trimEnd`), so the cells are found in the printed lines (`Table.cells_of_format`).
-/

namespace YamlQuery.Table

/-- The number of characters of the widest cell in a column. -/
def widest (rows : List (List Value)) (column : Nat) : Nat :=
  (rows.filterMap fun row => row[column]?.map (·.compact.length)).max?.getD 0

/-- Where a column starts if the columns have the given widths, with two blanks after each. -/
def start (w : Nat → Nat) : Nat → Nat
  | 0 => 0
  | column + 1 => start w column + (w column + 2)

/-- The characters of a line that belong to a column. -/
def cut (w : Nat → Nat) (column : Nat) (line : List Char) : List Char :=
  line.extract (start w column) (start w column + w column)

variable {rows : List (List Value)} {row : List (List Char)} {w : Nat → Nat} {n j : Nat}
  {c s t : List Char}

/-! ### Widths -/

theorem getD_max?_cons (m : Nat) (ns : List Nat) :
    (m :: ns).max?.getD 0 = max m (ns.max?.getD 0) := by
  cases h : ns.max? <;> simp [List.max?_cons, h]

theorem widest_cons (row : List Value) (rows : List (List Value)) (j : Nat) :
    widest (row :: rows) j = max ((row[j]?.map (·.compact.length)).getD 0) (widest rows j) := by
  unfold widest
  rw [List.filterMap_cons]
  cases row[j]? with
  | none => exact (Nat.zero_max _).symm
  | some v => exact getD_max?_cons _ _

theorem width_compact (rows : List (List Value)) (j : Nat) :
    width (rows.map (·.map Value.compact)) j = widest rows j := by
  suffices ∀ n, (rows.map (·.map Value.compact)).foldl
      (fun w row => max w ((row[j]?.getD []).length)) n = max n (widest rows j) by
    simpa [width] using this 0
  induction rows with
  | nil => simp [widest]
  | cons row rows ih =>
    intro n
    rw [List.map_cons, List.foldl_cons, ih, widest_cons, Nat.max_assoc]
    cases h : row[j]? <;> simp [h]

theorem length_le_widest {row : List Value} {v : Value} (hrow : row ∈ rows)
    (hv : row[j]? = some v) : v.compact.length ≤ widest rows j := by
  refine List.le_max?_getD_of_mem (List.mem_filterMap.2 ⟨row, hrow, ?_⟩)
  rw [hv, Option.map_some]

/-- There is a width for each column of each row. -/
theorem exists_widths (rows : List (List Value)) :
    ∃ n, widths (rows.map (·.map Value.compact)) = (List.range n).map (widest rows) ∧
      ∀ row ∈ rows, row.length ≤ n := by
  refine ⟨_, List.map_congr_left fun j _ => width_compact rows j, fun row hrow => ?_⟩
  rw [← List.foldl_map, List.foldl_max]
  refine (List.le_max?_getD_of_mem ?_).trans (Nat.le_max_right _ _)
  rw [List.map_map]
  exact List.mem_map.2 ⟨row, hrow, List.length_map _⟩

/-! ### Lines before they are trimmed -/

theorem length_pad (h : c.length ≤ n) : (pad n c).length = n := by
  rw [pad, List.length_append, List.length_replicate]
  omega

theorem trimEnd_pad (n : Nat) (c : List Char) : Text.trimEnd (pad n c) = Text.trimEnd c := by
  refine Text.trimEnd_append_of_blank (List.all_eq_true.2 fun b hb => ?_)
  rw [List.eq_of_mem_replicate hb]
  decide

theorem line_nil (ws : List Nat) : line ws [] = [] := by cases ws <;> rfl

theorem line_single (m : Nat) (ws : List Nat) (c : List Char) : line (m :: ws) [c] = pad m c := rfl

theorem line_cons (m : Nat) (ws : List Nat) (c d : List Char) (ds : List (List Char)) :
    line (m :: ws) (c :: d :: ds) = pad m c ++ [' ', ' '] ++ line ws (d :: ds) := by
  rw [List.append_assoc]
  rfl

theorem start_succ (w : Nat → Nat) (j : Nat) :
    start w (j + 1) = w 0 + 2 + start (fun k => w (k + 1)) j := by
  induction j with
  | zero => exact Nat.zero_add _
  | succ j ih => rw [start, ih, start, Nat.add_assoc]

theorem cut_of_length_le (h : s.length ≤ start w j) : cut w j s = [] := by
  rw [cut, List.extract_eq_take_drop, List.drop_eq_nil_of_le h, List.take_nil]

theorem cut_first (h : s.length = w 0) (t : List Char) : cut w 0 (s ++ t) = s := by
  simp [cut, start, List.take_left' h]

/-- The first column and the blanks after it are passed over. -/
theorem cut_next (h : s.length = w 0 + 2) (j : Nat) (t : List Char) :
    cut w (j + 1) (s ++ t) = cut (fun k => w (k + 1)) j t := by
  unfold cut
  rw [start_succ, List.extract_eq_take_drop, List.extract_eq_take_drop, ← List.drop_drop,
    List.drop_left' h, Nat.add_sub_cancel_left, Nat.add_sub_cancel_left]

/-- In a line before it is trimmed, a column holds its cell filled up to its width. -/
theorem cut_line (hn : row.length ≤ n) (hw : ∀ j c, row[j]? = some c → c.length ≤ w j) (j : Nat) :
    cut w j (line ((List.range n).map w) row) = (row[j]?.map (pad (w j))).getD [] := by
  -- with each cell that is taken off the row, its width is taken off the widths
  induction row generalizing w n j with
  | nil =>
    rw [line_nil]
    exact cut_of_length_le (Nat.zero_le _)
  | cons c cs ih =>
    obtain ⟨n, rfl⟩ : ∃ m, n = m + 1 := Nat.exists_eq_add_one.2 (Nat.zero_lt_of_lt hn)
    have hfirst : (pad (w 0) c).length = w 0 := length_pad (hw 0 c rfl)
    rw [List.range_succ_eq_map, List.map_cons, List.map_map]
    cases cs with
    | nil =>
      rw [line_single]
      cases j with
      | zero => simpa using cut_first hfirst []
      | succ j => exact cut_of_length_le (by rw [hfirst, start_succ]; omega)
    | cons d ds =>
      rw [line_cons]
      cases j with
      | zero =>
        rw [List.append_assoc]
        exact cut_first hfirst _
      | succ j =>
        have hblanks : (pad (w 0) c ++ [' ', ' ']).length = w 0 + 2 := by
          rw [List.length_append, hfirst]
          rfl
        rw [cut_next hblanks]
        exact ih (Nat.le_of_succ_le_succ hn) (fun k c hc => hw (k + 1) c hc) j

/-- A line has no characters but blanks and those of its cells. -/
theorem mem_line {b : Char} {ws : List Nat} {row : List (List Char)} (h : b ∈ line ws row) :
    b = ' ' ∨ ∃ c ∈ row, b ∈ c := by
  have hpad {m : Nat} {c : List Char} (hb : b ∈ pad m c) : b = ' ' ∨ b ∈ c :=
    (List.mem_append.1 hb).symm.imp_left List.eq_of_mem_replicate
  induction row generalizing ws with
  | nil => simp [line_nil] at h
  | cons c cs ih =>
    cases ws with
    | nil => simp [line] at h
    | cons m ws =>
      cases cs with
      | nil => exact (hpad h).imp_right fun hb => ⟨c, List.mem_cons_self, hb⟩
      | cons d ds =>
        rw [line_cons, List.mem_append, List.mem_append] at h
        obtain (hb | hb) | hb := h
        · exact (hpad hb).imp_right fun hb => ⟨c, List.mem_cons_self, hb⟩
        · exact .inl (by simpa using hb)
        · obtain hb | ⟨c', hc', hb⟩ := ih hb
          · exact .inl hb
          · exact .inr ⟨c', List.mem_cons_of_mem c hc', hb⟩

/-! ### Trimmed lines -/

theorem cut_append (w : Nat → Nat) (j : Nat) (s t : List Char) :
    ∃ u, cut w j (s ++ t) = cut w j s ++ u ∧ ∀ b ∈ u, b ∈ t := by
  simp only [cut, List.extract_eq_take_drop, List.drop_append, List.take_append]
  exact ⟨_, rfl, fun b hb => List.mem_of_mem_drop (List.mem_of_mem_take hb)⟩

/-- What trimming a line takes away from a column are blanks at its end. -/
theorem exists_cut_trimEnd (w : Nat → Nat) (j : Nat) (s : List Char) :
    ∃ u, cut w j s = cut w j (Text.trimEnd s) ++ u ∧ u.all Text.isBlank := by
  obtain ⟨blanks, hs, hblank⟩ := Text.exists_blanks s
  obtain ⟨u, hcut, hu⟩ := cut_append w j (Text.trimEnd s) blanks
  rw [← hs] at hcut
  exact ⟨u, hcut, List.all_eq_true.2 fun b hb => List.all_eq_true.1 hblank b (hu b hb)⟩

theorem trimEnd_cut_trimEnd (w : Nat → Nat) (j : Nat) (s : List Char) :
    Text.trimEnd (cut w j (Text.trimEnd s)) = Text.trimEnd (cut w j s) := by
  obtain ⟨u, hcut, hblank⟩ := exists_cut_trimEnd w j s
  rw [hcut, Text.trimEnd_append_of_blank hblank]

theorem cut_trimEnd_of_nil (h : cut w j s = []) : cut w j (Text.trimEnd s) = [] := by
  obtain ⟨u, hcut, -⟩ := exists_cut_trimEnd w j s
  exact (List.append_eq_nil_iff.1 (hcut.symm.trans h)).1

/-! ### Printed lines -/

/-- The line of a row as it is printed. -/
def printed (rows : List (List Value)) (row : List Value) : List Char :=
  Text.trimEnd (line (widths (rows.map (·.map Value.compact))) (row.map Value.compact))

theorem format_eq (rows : List (List Value)) :
    format rows = (rows.map (printed rows)).flatMap (· ++ ['\n']) := by
  rw [format, List.flatMap_map, List.flatMap_map]
  rfl

/-- Before the line of a row is trimmed, a column holds the cell of the row filled up. -/
theorem cut_line_widths {row : List Value} (hrow : row ∈ rows) (j : Nat) :
    cut (widest rows) j (line (widths (rows.map (·.map Value.compact))) (row.map Value.compact)) =
      (row[j]?.map fun v => pad (widest rows j) v.compact).getD [] := by
  obtain ⟨n, hwidths, hlength⟩ := exists_widths rows
  have hcells (k : Nat) (c : List Char) (hc : (row.map Value.compact)[k]? = some c) :
      c.length ≤ widest rows k := by
    rw [List.getElem?_map] at hc
    obtain ⟨v, hv, rfl⟩ := Option.map_eq_some_iff.1 hc
    exact length_le_widest hrow hv
  rw [hwidths, cut_line (by simpa using hlength row hrow) hcells, List.getElem?_map, Option.map_map]
  rfl

theorem trimEnd_cut_printed {row : List Value} {v : Value} (hrow : row ∈ rows)
    (hv : row[j]? = some v) :
    Text.trimEnd (cut (widest rows) j (printed rows row)) = Text.trimEnd v.compact := by
  rw [printed, trimEnd_cut_trimEnd, cut_line_widths hrow, hv]
  exact trimEnd_pad _ _

theorem cut_printed_of_none {row : List Value} (hrow : row ∈ rows) (hj : row[j]? = none) :
    cut (widest rows) j (printed rows row) = [] := by
  refine cut_trimEnd_of_nil ?_
  rw [cut_line_widths hrow, hj]
  rfl

theorem not_mem_printed {row : List Value} (h : ∀ v ∈ row, '\n' ∉ v.compact) :
    '\n' ∉ printed rows row := by
  intro hfeed
  obtain hblank | ⟨c, hc, hfeed⟩ := mem_line ((Text.trimEnd_prefix_self _).mem hfeed)
  · exact absurd hblank (by decide)
  · obtain ⟨v, hv, rfl⟩ := List.mem_map.1 hc
    exact h v hv hfeed

/-- **The cells of a table can be cut out of it again.**  If no cell has a line feed in it, each row
has exactly one line, and there the characters of a column are the cell of the row but for blanks at
the end; where the row has no cell there are none. -/
theorem cells_of_format (rows : List (List Value))
    (h : ∀ row ∈ rows, ∀ v ∈ row, '\n' ∉ v.compact) :
    ∃ lines : List (List Char), format rows = lines.flatMap (· ++ ['\n']) ∧
      (∀ line ∈ lines, '\n' ∉ line) ∧
      List.Forall₂ (fun line row => ∀ j,
        (∀ v, row[j]? = some v →
          Text.trimEnd (cut (widest rows) j line) = Text.trimEnd v.compact) ∧
        (row[j]? = none → cut (widest rows) j line = [])) lines rows := by
  refine ⟨rows.map (printed rows), format_eq rows, List.forall_mem_map.2 fun row hrow =>
    not_mem_printed (h row hrow), List.forall₂_map_left_iff.2 (List.forall₂_same.2 ?_)⟩
  intro row hrow j
  exact ⟨fun v hv => trimEnd_cut_printed hrow hv, cut_printed_of_none hrow⟩

/-- Rows of different lengths; one cell ends in a blank that is no space, another has only a tab. -/
theorem cells_of_format_ragged :
    let rows : List (List Value) := [[.string " a", .number (.integer 10), .string "b"], [],
      [.string "long\u3000", .sequence [.null, .string ""]], [.null, .boolean true, .string "\t"]]
    (∀ row ∈ rows, ∀ v ∈ row, '\n' ∉ v.compact) ∧
      format rows = " a     10        b\n\nlong\u3000  [null, ]\nnull   true\n".toList ∧
      [0, 1, 2, 3].map (start (widest rows)) = [0, 7, 17, 20] ∧
      ∃ lines : List (List Char), format rows = lines.flatMap (· ++ ['\n']) ∧
        (∀ line ∈ lines, '\n' ∉ line) ∧
        List.Forall₂ (fun line row => ∀ j,
          (∀ v, row[j]? = some v →
            Text.trimEnd (cut (widest rows) j line) = Text.trimEnd v.compact) ∧
          (row[j]? = none → cut (widest rows) j line = [])) lines rows := by
  intro rows
  have hrows : ∀ row ∈ rows, ∀ v ∈ row, '\n' ∉ v.compact := by decide +kernel
  exact ⟨hrows, by decide +kernel, by decide +kernel, cells_of_format rows hrows⟩

end YamlQuery.Table

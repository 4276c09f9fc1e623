import YamlQuery.Proofs.Properties.Lines

/-!
# Proofs.Properties.Writing — properties written line by line

A key and a value that fit into a line (`Fits`) are read from it as they are.  So properties that are
written one to a line are read again, in the same order, whatever blank lines and comments stand
between them (`parse_write`).
-/

namespace YamlQuery

/-! ### Lines that end in line feeds -/

namespace Text

variable {line : List Char}

theorem lineFeeds_append (h : '\n' ∉ line) (s : List Char) :
    lineFeeds (line ++ '\n' :: s) = (line :: (lineFeeds s).1, (lineFeeds s).2) := by
  induction line with
  | nil => simp [lineFeeds]
  | cons c line ih =>
    obtain ⟨hc, hline⟩ := not_or.1 (mt List.mem_cons.2 h)
    rw [List.cons_append, lineFeeds, ih hline]
    exact if_neg (Ne.symm hc)

theorem lines_flatMap {lines : List (List Char)} (h : ∀ line ∈ lines, '\n' ∉ line) :
    Text.lines (lines.flatMap (· ++ ['\n'])) = lines.map dropReturn := by
  have hfeeds : lineFeeds (lines.flatMap (· ++ ['\n'])) = (lines, []) := by
    induction lines with
    | nil => rfl
    | cons line lines ih =>
      obtain ⟨hline, hlines⟩ := List.forall_mem_cons.1 h
      rw [List.flatMap_cons, List.append_assoc]
      rw [List.singleton_append, lineFeeds_append hline, ih hlines]
  unfold Text.lines
  rw [hfeeds]
  simp

end Text

namespace Properties

variable {key value : String} {line s t : List Char} {c : Char}

/-! ### Entries and remarks -/

/-- A line of a text of properties. -/
inductive Written
  | entry (key value : String)
  | remark (text : String)

/-- The key and the value of a line. -/
def Written.entry? : Written → Option (String × String)
  | entry key value => some (key, value)
  | remark _ => none

/-- The line without its end. -/
def Written.source : Written → String
  | entry key value => key ++ "=" ++ value
  | remark text => text

/-- The text of some lines. -/
def write (lines : List Written) : String := String.join (lines.map (·.source ++ "\n"))

/-- A key and a value that can be written in one line. -/
structure Fits (key value : String) : Prop where
  key_ne_empty : key ≠ ""
  key_trimmed : Text.trimmed key = key
  key_free : '\n' ∉ key.toList
  key_without_equals : '=' ∉ key.toList
  key_without_colon : ':' ∉ key.toList
  key_not_comment : ¬ IsComment key.toList
  value_trimmed : Text.trimmed value = value
  value_free : '\n' ∉ value.toList
  value_not_endsOdd : ¬ EndsOdd value.toList

instance (key value : String) : Decidable (Fits key value) :=
  decidable_of_iff (key ≠ "" ∧ Text.trimmed key = key ∧ '\n' ∉ key.toList ∧ '=' ∉ key.toList ∧
      ':' ∉ key.toList ∧ ¬ IsComment key.toList ∧ Text.trimmed value = value ∧
      '\n' ∉ value.toList ∧ ¬ EndsOdd value.toList)
    ⟨fun ⟨hne, htrim, hfree, hequals, hcolon, hcomment, htrim', hfree', hodd⟩ =>
      ⟨hne, htrim, hfree, hequals, hcolon, hcomment, htrim', hfree', hodd⟩,
    fun ⟨hne, htrim, hfree, hequals, hcolon, hcomment, htrim', hfree', hodd⟩ =>
      ⟨hne, htrim, hfree, hequals, hcolon, hcomment, htrim', hfree', hodd⟩⟩

/-- A blank line or a comment. -/
def IsRemark (text : String) : Prop :=
  '\n' ∉ text.toList ∧ IsIgnored (Text.trimStart text.toList)

instance (text : String) : Decidable (IsRemark text) :=
  inferInstanceAs (Decidable (_ ∧ _))

/-! ### How they are read -/

theorem endsOdd_append_cons (hc : c ≠ '\\') (s t : List Char) :
    EndsOdd (s ++ c :: t) ↔ EndsOdd t := by
  obtain ⟨u, n, hu, rfl⟩ := exists_backslashes t
  have hlast : (s ++ c :: u).getLast? ≠ some '\\' := by
    rw [List.getLast?_append_cons, List.getLast?_cons]
    cases hlast : u.getLast? with
    | none => simpa using hc
    | some d => simpa [hlast] using hu
  rw [← isContinued_iff, ← isContinued_iff, isContinued_append hu, ← List.cons_append,
    ← List.append_assoc, isContinued_append hlast]

theorem trim_toList (h : Text.trimmed key = key) : Text.trim key.toList = key.toList := by
  rw [← String.toList_ofList (l := Text.trim key.toList)]
  exact congrArg String.toList h

theorem Fits.toList_ne_nil (h : Fits key value) : key.toList ≠ [] :=
  fun hnil => h.key_ne_empty (String.toList_inj.1 hnil)

theorem Fits.isRow (h : Fits key value) (s : List Char) : IsRow (key.toList ++ s) := by
  have hstart : Text.trimStart key.toList = key.toList := by
    rw [← trim_toList h.key_trimmed, Text.trimStart_trim]
  obtain ⟨c, rest, hkey⟩ := List.exists_cons_of_ne_nil h.toList_ne_nil
  rw [hkey] at hstart ⊢
  exact Text.trimStart_cons_of_not_isBlank (Text.not_isBlank_of_trimStart_eq_cons hstart)

theorem Fits.not_isIgnored (h : Fits key value) (s : List Char) :
    ¬ IsIgnored (key.toList ++ s) := by
  obtain ⟨c, rest, hkey⟩ := List.exists_cons_of_ne_nil h.toList_ne_nil
  have hcomment := h.key_not_comment
  rw [hkey] at hcomment ⊢
  rw [isIgnored_iff]
  rintro (hnil | hhead)
  · cases hnil
  · exact hcomment hhead

/-- No carriage return at the end of the line is taken for a part of the line feed. -/
theorem Fits.dropReturn (h : Fits key value) (s : List Char) :
    Text.dropReturn (s ++ '=' :: value.toList) = s ++ '=' :: value.toList := by
  have hend : Text.trimEnd value.toList = value.toList := by
    rw [← trim_toList h.value_trimmed, Text.trimEnd_trim]
  refine if_neg fun hlast => ?_
  rw [List.getLast?_append_cons, List.getLast?_cons] at hlast
  by_cases hnil : value.toList = []
  · simp [hnil] at hlast
  · have hblank := List.rdropWhile_eq_self_iff.1 hend hnil
    rw [List.getLast?_eq_some_getLast hnil, Option.getD_some] at hlast
    rw [Option.some.inj hlast] at hblank
    exact hblank (by decide)

theorem Fits.pairs_eq (h : Fits key value) :
    pairs [key.toList ++ '=' :: value.toList] = [(key, value)] := by
  have hfree : ∀ c ∈ key.toList, (! isSeparator c) = true := by
    intro c hc
    have hequals : c ≠ '=' := fun heq => h.key_without_equals (heq ▸ hc)
    have hcolon : c ≠ ':' := fun heq => h.key_without_colon (heq ▸ hc)
    simp [isSeparator, hequals, hcolon]
  have hpair : pair (key.toList ++ '=' :: value.toList) = (key, value) := by
    unfold pair
    rw [List.takeWhile_append_of_pos hfree, List.takeWhile_cons_of_neg (by decide),
      List.dropWhile_append_of_pos hfree, List.dropWhile_cons_of_neg (by decide), List.append_nil,
      List.tail_cons]
    exact Prod.ext h.key_trimmed h.value_trimmed
  simp [pairs, hpair, h.key_ne_empty]

theorem IsIgnored.of_start (hst : s <+: t) (h : IsIgnored (Text.trimStart t)) :
    IsIgnored (Text.trimStart s) := by
  obtain ⟨u, rfl⟩ := hst
  cases hs : Text.trimStart s with
  | nil => simp [IsIgnored]
  | cons c s' =>
    rw [Text.trimStart_append, hs] at h
    exact h

theorem IsRemark.isIgnored {text : String} (h : IsRemark text) :
    IsIgnored (Text.trimStart (Text.dropReturn text.toList)) := by
  refine h.2.of_start ?_
  unfold Text.dropReturn
  split
  · exact List.dropLast_prefix _
  · exact List.prefix_refl _

/-! ### Reading what is written -/

/-- The line is an entry that fits into it, or no entry. -/
def Written.IsReadable : Written → Prop
  | entry key value => Fits key value
  | remark text => IsRemark text

theorem Written.IsReadable.not_mem {w : Written} (h : w.IsReadable) : '\n' ∉ w.source.toList := by
  cases w with
  | remark text => exact h.1
  | entry key value =>
    simp [source, Fits.key_free h, Fits.value_free h]

theorem rows_write {ls : List Written} (h : ∀ w ∈ ls, w.IsReadable) : rows (write ls) =
    ls.map fun w => Text.trimStart (Text.dropReturn w.source.toList) := by
  have htext : (write ls).toList = (ls.map (·.source.toList)).flatMap (· ++ ['\n']) := by
    simp [write, String.toList_join, List.flatMap_map]
  have hfree : ∀ line ∈ ls.map (·.source.toList), '\n' ∉ line := by
    intro line hline
    obtain ⟨w, hw, rfl⟩ := List.mem_map.1 hline
    exact (h w hw).not_mem
  rw [rows, htext, Text.lines_flatMap hfree]
  simp

/-- Entries are read one by one, and remarks are skipped. -/
theorem pairs_written {ls : List Written} (h : ∀ w ∈ ls, w.IsReadable) :
    pairs (joinedLines [] (ls.map fun w => Text.trimStart (Text.dropReturn w.source.toList))) =
      ls.filterMap Written.entry? := by
  induction ls with
  | nil => rfl
  | cons w ls ih =>
    obtain ⟨hw, hls⟩ := List.forall_mem_cons.1 h
    cases w with
    | remark text =>
      have hrow : IsRow (Text.trimStart (Text.dropReturn text.toList)) := Text.trimStart_trimStart _
      rw [List.map_cons, Written.source, joinedLines_of_isIgnored hrow (IsRemark.isIgnored hw), ih hls]
      rfl
    | entry key value =>
      have hw : Fits key value := hw
      have hsource : (Written.entry key value).source.toList =
          key.toList ++ '=' :: value.toList := by
        simp [Written.source]
      have hodd : ¬ EndsOdd (key.toList ++ '=' :: value.toList) := by
        rw [endsOdd_append_cons (by decide)]
        exact hw.value_not_endsOdd
      rw [List.map_cons, hsource, hw.dropReturn, show Text.trimStart _ = _ from hw.isRow _,
        joinedLines_of_not_endsOdd (hw.isRow _) (fun hskip => hw.not_isIgnored _ hskip.2) hodd,
        pairs_cons, List.nil_append, hw.pairs_eq, ih hls]
      rfl

theorem parse_write_of_isReadable {ls : List Written} (h : ∀ w ∈ ls, w.IsReadable)
    (hdistinct : Entries.Distinct (ls.filterMap Written.entry?)) :
    parse (write ls) = ls.filterMap Written.entry? := by
  rw [parse_eq, rows_write h, pairs_written h, Entries.ofList_eq_self hdistinct]

/-- **Properties are read as they are written**, one to a line and in the same order, whatever blank
lines and comments are added. -/
theorem parse_write {ps : Properties} (hdistinct : ps.Distinct)
    (hfits : ∀ e ∈ ps, Fits e.1 e.2) :
    parse (write (ps.map fun e => .entry e.1 e.2)) = ps ∧
    ∀ ls : List Written, ls.filterMap Written.entry? = ps →
      (∀ text, .remark text ∈ ls → IsRemark text) → parse (write ls) = ps := by
  have hmixed (ls : List Written) (hps : ls.filterMap Written.entry? = ps)
      (hremark : ∀ text, .remark text ∈ ls → IsRemark text) : parse (write ls) = ps := by
    have hreadable : ∀ w ∈ ls, w.IsReadable := by
      intro w hw
      cases w with
      | remark text => exact hremark text hw
      | entry key value =>
        exact hfits (key, value) (hps ▸ List.mem_filterMap.2 ⟨_, hw, rfl⟩)
    rw [parse_write_of_isReadable hreadable (hps.symm ▸ hdistinct), hps]
  refine ⟨hmixed _ ?_ ?_, hmixed⟩
  · rw [List.filterMap_map]
    exact List.filterMap_some
  · intro text hmem
    obtain ⟨e, -, heq⟩ := List.mem_map.1 hmem
    cases heq

/-- Separators, comment signs, backslashes and a carriage return in a value, a backslash and a blank in
keys, and an empty value; a comment that ends in a backslash, and blank lines. -/
theorem parse_write_signs :
    let ps : Properties := [("a b", "=x: #\ry\\\\"), ("\\c\\", ""), ("é", "\\!")]
    let ls : List Written := [.remark " # a=b\\", .entry "a b" "=x: #\ry\\\\", .remark "",
      .remark "\t\r", .entry "\\c\\" "", .entry "é" "\\!", .remark "!="]
    ps.Distinct ∧ (∀ e ∈ ps, Fits e.1 e.2) ∧ ls.filterMap Written.entry? = ps ∧
      (∀ text, .remark text ∈ ls → IsRemark text) ∧
      parse "a b==x: #\ry\\\\\n\\c\\=\né=\\!\n" = ps ∧ parse (write ls) = ps := by
  intro ps ls
  have hdistinct : ps.Distinct := by decide
  have hfits : ∀ e ∈ ps, Fits e.1 e.2 := by decide +kernel
  have hremark : ∀ text, .remark text ∈ ls → IsRemark text := by
    intro text hmem
    simp only [ls, List.mem_cons, List.not_mem_nil, or_false, reduceCtorEq, false_or,
      Written.remark.injEq] at hmem
    obtain rfl | rfl | rfl | rfl := hmem <;> decide +kernel
  obtain ⟨hread, hmixed⟩ := parse_write hdistinct hfits
  have htext : write (ps.map fun e => .entry e.1 e.2) =
      "a b==x: #\ry\\\\\n\\c\\=\né=\\!\n" := by decide +kernel
  exact ⟨hdistinct, hfits, rfl, hremark, htext ▸ hread, hmixed ls rfl hremark⟩

end Properties

end YamlQuery

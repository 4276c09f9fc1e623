import YamlQuery.Proofs.Files.Reloading
import YamlQuery.Proofs.Yaml.Documents

/-!
# Proofs.Files.Fallback — files without a format in their paths

Under a path without a format a document is saved in the format of the settings but loaded as YAML.
The loader relies on YAML taking JSON as well.  So it does, except for characters that YAML excludes
or takes for the end of a line, and for long keys (`load_of_save_json`).
-/

namespace YamlQuery

namespace Path

variable {path : String} {name ext : List Char}

theorem exists_of_pieces {front : List (List Char)} (h : pieces path = front ++ [name]) :
    ∃ a, path.toList = a ++ name := by
  have hjoin := Text.join_splitOn (List.cons_ne_nil '/' []) path.toList
  rw [← pieces, h] at hjoin
  obtain ⟨a, ha⟩ := Files.exists_join [] name front
  exact ⟨a, hjoin.symm.trans ha⟩

theorem eq_of_cutExtension? {stem : List Char} (h : cutExtension? name = some (stem, ext)) :
    name = stem ++ '.' :: ext := by
  have hsplit := List.takeWhile_append_dropWhile (p := (· != '.')) (l := name.reverse)
  have hdrop := congrArg (List.drop (name.reverse.takeWhile (· != '.')).length) hsplit
  have hhead := List.head?_dropWhile_not (· != '.') name.reverse
  rw [List.drop_left] at hdrop
  simp only [cutExtension?, ← hdrop] at h
  split at h
  · next x c before hrest =>
    cases h
    rw [hrest] at hhead hsplit
    obtain rfl : x = '.' := by simpa using hhead
    simpa using (congrArg List.reverse hsplit).symm
  · cases h

/-- Where the last piece of a path counts, the extension stands at the end of the text. -/
theorem exists_of_extension? {front : List (List Char)} (hpieces : pieces path = front ++ [name])
    (hname : isIdle name = false) (h : extension? path = some ext) :
    ∃ a, path.toList = a ++ '.' :: ext := by
  obtain ⟨a, ha⟩ := exists_of_pieces hpieces
  rw [extension?, fileName?, hpieces, upToName_append front hname, List.getLast?_concat,
    Option.map_eq_some_iff] at h
  obtain ⟨⟨stem, ext⟩, hcut, rfl⟩ := h
  obtain ⟨u, hu, hcut⟩ := Option.bind_eq_some_iff.1 hcut
  obtain rfl := Option.some.inj (Option.filter_eq_some_iff.1 hu).1
  exact ⟨a ++ stem, by rw [ha, eq_of_cutExtension? hcut, List.append_assoc]⟩

end Path

namespace Files

variable {fs fs' : Files} {settings : Settings} {path : String} {v : Value}

/-- The last piece of a path to a file counts. -/
theorem exists_last_piece {place : String} (h : fs.place? path = some place)
    (hplace : fs.isDirectory place = false) :
    ∃ front name, Path.pieces path = front ++ [name] ∧ Path.isIdle name = false := by
  obtain ⟨front, name, hpieces⟩ : ∃ front name, Path.pieces path = front ++ [name] :=
    ⟨_, _, (List.dropLast_concat_getLast (Text.splitOn_ne_nil ['/'] path.toList)).symm⟩
  refine ⟨front, name, hpieces, Bool.eq_false_iff.2 fun hidle => ?_⟩
  rw [place?, hpieces] at h
  split at h
  · cases h
  · obtain ⟨q, -, hlast⟩ := Option.bind_eq_some_iff.1 (List.foldlM_append.symm.trans h)
    replace hlast : fs.enter? q name = some place := by simpa using hlast
    rw [enter?, if_pos hidle] at hlast
    split at hlast
    · cases hlast
    · next hq =>
      cases hlast
      simp [hplace] at hq

/-- A file that has been saved is taken for a compressed one only if the text of its path says
so. -/
theorem isCompressed_of_save (hend : DocumentFormat.compressedEnd.isSuffixOf
    (Text.lower path.toList) = false) (hsave : fs.save settings path v = (.ok (), fs')) :
    isCompressed path = false := by
  -- The name in a path such as `a.gz/.` has the extension `gz` as well, but the path leads to a
  -- directory, and saving under it fails.
  obtain ⟨g, -, hreplace⟩ := exists_backedUp_of_save hsave
  obtain ⟨-, target, -, -, htarget, hfile, -⟩ := exists_of_replace hreplace
  obtain ⟨front, name, hpieces, hname⟩ := exists_last_piece htarget hfile
  refine Bool.eq_false_iff.2 fun hcompressed => Bool.false_ne_true (hend.symm.trans ?_)
  obtain ⟨ext, hext, hlower⟩ := (Option.any_eq_true _ _).1 hcompressed
  obtain ⟨a, ha⟩ := Path.exists_of_extension? hpieces hname hext
  rw [beq_iff_eq] at hlower
  rw [ha, Text.lower_append, List.isSuffixOf_iff_suffix]
  exact ⟨Text.lower a, congrArg (Text.lower a ++ '.' :: ·) hlower.symm⟩

/-- The text of a document under a path without a format. -/
theorem readText_of_save_of_ofPath?_eq_none (hf : DocumentFormat.ofPath? path = none)
    (hend : DocumentFormat.compressedEnd.isSuffixOf (Text.lower path.toList) = false)
    (hsave : fs.save settings path v = (.ok (), fs')) :
    fs'.readText path = .ok (settings.format.write settings.indentSize v) := by
  obtain ⟨draft, target, hsaved⟩ := exists_saved hsave
  have hraw : DocumentFormat.compressedEnd.isSuffixOf path.toList = false := by
    rw [Bool.eq_false_iff] at hend ⊢
    exact mt DocumentFormat.isSuffixOf_lower hend
  rw [readText, hsaved.read?_eq, isCompressed_of_save hend hsave, encode, hf, Option.getD_none,
    hraw]
  simp only [Bool.false_eq_true, if_false, fromUTF8?_toUTF8]

/-- **JSON in a file without a format in its path is loaded again** if its strings and keys have only
characters that YAML allows and none that ends a line, and the keys are short.  With a character that
YAML excludes the file that has been saved is not loaded, and neither is it with a key that is too
long. -/
theorem load_of_save_json (hf : DocumentFormat.ofPath? path = none)
    (hend : DocumentFormat.compressedEnd.isSuffixOf (Text.lower path.toList) = false)
    (hjson : settings.writesJson) (hd : v.Distinct) (hn : v.EachNumber Number.IsInteger)
    (hdepth : v.depth < 128) (hsave : fs.save settings path v = (.ok (), fs')) :
    let short := v.EachKey fun k => Json.isShortKey k
    (v.EachText Yaml.IsLegible → v.EachText Yaml.IsOneLine → short → fs'.load path = .ok v) ∧
    (¬v.EachText Yaml.IsLegible → fs'.load path = .error (.unparsed path)) ∧
    (v.EachText Yaml.IsOneLine → ¬short → fs'.load path = .error (.unparsed path)) := by
  intro short
  obtain ⟨hsome, hillegible, hlong⟩ :=
    Value.readYaml?_writeJson settings.indentSize hd hn (Nat.le_of_lt hdepth)
  have htext := readText_of_save_of_ofPath?_eq_none hf hend hsave
  rw [Settings.format, if_pos hjson, DocumentFormat.write] at htext
  rw [load, htext, hf, Option.getD_none]
  simp only [DocumentFormat.read?]
  refine ⟨fun h hline hshort => ?_, fun h => ?_, fun hline hshort => ?_⟩
  · rw [hsome h hline hshort]
  · rw [hillegible h]
  · rw [hlong hline hshort]

theorem load_of_save_json_notes :
    let fs : Files := { nodes := [("/d.gz", .directory), ("/d.gz/notes", .file "old".toUTF8)] }
    let settings : Settings := { outputFormat := "JSON", indentSize := 3, createBackup := true }
    let v : Value := .mapping [("true", .boolean true), ("a: b # c", .sequence [.null,
        .number (.integer (-9223372036854775808)), .sequence [], .string "  \"- \\ \x00\t\n "]),
      ("", .mapping [("---", .string "null"), ("*x", .mapping [])])]
    ∃ fs', DocumentFormat.ofPath? "d.gz/notes" = none ∧ v.EachNumber Number.IsInteger ∧
      v.EachText Yaml.IsOneLine ∧ v.EachText Yaml.IsLegible ∧
      (v.EachKey fun k => Json.isShortKey k) ∧
      fs.save settings "d.gz/notes" v = (.ok (), fs') ∧ fs'.load "d.gz/notes" = .ok v := by
  intro fs settings v
  have hf : DocumentFormat.ofPath? "d.gz/notes" = none := by decide
  have hn : v.EachNumber Number.IsInteger := by
    simp only [v, Value.EachNumber, Value.Each, Value.EachEntry, Value.EachItem]
    decide
  have ht : v.EachText Yaml.IsOneLine := by
    simp only [v, Value.EachText, Value.Each, Value.EachEntry, Value.EachItem]
    decide
  have hlegible : v.EachText Yaml.IsLegible := by
    simp only [v, Value.EachText, Value.Each, Value.EachEntry, Value.EachItem]
    decide
  have hshort : v.EachKey fun k => Json.isShortKey k := by
    simp only [v, Value.EachKey, Value.Each, Value.EachEntry, Value.EachItem]
    decide
  have hsave := save_of_isOk fs settings "d.gz/notes" v (by decide +kernel)
  have hload := load_of_save_json hf (by decide) (by decide) (by decide) hn (by decide) hsave
  exact ⟨_, hf, hn, ht, hlegible, hshort, hsave, hload.1 hlegible ht hshort⟩

/-- A document with a character that YAML excludes is saved, but the file is not loaded; one with a
character that ends a line in YAML is loaded as another document. -/
theorem load_of_save_json_controls :
    let settings : Settings := { outputFormat := "json" }
    let doc (s : String) : Value := .mapping [("a", .string s)]
    DocumentFormat.ofPath? "out.txt" = none ∧
      DocumentFormat.compressedEnd.isSuffixOf (Text.lower "out.txt".toList) = false ∧
      settings.writesJson ∧
      (∀ s, (doc s).Distinct ∧ (doc s).EachNumber Number.IsInteger ∧ (doc s).depth = 1) ∧
      (∃ fs, Files.save {} settings "out.txt" (doc "\x7f") = (.ok (), fs) ∧
        fs.load "out.txt" = .error (.unparsed "out.txt")) ∧
      ∃ fs, Files.save {} settings "out.txt" (doc "x\x85y") = (.ok (), fs) ∧
        fs.load "out.txt" = .ok (doc "x y") := by
  intro settings doc
  have hdoc (s : String) :
      (doc s).Distinct ∧ (doc s).EachNumber Number.IsInteger ∧ (doc s).depth = 1 := by
    simp [doc, Value.Distinct, Value.DistinctEntries, Entries.Distinct, Entries.keys,
      Value.EachNumber, Value.Each, Value.EachEntry, Value.depth, Value.depthEntries]
  have hdelete := save_of_isOk {} settings "out.txt" (doc "\x7f") (by decide +kernel)
  have hnextLine := save_of_isOk {} settings "out.txt" (doc "x\x85y") (by decide +kernel)
  exact ⟨by decide, by decide, by decide, hdoc, ⟨_, hdelete, by decide +kernel⟩,
    ⟨_, hnextLine, by decide +kernel⟩⟩

end Files

end YamlQuery

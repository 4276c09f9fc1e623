import YamlQuery.Proofs.Files.Saving
import YamlQuery.Proofs.Gzip.Expansion
import YamlQuery.Reference

/-!
# Proofs.Files.Reloading — what is saved is loaded again

A file that has been saved is compressed if its path ends in `.gz`, and it is expanded if the
extension of its name is `gz` in small or capital letters.  For paths with a format these two agree
unless the path ends in `.gz` with a capital letter; so only a document under such a path is not
loaded again (`load_of_save`).
-/

namespace YamlQuery

variable {fs fs' : Files} {settings : Settings} {path : String} {f : DocumentFormat} {v : Value}

namespace Files

/-! ### Texts as bytes -/

theorem fromUTF8?_toUTF8 (text : String) : String.fromUTF8? text.toUTF8 = some text :=
  dif_pos text.isValidUTF8

theorem expandText?_compressText (text : String) : expandText? (compressText text) = some text := by
  simp only [expandText?, compressText, List.toList_toArray, Gzip.expand?_compress,
    Option.bind_some]
  exact fromUTF8?_toUTF8 text

theorem expandText?_toUTF8 (text : String) : expandText? text.toUTF8 = none := by
  rw [expandText?, Gzip.expand?_toUTF8, Option.bind_none]

/-! ### Reading a saved file -/

theorem Saved.read?_eq {content : ByteArray} {draft target : String}
    (h : fs.Saved settings path content draft target fs') : fs'.read? path = some content := by
  rw [read?, place?_mono h.current_eq h.directory h.target_eq, Option.bind_some, h.file]

/-- The text of a document is read again unless it is taken for a compressed one. -/
theorem readText_of_save (hf : DocumentFormat.ofPath? path = some f)
    (hsave : fs.save settings path v = (.ok (), fs')) :
    fs'.readText path = if DocumentFormat.hasCapitalEnd path then .error (.unexpanded path)
      else .ok (f.write settings.indentSize v) := by
  obtain ⟨draft, target, hsaved⟩ := exists_saved hsave
  rw [readText, hsaved.read?_eq, isCompressed_of_ofPath? hf, encode, hf, Option.getD_some,
    DocumentFormat.hasCapitalEnd]
  by_cases hraw : DocumentFormat.compressedEnd.isSuffixOf path.toList
  · have hlower := DocumentFormat.isSuffixOf_lower hraw
    simp only [hraw, hlower, expandText?_compressText, Bool.not_true, Bool.and_false, if_true,
      Bool.false_eq_true, if_false]
  · rw [Bool.not_eq_true] at hraw
    by_cases hlower : DocumentFormat.compressedEnd.isSuffixOf (Text.lower path.toList)
    · simp only [hraw, hlower, expandText?_toUTF8, Bool.not_false, Bool.and_true, if_true,
        Bool.false_eq_true, if_false]
    · rw [Bool.not_eq_true] at hlower
      simp only [hraw, hlower, fromUTF8?_toUTF8, Bool.false_and, Bool.false_eq_true, if_false]

end Files

/-- A reference to a file with a format in its path is read as one. -/
theorem Reference.resolve_file (hf : DocumentFormat.ofPath? path = some f) (fs : Files)
    (memory : Memory) : resolve fs memory ("@" ++ path) = load fs path := by
  obtain ⟨s, c, hpath, hc⟩ := DocumentFormat.exists_last hf
  have htrim : Text.trim ("@" ++ path).toList = '@' :: path.toList := by
    rw [String.toList_append, hpath]
    exact (congrArg Text.trimEnd (Text.trimStart_cons_of_not_isBlank (by decide))).trans
      (Text.trimEnd_append_of_not_isBlank (s := '@' :: s) hc)
  rw [resolve, parse, htrim]
  simp only [value, String.ofList_toList]

/-- **What is saved is loaded again**, directly and as a reference, provided that its text is read
back: unless the path ends in `.gz` with a capital letter, for then the file has not been
compressed but is taken for a compressed one. -/
theorem Files.load_of_save (memory : Memory) (hf : DocumentFormat.ofPath? path = some f)
    (hread : f.read? (f.write settings.indentSize v) = some v)
    (hsave : fs.save settings path v = (.ok (), fs')) :
    let capital := DocumentFormat.hasCapitalEnd path
    fs'.load path = (if capital then .error (.unexpanded path) else .ok v) ∧
      Reference.resolve fs' memory ("@" ++ path) =
        (if capital then .error (.inaccessible path) else .ok v) := by
  intro capital
  have htext := readText_of_save hf hsave
  rw [Reference.resolve_file hf, load, Reference.load, hf, htext]
  by_cases hcapital : DocumentFormat.hasCapitalEnd path
  · simp [capital, hcapital]
  · simp [capital, hcapital, hread]

theorem Files.load_of_save_compressed :
    let fs : Files := { nodes := [("/d", .directory), ("/d/A.Yml.gz", .file "old".toUTF8)] }
    let settings : Settings := { createBackup := true, outputFormat := "json" }
    let v : Value := .mapping [("zeta", .number (.integer 1)),
      ("alpha", .sequence [.string "true", .boolean true, .null])]
    ∃ fs', DocumentFormat.ofPath? "d/A.Yml.gz" = some .yaml ∧
      DocumentFormat.yaml.read? (DocumentFormat.yaml.write settings.indentSize v) = some v ∧
      fs.save settings "d/A.Yml.gz" v = (.ok (), fs') ∧
      DocumentFormat.hasCapitalEnd "d/A.Yml.gz" = false ∧ fs'.load "d/A.Yml.gz" = .ok v ∧
      Reference.resolve fs' [] ("@" ++ "d/A.Yml.gz") = .ok v := by
  intro fs settings v
  have hf : DocumentFormat.ofPath? "d/A.Yml.gz" = some .yaml := by decide
  have hread : DocumentFormat.yaml.read? (DocumentFormat.yaml.write settings.indentSize v) =
      some v := by decide +kernel
  have hsave := save_of_isOk fs settings "d/A.Yml.gz" v (by decide +kernel)
  have hcapital : DocumentFormat.hasCapitalEnd "d/A.Yml.gz" = false := by decide
  obtain ⟨hload, hresolve⟩ := load_of_save [] hf hread hsave
  rw [hcapital] at hload hresolve
  exact ⟨_, hf, hread, hsave, hcapital, hload, hresolve⟩

/-- A document saved under an ending in capital letters is not loaded again. -/
theorem Files.load_capital :
    let v : Value := .mapping [("a", .number (.integer 1))]
    ∃ fs', DocumentFormat.ofPath? "a.yaml.GZ" = some .yaml ∧
      DocumentFormat.yaml.read? (DocumentFormat.yaml.write 2 v) = some v ∧
      Files.save {} {} "a.yaml.GZ" v = (.ok (), fs') ∧
      fs'.load "a.yaml.GZ" = .error (.unexpanded "a.yaml.GZ") ∧
      Reference.resolve fs' [] "@a.yaml.GZ" = .error (.inaccessible "a.yaml.GZ") := by
  intro v
  have hf : DocumentFormat.ofPath? "a.yaml.GZ" = some .yaml := by decide
  have hsave := save_of_isOk {} {} "a.yaml.GZ" v (by decide +kernel)
  have htext := readText_of_save hf hsave
  have hcapital : DocumentFormat.hasCapitalEnd "a.yaml.GZ" := by decide
  rw [if_pos hcapital] at htext
  refine ⟨_, hf, by decide +kernel, hsave, ?_, ?_⟩
  · rw [load, htext]
  · rw [show "@a.yaml.GZ" = "@" ++ "a.yaml.GZ" by decide, Reference.resolve_file hf,
      Reference.load, hf, htext]

end YamlQuery

import YamlQuery.Proofs.Batch.Balance

/-!
# Proofs.Batch.Locations — where a failure is

A failure names a source, a line and a fault.  A statement that fails gives its own line
(`Point.FailsAt`), and neither loops nor other scripts change what they pass on.  So the failure of a
run is at the line of the statement that has failed, in the script that has this line
(`located_of_runFile`).  Only a script that cannot be read has no line to name.
-/

namespace YamlQuery.Batch

/-! ### Lines of a text -/

/-- The line is in a text, where it is written in the given way: under its number, with blanks at
its end, and neither blank nor a comment. -/
structure Line.IsIn (l : Line) (text : String) (raw : List Char) : Prop where
  number_pos : 0 < l.number
  written : (Text.lines text.toList)[l.number - 1]? = some raw
  text_eq : l.text = String.ofList (Text.trimEnd raw)
  content_eq : content? raw = some l.content.toList
  not_blank : Text.trim raw ≠ []
  not_comment : isCommentLine (Text.trim raw) = false

theorem isCommentLine_of_content? {raw content : List Char} (h : content? raw = some content) :
    isCommentLine (Text.trim raw) = false := by
  dsimp only [content?] at h
  split at h
  · cases h
  · next hline => exact Bool.eq_false_iff.2 hline

theorem Line.exists_of_mem_ofTexts {l : Line} : ∀ {texts : List (List Char)} {number : Nat},
    l ∈ Line.ofTexts number texts → ∃ i raw content, texts[i]? = some raw ∧
      content? raw = some content ∧
      l = ⟨number + i, String.ofList (Text.trimEnd raw), String.ofList content⟩
  | [], _, h => absurd h List.not_mem_nil
  | raw :: rest, number, h => by
    have hrest (h : l ∈ Line.ofTexts (number + 1) rest) : ∃ i raw' content,
        (raw :: rest)[i]? = some raw' ∧ content? raw' = some content ∧
        l = ⟨number + i, String.ofList (Text.trimEnd raw'), String.ofList content⟩ := by
      obtain ⟨i, raw', content, hi, hcontent, rfl⟩ := exists_of_mem_ofTexts h
      refine ⟨i + 1, raw', content, hi, hcontent, ?_⟩
      rw [Nat.add_right_comm, Nat.add_assoc]
    rw [ofTexts] at h
    split at h
    · next content hcontent =>
      obtain rfl | h := List.mem_cons.1 h
      · exact ⟨0, raw, content, rfl, hcontent, rfl⟩
      · exact hrest h
    · exact hrest h

theorem Line.exists_isIn {l : Line} {source text : String}
    (h : l ∈ (Script.parse source text).lines) : ∃ raw, l.IsIn text raw := by
  obtain ⟨i, raw, content, hi, hcontent, rfl⟩ := exists_of_mem_ofTexts h
  have hcomment := isCommentLine_of_content? hcontent
  refine ⟨raw, ?_, ?_, rfl, ?_, ?_, hcomment⟩
  · dsimp only
    omega
  · dsimp only
    rwa [Nat.add_sub_cancel_left]
  · rw [hcontent, String.toList_ofList]
  · intro hblank
    rw [hblank] at hcomment
    cases hcomment

/-! ### The statement that fails -/

namespace Point

/-- The next statement, at a line, is the one that fails, and the failure names this line; where a
loop is not closed, or has nothing to go through, it is the line that opens the loop. -/
structure FailsAt (p : Point) (l : Line) (e : Failure) : Prop where
  next : ∃ t, p.script.next? = some (l, t)
  faults : p.Faults e
  source_eq : e.source = p.script.source
  line_eq : e.line = l.number
  text_eq : e.text = l.text
  opens : (e.fault = .openLoop ∨ ∃ found, e.fault = .loopShape found) →
    Statement.parse l.content = .ok .foreach

variable {p : Point} {e : Failure}

/-- A statement fails at its own line, unless it runs a script that cannot be read. -/
theorem Faults.failsAt (h : p.Faults e) : (∃ l, p.FailsAt l e) ∨
    ∃ l t, p.Calls l t e.source ∧ Script.load? p.machine.files e.source = none ∧
      e = ⟨e.source, 0, "", .unreadable⟩ := by
  have hfaults := h
  cases h with
  | malformed hnext =>
    refine .inl ⟨_, ⟨_, hnext⟩, hfaults, rfl, rfl, rfl, ?_⟩
    rintro (h | ⟨found, h⟩) <;> cases h
  | strayEnd hnext =>
    refine .inl ⟨_, ⟨_, hnext.line⟩, hfaults, rfl, rfl, rfl, ?_⟩
    rintro (h | ⟨found, h⟩) <;> cases h
  | openLoop hnext =>
    exact .inl ⟨_, ⟨_, hnext.line⟩, hfaults, rfl, rfl, rfl, fun _ => hnext.parse⟩
  | shape hloop =>
    obtain ⟨t, hnext, -⟩ := hloop
    exact .inl ⟨_, ⟨_, hnext.line⟩, hfaults, rfl, rfl, rfl, fun _ => hnext.parse⟩
  | plain hnext _ hexec =>
    have hplain := Machine.isPlain_of_execute hexec
    refine .inl ⟨_, ⟨_, hnext.line⟩, hfaults, rfl, rfl, rfl, ?_⟩
    rintro (h | ⟨found, h⟩)
    · exact absurd (.inl h) hplain.not_isBlock
    · cases h
      exact hplain.elim
  | tooDeep hcalls =>
    obtain ⟨text, hnext, -⟩ := hcalls
    refine .inl ⟨_, ⟨_, hnext.line⟩, hfaults, rfl, rfl, rfl, ?_⟩
    rintro (h | ⟨found, h⟩) <;> cases h
  | unreadable hcalls _ hload => exact .inr ⟨_, _, hcalls, hload, rfl⟩

end Point

/-! ### Runs of files -/

/-- The text of the script in a file. -/
def Script.text? (files : Files) (path : String) : Option String :=
  (files.read? path).bind (String.fromUTF8? ·)

/-- The run of the file at a path asks for the script at that path or for another one, when the files
are the given ones. -/
inductive AsksFor (depth : Nat) (path : String) (v : Value) (m : Machine) : String → Files → Prop
  | main : AsksFor depth path v m path m.files
  | called {s : Script} {q : Point} {l : Line} {t : Script} {other : String} :
      Script.load? m.files path = some s → (s.begin depth v m).Reaches q → q.Calls l t other →
        AsksFor depth path v m other q.machine.files

section Files

variable {depth : Nat} {path : String} {v : Value} {m m' : Machine} {s : Script} {e : Failure} {files : Files}

theorem Script.load?_eq_some (h : Script.load? files path = some s) :
    ∃ text, Script.text? files path = some text ∧ s = Script.parse path text := by
  obtain ⟨text, htext, rfl⟩ := Option.map_eq_some_iff.1 h
  exact ⟨text, htext, rfl⟩

theorem Script.text?_eq_none (h : Script.load? files path = none) :
    Script.text? files path = none :=
  Option.map_eq_none_iff.1 h

/-- At every point that the run of a file comes to, the script is a window over one that the run has
asked for. -/
theorem exists_asksFor {q : Point} (hload : Script.load? m.files path = some s)
    (hq : (s.begin depth v m).Reaches q) : ∃ files text, AsksFor depth path v m q.script.source files ∧
      Script.text? files q.script.source = some text ∧
      (Script.parse q.script.source text).SameText q.script := by
  obtain ⟨text, htext, rfl⟩ := Script.load?_eq_some hload
  obtain hown | ⟨other, u, ⟨r, l, t, hr, hcalls, hu⟩, hheld⟩ := hq.holds (Script.holds_parse path text)
  · obtain hsource : q.script.source = path := hown.text.source_eq
    rw [hsource]
    exact ⟨m.files, text, .main, htext, hown.text⟩
  · obtain ⟨text', htext', rfl⟩ := Script.load?_eq_some hu
    obtain hsource : q.script.source = other := hheld.text.source_eq
    rw [hsource]
    exact ⟨r.machine.files, text', .called hload hr hcalls, htext', hheld.text⟩

/-- **Failures name their lines.**  If the run of a file fails at a line with a number, then the
source is that of a script which the run has asked for, and this is the line of the script's text
with the number, without blanks at its end and neither blank nor a comment.  The run has come to a
point in this script where the statement of this line is next, and it is this statement that fails.
There is no number only where a script that the run has asked for cannot be read. -/
theorem located_of_runFile (hrun : runFileTo depth path v m = (.error e, m')) :
    (0 < e.line → ∃ files text raw s q l, AsksFor depth path v m e.source files ∧
      Script.text? files e.source = some text ∧ l.IsIn text raw ∧
      Script.load? m.files path = some s ∧ (s.begin depth v m).Reaches q ∧
      (Script.parse e.source text).SameText q.script ∧ q.FailsAt l e) ∧
    (e.line = 0 → e.fault = .unreadable ∧ e.text = "" ∧
      ∃ files, AsksFor depth path v m e.source files ∧ Script.text? files e.source = none) := by
  rw [runFileTo] at hrun
  rcases hload : Script.load? m.files path with _ | s
  · rw [hload] at hrun
    cases hrun
    exact ⟨fun h => absurd h (Nat.lt_irrefl 0),
      fun _ => ⟨rfl, rfl, m.files, .main, Script.text?_eq_none hload⟩⟩
  · rw [hload] at hrun
    obtain ⟨q, hq, hfaults⟩ := Point.exists_faults (p := s.begin depth v m) hrun
    obtain ⟨l, hl⟩ | ⟨l, t, hcalls, hnone, he⟩ := hfaults.failsAt
    · obtain ⟨files, text, hasks, htext, hsame⟩ := exists_asksFor hload hq
      rw [← hl.source_eq] at hasks htext hsame
      obtain ⟨t, hnext⟩ := hl.next
      have hmem := Script.mem_lines_of_next? hnext
      rw [hsame.lines_eq] at hmem
      obtain ⟨raw, hraw⟩ := Line.exists_isIn hmem
      refine ⟨fun _ => ⟨files, text, raw, s, q, l, hasks, htext, hraw, rfl, hq, hsame, hl⟩,
        fun hzero => ?_⟩
      have hpos := hraw.number_pos
      rw [← hl.line_eq, hzero] at hpos
      exact absurd hpos (Nat.lt_irrefl 0)
    · rw [he]
      exact ⟨fun h => absurd h (Nat.lt_irrefl 0), fun _ => ⟨rfl, rfl, q.machine.files,
        .called hload hq hcalls, Script.text?_eq_none hnone⟩⟩

theorem located_of_runFile_called :
    let m : Machine := { files := { nodes :=
      [("/main", .file "foreach\n  batch sub\nend\n".toUTF8),
        ("/sub", .file "# text\n\n  print !x # none\n".toUTF8)] } }
    let e : Failure := ⟨"sub", 3, "  print !x # none", .reference (.nothingStored "x")⟩
    let v : Value := .sequence [.null]
    (runFile "main" v m).1 = .error e ∧
      (0 < e.line → ∃ files text raw s q l, AsksFor deepest "main" v m e.source files ∧
        Script.text? files e.source = some text ∧ l.IsIn text raw ∧
        Script.load? m.files "main" = some s ∧ (s.begin deepest v m).Reaches q ∧
        (Script.parse e.source text).SameText q.script ∧ q.FailsAt l e) ∧
      (e.line = 0 → e.fault = .unreadable ∧ e.text = "" ∧
        ∃ files, AsksFor deepest "main" v m e.source files ∧ Script.text? files e.source = none) := by
  intro m e v
  have hrun : (runFile "main" v m).1 = .error e := by decide +kernel
  exact ⟨hrun, located_of_runFile (Prod.ext hrun rfl)⟩

end Files

end YamlQuery.Batch

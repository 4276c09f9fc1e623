import YamlQuery.Proofs.Batch.Blocks
import YamlQuery.Proofs.Batch.Points

/-!
# Proofs.Batch.Balance — scripts that close each loop they open

In a balanced script the lines that are left are balanced at every point that a run comes to
(`Point.Reaches.holds`): behind a line that is no delimiter, in the body of a loop, and behind
the end of the loop.  So a run never comes to an end that closes nothing or to a loop that stays
open, but for those in other scripts that it runs (`Script.exists_unbalanced_of_run`).
-/

namespace YamlQuery.Batch

/-! ### Balanced lines -/

section Lines

variable {l e : Line} {ls ms ks : List Line}

instance (ls : List Line) : Decidable (Balanced ls) :=
  decidable_of_iff (closings ls = openings ls ∧ blockLength? 0 ls = none)
    ⟨fun h => ⟨h.1, blockLength?_eq_none_iff.1 h.2⟩,
      fun h => ⟨h.settled, blockLength?_eq_none_iff.2 h.within⟩⟩

theorem balanced_cons_of_other (ho : l.keyword ≠ Statement.openWord)
    (hc : l.keyword ≠ Statement.closeWord) (h : Balanced (l :: ls)) : Balanced ls := by
  obtain ⟨hopenings, hclosings⟩ :
      openings (l :: ls) = openings ls ∧ closings (l :: ls) = closings ls :=
    openings_cons_of_other ho hc
  exact ⟨by rw [← hclosings, h.settled, hopenings], (within_cons_of_other ho hc).1 h.within⟩

theorem not_balanced_cons_of_close (hc : l.keyword = Statement.closeWord) :
    ¬ Balanced (l :: ls) :=
  fun h => not_within_cons_of_close hc h.within

/-- A loop that balanced lines open is closed by one of them. -/
theorem not_within_of_open (ho : l.keyword = Statement.openWord) (h : Balanced (l :: ls)) :
    ¬ Within 0 ls := by
  intro hw
  obtain ⟨hopenings, hclosings⟩ :
      openings (l :: ls) = openings ls + 1 ∧ closings (l :: ls) = closings ls :=
    openings_cons_of_open ho
  have hall := hw ls (List.prefix_refl _)
  have hsettled := h.settled
  omega

/-- Behind the end of a loop with a balanced body, balanced lines are balanced. -/
theorem balanced_behind (ho : l.keyword = Statement.openWord)
    (hc : e.keyword = Statement.closeWord) (hms : Balanced ms)
    (h : Balanced (l :: (ms ++ e :: ks))) : Balanced ks := by
  have hcounts (js : List Line) : openings (l :: (ms ++ e :: js)) = openings ms + openings js + 1 ∧
      closings (l :: (ms ++ e :: js)) = closings ms + closings js + 1 := by
    rw [(openings_cons_of_open ho).1, (openings_cons_of_open ho).2, openings_append,
      closings_append, (openings_cons_of_close hc).1, (openings_cons_of_close hc).2]
    exact ⟨rfl, rfl⟩
  have hsettled := hms.settled
  refine ⟨?_, fun js hjs => ?_⟩
  · have hall := h.settled
    rw [(hcounts ks).1, (hcounts ks).2] at hall
    omega
  · have hfront := h.within (l :: (ms ++ e :: js))
      (List.cons_prefix_cons.2 ⟨rfl, (List.prefix_append_right_inj ms).2
        (List.cons_prefix_cons.2 ⟨rfl, hjs⟩)⟩)
    rw [(hcounts js).1, (hcounts js).2] at hfront
    omega

theorem Line.keyword_ne_of_parse {st : Statement} (h : Statement.parse l.content = .ok st)
    {d : Delimiter} (hst : st ≠ d.statement) : l.keyword ≠ d.word := by
  intro hkey
  obtain ⟨-, hparse⟩ | ⟨-, w, hparse⟩ := parse_of_keyword hkey
  · exact hst (Except.ok.inj (h.symm.trans hparse))
  · cases h.symm.trans hparse

end Lines

/-- The fault is about where loops begin and end. -/
def Fault.IsBlock (f : Fault) : Prop := f = .openLoop ∨ f = .strayEnd

/-- The fault is one of the data that a plain statement works on. -/
def Fault.IsPlain : Fault → Prop
  | .noSource _ | .reference _ | .command _ => True
  | _ => False

theorem Fault.IsPlain.not_isBlock {f : Fault} (h : f.IsPlain) : ¬ f.IsBlock := by
  rintro (rfl | rfl) <;> exact h

theorem Machine.isPlain_of_loadProperties {m : Machine} {text : String} {f : Fault}
    (h : m.loadProperties text = .error f) : f.IsPlain := by
  rw [loadProperties] at h
  split at h
  · cases h
    trivial
  · split at h <;> cases h
    trivial

theorem Machine.isPlain_of_printedText {m : Machine} {v : Value} {s : List Char} {f : Fault}
    (h : m.printedText v s = .error f) : f.IsPlain := by
  unfold printedText at h
  split at h
  · cases h
  · split at h <;> cases h
    trivial
  · cases h

theorem Machine.isPlain_of_printout {m : Machine} {v : Value} {text : String} {f : Fault}
    (h : m.printout v text = .error f) : f.IsPlain := by
  dsimp only [printout] at h
  split at h
  · rcases hs : m.printedText v (text.toList.take (text.toList.length - 2)) with g | s
    · rw [hs] at h
      cases h
      exact isPlain_of_printedText hs
    · rw [hs] at h
      cases h
  · exact isPlain_of_printedText h

theorem Machine.isPlain_of_command {m : Machine} {v : Value} {line : String} {f : Fault}
    (h : m.command v line = .error f) : f.IsPlain := by
  rw [command] at h
  split at h
  · cases h
    trivial
  · split at h <;> cases h
    trivial

/-- Statements that neither open nor close loops do not fail for them. -/
theorem Machine.isPlain_of_execute {m m' : Machine} {v : Value} {st : Statement} {f : Fault}
    (h : m.execute v st = (.error f, m')) : f.IsPlain := by
  cases st with
  | properties name reference =>
    rw [execute] at h
    split at h <;> cases h
    next hload => exact isPlain_of_loadProperties hload
  | setProperty => cases h
  | print text =>
    rw [execute] at h
    split at h <;> cases h
    next hprint => exact isPlain_of_printout hprint
  | saveTo target =>
    rw [execute] at h
    split at h <;> cases h
    trivial
  | useAsInput source =>
    rw [execute] at h
    split at h <;> cases h
    trivial
  | command name arguments => exact isPlain_of_command (Prod.mk.inj h).1
  | foreach | close | script => cases h

/-- A loop over a value without rounds fails for the shape of the value. -/
theorem exists_loopShape_of_rounds {v : Value} {f : Fault} (h : rounds v = .error f) :
    ∃ found, f = .loopShape found := by
  unfold rounds at h
  split at h
  · split at h <;> cases h
    exact ⟨_, rfl⟩
  · split at h <;> cases h
    exact ⟨_, rfl⟩
  · cases h
    exact ⟨_, rfl⟩

/-! ### Windows over balanced scripts -/

namespace Script

/-- The second script is a window over the lines of the first, and if all of these are balanced, so
are those that are left in the window. -/
structure Holds (s t : Script) : Prop where
  text : s.SameText t
  balanced : Balanced s.lines → Balanced t.rest

variable {s t u body : Script} {l : Line}

theorem holds_parse (source text : String) : (parse source text).Holds (parse source text) where
  text := ⟨rfl, rfl⟩
  balanced h := by
    have hrest : (parse source text).rest = (parse source text).lines :=
      List.take_of_length_le (Nat.le_refl _)
    rwa [hrest]

theorem Holds.of_other (h : s.Holds u) (hnext : u.next? = some (l, t))
    (ho : l.keyword ≠ Statement.openWord) (hc : l.keyword ≠ Statement.closeWord) : s.Holds t where
  text := h.text.trans (sameText_of_next? hnext)
  balanced hs := by
    have hrest := h.balanced hs
    rw [rest_of_next? hnext] at hrest
    exact balanced_cons_of_other ho hc hrest

theorem Holds.of_block (h : s.Holds u) (hnext : u.next? = some (l, t))
    (ho : l.keyword = Statement.openWord) {t' : Script} (hblock : t.takeBlock? = some (body, t')) :
    s.Holds body ∧ s.Holds t' := by
  obtain ⟨e, hsplit⟩ := splits_of_takeBlock? hblock
  obtain ⟨hbody, hbehind⟩ := sameText_of_takeBlock? hblock
  have ht : s.SameText t := h.text.trans (sameText_of_next? hnext)
  refine ⟨⟨ht.trans hbody, fun _ => ?_⟩, ⟨ht.trans hbehind, fun hs => ?_⟩⟩
  · have hwindow : body.rest = body.window := by
      rw [hsplit.body_eq]
      rfl
    rw [hwindow]
    exact hsplit.balanced
  · have hrest := h.balanced hs
    rw [rest_of_next? hnext, hsplit.rest_eq] at hrest
    exact balanced_behind ho hsplit.closes hsplit.balanced hrest

/-- What the lines of a script say. -/
def statements (s : Script) : List (Except StatementError Statement) :=
  s.lines.map (Statement.parse ·.content)

/-- What the lines hold that are left. -/
def contents (s : Script) : List String := s.rest.map (·.content)

/-- Every statement that a line writes that is left is as given. -/
def Each (P : Statement → Prop) (s : Script) : Prop :=
  ∀ text ∈ s.contents, ∀ st, Statement.parse text = .ok st → P st

theorem contents_of_next? (h : s.next? = some (l, t)) : s.contents = l.content :: t.contents := by
  rw [contents, rest_of_next? h, List.map_cons, contents]

theorem contents_of_takeBlock? (h : t.takeBlock? = some (body, t')) :
    ∃ text, t.contents = body.contents ++ text :: t'.contents := by
  obtain ⟨e, he⟩ := rest_of_takeBlock? h
  exact ⟨e.content, by rw [contents, he, List.map_append, List.map_cons, contents, contents]⟩

theorem Each.statement {P : Statement → Prop} {st : Statement} (h : s.Each P)
    (hnext : s.next? = some (l, t)) (hparse : Statement.parse l.content = .ok st) : P st := by
  rw [Each, contents_of_next? hnext] at h
  exact h _ List.mem_cons_self st hparse

theorem Each.next {P : Statement → Prop} (h : s.Each P) (hnext : s.next? = some (l, t)) :
    t.Each P := by
  rw [Each, contents_of_next? hnext] at h
  exact fun text htext => h text (List.mem_cons_of_mem _ htext)

theorem Each.takeBlock {P : Statement → Prop} (h : t.Each P)
    (hblock : t.takeBlock? = some (body, t')) : body.Each P ∧ t'.Each P := by
  obtain ⟨text, hcontents⟩ := contents_of_takeBlock? hblock
  rw [Each, hcontents] at h
  exact ⟨fun text htext => h text (List.mem_append_left _ htext),
    fun text htext => h text (List.mem_append_right _ (List.mem_cons_of_mem _ htext))⟩

/-- What follows for a script from all scripts with fewer lines left holds of all scripts. -/
theorem induction_rest {P : Script → Prop}
    (h : ∀ s, (∀ t : Script, t.rest.length < s.rest.length → P t) → P s) (s : Script) : P s :=
  (measure fun s : Script => s.rest.length).wf.induction s h

/-- Where a loop is opened in balanced lines, its end is found. -/
theorem takeBlock?_ne_none (hu : Balanced u.rest) (hnext : u.next? = some (l, t))
    (ho : l.keyword = Statement.openWord) : t.takeBlock? ≠ none := by
  rw [rest_of_next? hnext] at hu
  exact mt takeBlock?_eq_none_iff.1 (not_within_of_open ho hu)

end Script

namespace Point

variable {p q : Point} {s t body : Script} {l : Line} {st : Statement} {e : Failure}

theorem Next.holds (h : p.Next l t st) (hs : s.Holds p.script) (ho : st ≠ .foreach)
    (hc : st ≠ .close) : s.Holds t :=
  hs.of_other h.line (Line.keyword_ne_of_parse h.parse (d := .opening) ho)
    (Line.keyword_ne_of_parse h.parse (d := .closing) hc)

theorem Loop.holds (h : p.Loop l body t) (hs : s.Holds p.script) : s.Holds body ∧ s.Holds t := by
  obtain ⟨t₀, hnext, hblock⟩ := h
  exact hs.of_block hnext.line (Line.keyword_of_parse (d := .opening) hnext.parse) hblock

theorem Passes.holds (h : p.Passes q) (hs : s.Holds p.script) : s.Holds q.script := by
  cases h with
  | plain hnext hst =>
    exact hnext.holds hs (by rintro rfl; exact hst) (by rintro rfl; exact hst)
  | loop hloop => exact (hloop.holds hs).2
  | script hcalls =>
    obtain ⟨text, hnext, -⟩ := hcalls
    exact hnext.holds hs nofun nofun

/-- On the way from a point, the script at a path is run by another one. -/
def Loads (p : Point) (path : String) (u : Script) : Prop :=
  ∃ q l t, p.Reaches q ∧ q.Calls l t path ∧ Script.load? q.machine.files path = some u

/-- A step stays in the script, or goes into one that it loads. -/
theorem Step.holds (h : p.Step q) (hs : s.Holds p.script) : s.Holds q.script ∨
    ∃ l t path u, p.Calls l t path ∧ Script.load? p.machine.files path = some u ∧
      u.Holds q.script := by
  rcases h with hpasses | henters
  · exact .inl (hpasses.holds hs)
  · cases henters with
    | round hloop => exact .inl (hloop.holds hs).1
    | script hcalls _ hload =>
      refine .inr ⟨_, _, _, _, hcalls, hload, ?_⟩
      obtain ⟨content, -, rfl⟩ := Option.map_eq_some_iff.1 hload
      exact Script.holds_parse _ _

/-- A run stays in its script, or is in one that has been loaded on the way. -/
theorem Reaches.holds (h : p.Reaches q) (hs : s.Holds p.script) :
    s.Holds q.script ∨ ∃ path u, p.Loads path u ∧ u.Holds q.script := by
  induction h with
  | refl => exact .inl hs
  | @tail q r hq hstep ih =>
    have hloads {l : Line} {t : Script} {path : String} {u : Script} (hcalls : q.Calls l t path)
        (hload : Script.load? q.machine.files path = some u) : p.Loads path u :=
      ⟨q, l, t, hq, hcalls, hload⟩
    obtain hown | ⟨path, u, hu, hq⟩ := ih
    · obtain hr | ⟨l, t, path, u, hcalls, hload, hr⟩ := hstep.holds hown
      · exact .inl hr
      · exact .inr ⟨path, u, hloads hcalls hload, hr⟩
    · obtain hr | ⟨l, t, path, u, hcalls, hload, hr⟩ := hstep.holds hq
      · exact .inr ⟨path, u, hu, hr⟩
      · exact .inr ⟨path, u, hloads hcalls hload, hr⟩

/-- A run whose script runs no others executes the statements of its lines. -/
theorem Reaches.mem_statements {l : Line} {t : Script} {st : Statement} (h : p.Reaches q)
    (hs : s.Holds p.script) (hscript : ∀ path, .ok (.script path) ∉ s.statements)
    (hnext : q.Next l t st) : .ok st ∈ s.statements := by
  have hmem {r : Point} {l : Line} {t : Script} {st : Statement} (hr : s.Holds r.script)
      (hnext : r.Next l t st) : .ok st ∈ s.statements := by
    have hl := Script.mem_lines_of_next? hnext.line
    rw [hr.text.lines_eq] at hl
    exact List.mem_map.2 ⟨l, hl, hnext.parse⟩
  suffices hq : s.Holds q.script from hmem hq hnext
  clear hnext
  induction h with
  | refl => exact hs
  | tail _ hstep ih =>
    obtain hr | ⟨l, t, path, u, ⟨text, hnext, -⟩, -, -⟩ := hstep.holds ih
    · exact hr
    · exact absurd (hmem ih hnext) (hscript text)

/-- A statement that fails for the begin or the end of a loop stands before lines that are not
balanced. -/
theorem Faults.not_balanced (h : p.Faults e) (he : e.fault.IsBlock) :
    ¬ Balanced p.script.rest ∧ ∃ l ∈ p.script.lines, e = e.fault.at p.script l := by
  cases h with
  | malformed => exact absurd he (by simp [Fault.at, Fault.IsBlock])
  | strayEnd hnext =>
    refine ⟨fun hp => ?_, _, Script.mem_lines_of_next? hnext.line, rfl⟩
    rw [Script.rest_of_next? hnext.line] at hp
    exact not_balanced_cons_of_close (Line.keyword_of_parse (d := .closing) hnext.parse) hp
  | openLoop hnext hblock =>
    refine ⟨fun hp => ?_, _, Script.mem_lines_of_next? hnext.line, rfl⟩
    exact Script.takeBlock?_ne_none hp hnext.line
      (Line.keyword_of_parse (d := .opening) hnext.parse) hblock
  | shape _ hrounds =>
    obtain ⟨found, rfl⟩ := exists_loopShape_of_rounds hrounds
    exact absurd he (by simp [Fault.at, Fault.IsBlock])
  | plain _ _ hexec => exact absurd he (Machine.isPlain_of_execute hexec).not_isBlock
  | tooDeep => exact absurd he (by simp [Fault.at, Fault.IsBlock])
  | unreadable => exact absurd he (by simp [Fault.IsBlock])

end Point

/-- The point at which the run of a script starts. -/
def Script.begin (s : Script) (depth : Nat) (v : Value) (m : Machine) : Point where
  depth
  script := s
  value := v
  machine := m

/-- **Balanced scripts do not fail for their loops.**  If a run of a balanced script fails because a
loop is not closed, or because an end closes nothing, then this is at a line of another script, which
the run has loaded on its way and which is not balanced. -/
theorem Script.exists_unbalanced_of_run {source text : String} {depth : Nat} {v : Value}
    {m m' : Machine} {e : Failure} (h : Balanced (parse source text).lines)
    (hrun : runTo depth (parse source text) v m = (.error e, m')) (he : e.fault.IsBlock) :
    ∃ path u, ((parse source text).begin depth v m).Loads path u ∧ ¬ Balanced u.lines ∧
      ∃ l ∈ u.lines, e = e.fault.at u l := by
  have hout : ((parse source text).begin depth v m).outcome = (.error e, m') := hrun
  obtain ⟨q, hq, hfaults⟩ := Point.exists_faults hout
  obtain ⟨hrest, l, hl, hat⟩ := hfaults.not_balanced he
  obtain hown | ⟨path, u, hload, hu⟩ := hq.holds (holds_parse source text)
  · exact absurd (hown.balanced h) hrest
  · refine ⟨path, u, hload, fun hbalanced => hrest (hu.balanced hbalanced), l,
      hu.text.lines_eq ▸ hl, ?_⟩
    rw [hat, Fault.at, Fault.at, hu.text.source_eq]

theorem Script.exists_unbalanced_of_run_called :
    let s := parse "main" "foreach\n  batch bad\nend\n"
    let m : Machine := { files := { nodes := [("/bad", .file "end".toUTF8)] } }
    let e : Failure := ⟨"bad", 1, "end", .strayEnd⟩
    Balanced s.lines ∧ (run s (.sequence [.null]) m).1 = .error e ∧ e.fault.IsBlock ∧
      ∃ path u, (s.begin deepest (.sequence [.null]) m).Loads path u ∧ ¬ Balanced u.lines ∧
        ∃ l ∈ u.lines, e = e.fault.at u l := by
  intro s m e
  have h : Balanced s.lines := by decide +kernel
  have hrun : (run s (.sequence [.null]) m).1 = .error e := by decide +kernel
  have he : e.fault.IsBlock := .inr rfl
  exact ⟨h, hrun, he, exists_unbalanced_of_run h (Prod.ext hrun rfl) he⟩

end YamlQuery.Batch

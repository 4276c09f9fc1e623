import YamlQuery.Proofs.Document.Entries
import YamlQuery.Proofs.Text.Trimming
import YamlQuery.Reference

/-!
# Proofs.Reference.Memory — values saved under a name

A reference that is no file has a name (`Reference.memoryName?`), and a value that is saved to it is
found under this name however it is written: with or without `!` and with blanks around it.  It stays
there until the name is saved to again or removed (`recall_of_save`).
-/

namespace YamlQuery

/-- The name under which a value is stored when it is saved to the reference. -/
def Reference.memoryName? : Reference → Option String
  | .file _ => none
  | .stored name | .inline name => some name

theorem Reference.memory_of_save {settings : Settings} {text : String} {v : Value}
    {memory memory' : Memory} {fs fs' : Files}
    (h : save settings text v memory fs = (.ok memory', fs')) :
    memory' = memory ∨ ∃ name, (parse text).memoryName? = some name ∧
      memory' = memory.put name v := by
  unfold save at h
  split at h
  · split at h
    · cases h
    · split at h <;> cases h
      exact .inl rfl
  · next name hparse =>
    cases h
    exact .inr ⟨name, by rw [hparse]; rfl, rfl⟩
  · next name hparse =>
    cases h
    exact .inr ⟨name, by rw [hparse]; rfl, rfl⟩

namespace Reference

variable {settings : Settings} {fs : Files} {memory : Memory} {text name : String} {v : Value}

/-! ### Names in references -/

/-- The name of a reference is its text without blanks at the ends and without one `!` in front. -/
theorem memoryName?_eq_some_iff : (parse text).memoryName? = some name ↔
    Text.trim text.toList = '!' :: name.toList ∨ Text.trim text.toList = name.toList ∧
      name.toList.head? ≠ some '@' ∧ name.toList.head? ≠ some '!' := by
  unfold parse
  split
  · next path htrim =>
    refine ⟨nofun, ?_⟩
    rintro (h | ⟨h, hfile, -⟩)
    · cases htrim.symm.trans h
    · exact absurd (by rw [← h, htrim]; rfl) hfile
  · next n htrim =>
    have hname : (stored (String.ofList n)).memoryName? = some name ↔ n = name.toList := by
      simp [memoryName?, ← String.toList_inj]
    rw [hname, htrim]
    refine ⟨fun h => .inl (by rw [h]), ?_⟩
    rintro (h | ⟨h, -, hmark⟩)
    · exact (List.cons.inj h).2
    · exact absurd (by rw [← h]; rfl) hmark
  · next hfile hstored =>
    have hname : (inline (String.ofList (Text.trim text.toList))).memoryName? = some name ↔
        Text.trim text.toList = name.toList := by
      simp [memoryName?, ← String.toList_inj]
    rw [hname]
    constructor
    · intro h
      refine .inr ⟨h, fun hat => ?_, fun hmark => ?_⟩
      · obtain ⟨path, hpath⟩ := List.head?_eq_some_iff.1 hat
        exact hfile path (h.trans hpath)
      · obtain ⟨n, hn⟩ := List.head?_eq_some_iff.1 hmark
        exact hstored n (h.trans hn)
    · rintro (h | ⟨h, -, -⟩)
      · exact absurd h (hstored _)
      · exact h

theorem exists_memoryName (h : (Text.trim text.toList).head? ≠ some '@') :
    ∃ name, (parse text).memoryName? = some name := by
  unfold parse
  split
  · next htrim => exact absurd (by rw [htrim]; rfl) h
  · exact ⟨_, rfl⟩
  · exact ⟨_, rfl⟩

/-- Blanks may be added around a reference. -/
theorem parse_between {before behind : String} (hbefore : before.toList.all Text.isBlank)
    (hbehind : behind.toList.all Text.isBlank) (text : String) :
    parse (before ++ text ++ behind) = parse text := by
  unfold parse
  rw [String.toList_append, String.toList_append, Text.trim_between hbefore hbehind]

/-- The name may be written with `!` in front. -/
theorem parse_mark (h : (parse text).memoryName? = some name) : parse ("!" ++ name) = .stored name := by
  have hname : Text.trimEnd name.toList = name.toList := by
    obtain htrim | ⟨htrim, -⟩ := memoryName?_eq_some_iff.1 h
    · have hself := Text.trimEnd_trim text.toList
      rw [htrim, Text.trimEnd_cons_of_not_isBlank (by decide)] at hself
      exact (List.cons.inj hself).2
    · rw [← htrim, Text.trimEnd_trim]
  have htrim : Text.trim ("!" ++ name).toList = '!' :: name.toList := by
    rw [String.toList_append]
    show Text.trimEnd (Text.trimStart ('!' :: name.toList)) = _
    rw [Text.trimStart_cons_of_not_isBlank (by decide), Text.trimEnd_cons_of_not_isBlank (by decide),
      hname]
  unfold parse
  rw [htrim]
  exact congrArg stored String.ofList_toList

/-! ### Saving and recalling -/

theorem save_of_memoryName? (h : (parse text).memoryName? = some name) :
    save settings text v memory fs = (.ok (memory.put name v), fs) := by
  unfold save
  cases hparse : parse text with
  | file path => rw [hparse] at h; cases h
  | stored n | inline n =>
    rw [hparse] at h
    cases h
    rfl

theorem resolveNamed_of_memoryName? (h : (parse text).memoryName? = some name)
    (hv : memory.get? name = some v) : resolveNamed fs memory text = .ok v := by
  unfold resolveNamed
  cases hparse : parse text with
  | file path => rw [hparse] at h; cases h
  | stored n | inline n =>
    rw [hparse] at h
    cases h
    simp [value, storedValue, hv]

end Reference

/-! ### Calls that change memory -/

namespace Memory

/-- A call that changes memory: a value is saved to a reference, or stored or removed by name. -/
inductive Call
  | save (settings : Settings) (text : String) (v : Value)
  | store (name : String) (v : Value)
  | remove (name : String)

namespace Call

/-- The name that a call is about. -/
def name? : Call → Option String
  | save _ text _ => (Reference.parse text).memoryName?
  | store name _ => some name
  | remove name => some name

/-- Memory and files after a call; one that fails leaves memory as it is. -/
def apply (state : Memory × Files) : Call → Memory × Files
  | save settings text v =>
    match Reference.save settings text v state.1 state.2 with
    | (.ok memory, fs) => (memory, fs)
    | (.error _, fs) => (state.1, fs)
  | store name v => (state.1.put name v, state.2)
  | remove name => (state.1.erase name, state.2)

end Call

variable {name : String}

theorem get?_apply {c : Call} (h : c.name? ≠ some name) (state : Memory × Files) :
    (c.apply state).1.get? name = state.1.get? name := by
  cases c with
  | save settings text v =>
    rw [Call.apply]
    split
    · next memory fs hsave =>
      obtain rfl | ⟨other, hother, rfl⟩ := Reference.memory_of_save hsave
      · rfl
      · have hne : name ≠ other := fun heq => h (heq ▸ hother)
        rw [Entries.get?_put, if_neg hne]
    · rfl
  | store other v =>
    have hne : name ≠ other := fun heq => h (congrArg some heq.symm)
    show Entries.get? name (Entries.put other v state.1) = _
    rw [Entries.get?_put, if_neg hne]
  | remove other =>
    have hne : name ≠ other := fun heq => h (congrArg some heq.symm)
    exact Entries.get?_erase_of_ne hne state.1

/-- Calls that are about other names leave the value of a name alone. -/
theorem get?_foldl_apply {calls : List Call} (h : ∀ c ∈ calls, c.name? ≠ some name)
    (state : Memory × Files) :
    (calls.foldl Call.apply state).1.get? name = state.1.get? name := by
  induction calls generalizing state with
  | nil => rfl
  | cons c calls ih =>
    obtain ⟨hc, hcalls⟩ := List.forall_mem_cons.1 h
    rw [List.foldl_cons, ih hcalls, get?_apply hc]

end Memory

/-- **Saved values are recalled.**  A value that is saved to a reference other than a file takes the
place of the one under its name, or comes behind all others.  It is recalled as long as no call is
about this name, also by the name with `!` in front and with blanks around the reference. -/
theorem Reference.recall_of_save (settings : Settings) (fs : Files) (memory : Memory) {text : String}
    (v : Value) (h : (Text.trim text.toList).head? ≠ some '@') :
    ∃ name, (Text.trimmed text = "!" ++ name ∨
        Text.trimmed text = name ∧ name.toList.head? ≠ some '!') ∧
      ∃ saved, save settings text v memory fs = (.ok saved, fs) ∧
        ((∃ before old behind, memory = before ++ (name, old) :: behind ∧
            saved = before ++ (name, v) :: behind) ∨
          name ∉ memory.keys ∧ saved = memory ++ [(name, v)]) ∧
        (∀ other ≠ name, saved.get? other = memory.get? other) ∧
        ∀ (calls : List Memory.Call) (fs' : Files), (∀ c ∈ calls, c.name? ≠ some name) →
          let later := (calls.foldl Memory.Call.apply (saved, fs)).1
          resolveNamed fs' later text = .ok v ∧ resolveNamed fs' later ("!" ++ name) = .ok v ∧
          ∀ before behind : String, before.toList.all Text.isBlank → behind.toList.all Text.isBlank →
            resolveNamed fs' later (before ++ text ++ behind) = .ok v := by
  obtain ⟨name, hname⟩ := exists_memoryName h
  refine ⟨name, ?_, memory.put name v, save_of_memoryName? hname, Entries.exists_put name v memory,
    fun other hne => ?_, fun calls fs' hcalls => ?_⟩
  · obtain htrim | ⟨htrim, -, hmark⟩ := memoryName?_eq_some_iff.1 hname
    · refine .inl (String.toList_inj.1 ?_)
      rw [Text.trimmed, String.toList_ofList, htrim, String.toList_append]
      rfl
    · refine .inr ⟨String.toList_inj.1 ?_, hmark⟩
      rw [Text.trimmed, String.toList_ofList, htrim]
  · rw [Entries.get?_put, if_neg hne]
  · intro later
    have hget : later.get? name = some v := by
      rw [Memory.get?_foldl_apply hcalls]
      exact Entries.get?_put_self name v memory
    have hmark : (parse ("!" ++ name)).memoryName? = some name := by
      rw [parse_mark hname]
      rfl
    refine ⟨resolveNamed_of_memoryName? hname hget, resolveNamed_of_memoryName? hmark hget,
      fun before behind hbefore hbehind => resolveNamed_of_memoryName? ?_ hget⟩
    rw [parse_between hbefore hbehind]
    exact hname

/-- A name that begins with `!` and a blank, in the middle of memory; behind it another value is saved
under a name that looks like JSON, a save to a file fails and other names go. -/
theorem Reference.recall_of_save_marks :
    let text := " !! x\t"
    let memory : Memory := [("a", .null), ("! x", .null), ("x", .null)]
    let calls : List Memory.Call := [.save {} "[1]" .null, .save {} "@notes.txt" .null, .remove "x",
      .store "!! x" .null, .remove "a"]
    let saved : Memory := [("a", .null), ("! x", .boolean true), ("x", .null)]
    let later := (calls.foldl Memory.Call.apply (saved, {})).1
    (Text.trim text.toList).head? ≠ some '@' ∧
      save {} text (.boolean true) memory {} = (.ok saved, {}) ∧
      (∀ c ∈ calls, c.name? ≠ some "! x") ∧
      later = [("! x", .boolean true), ("[1]", .null), ("!! x", .null)] ∧
      resolveNamed {} later text = .ok (.boolean true) ∧
      resolveNamed {} later "!! x" = .ok (.boolean true) ∧
      resolveNamed {} later "\n !! x\t " = .ok (.boolean true) := by
  intro text memory calls saved later
  have hfile : (Text.trim text.toList).head? ≠ some '@' := by decide
  have hcalls : ∀ c ∈ calls, c.name? ≠ some "! x" := by decide +kernel
  have hsaved : save {} text (.boolean true) memory {} = (.ok saved, {}) :=
    save_of_memoryName? (by decide +kernel : (parse text).memoryName? = some "! x")
  obtain ⟨name, hname, saved', hsave, -, -, hlater⟩ :=
    recall_of_save {} {} memory (.boolean true) hfile
  have hname : name = "! x" := by
    rw [show Text.trimmed text = "!" ++ "! x" by decide +kernel] at hname
    obtain hname | ⟨rfl, hmark⟩ := hname
    · exact ((String.append_right_inj "!").1 hname).symm
    · exact absurd rfl hmark
  obtain rfl : saved' = saved := by
    rw [hsaved] at hsave
    exact (Except.ok.inj (Prod.mk.inj hsave).1).symm
  subst hname
  obtain ⟨hrecall, hmark, hbetween⟩ := hlater calls {} hcalls
  exact ⟨hfile, hsaved, hcalls, by decide +kernel, hrecall, hmark,
    hbetween "\n" " " (by decide) (by decide)⟩

end YamlQuery

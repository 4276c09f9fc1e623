import YamlQuery.Proofs.Edit.Growth
import YamlQuery.Proofs.Edit.Jobs
import YamlQuery.Proofs.Walk.Stops

/-!
# Proofs.Edit.Residue — what a failed job leaves behind

For `Insert` almost every failed job makes a difference to later ones.  The levels of a failed job
keep branches from being created, its places without a match are deeper than those of a later job or
are places where branches can be created.  Only if there is nothing of this left, the job is inert
(`Insert.inert_iff`): then the places that are left are idle, and two states that differ in idle
places alone do the same (`Insert.Similar`).

To tell such states apart, it is enough to look at documents without any keys (`Insert.bare`).
-/

namespace YamlQuery

namespace Insert

variable {data doc : Value} {i k : Insert} {j : Job} {m : Missing} {ms : List Missing}

/-! ### Idle places -/

/-- No branch can be created at the place, and none is kept from being created because of it. -/
def idle (m : Missing) : Bool := m.path.cursor == 0 && (keys? m.path.remaining).isNone

theorem branch?_of_idle (h : idle m) : branch? data m.path = none := by
  rw [idle, Bool.and_eq_true, Option.isNone_iff_eq_none] at h
  rw [branch?, h.2]

theorem branch?_of_equivalent {p q : KeyPath} (h : p.equivalent q) :
    branch? data p = branch? data q := by
  rw [KeyPath.equivalent, Bool.and_eq_true, beq_iff_eq, beq_iff_eq] at h
  obtain ⟨hcursor, hraw⟩ := h
  have hkeys (r : KeyPath) : keys? r.remaining =
      ((r.segments.map (·.raw)).drop r.cursor).mapM fun raw =>
        (Segment.literalChars? raw.toList).map String.ofList := by
    rw [keys?, KeyPath.remaining, ← List.map_drop, List.mapM_map]
    rfl
  rw [branch?, branch?, hkeys, hkeys, hcursor, hraw]

/-- Places where no branch can be created do not matter when branches are created. -/
theorem createAll_filter (data : Value) : ∀ (ms : List Missing) (doc : Value) (n : Nat),
    createAll data (ms.filter fun m => (branch? data m.path).isSome) doc n =
      createAll data ms doc n
  | [], _, _ => rfl
  | m :: ms, doc, n => by
    cases hb : branch? data m.path with
    | none =>
      rw [List.filter_cons_of_neg (by simp [hb]), createAll_filter data ms, createAll, create?, hb]
    | some e =>
      rw [List.filter_cons_of_pos (by simp [hb]), createAll, createAll]
      cases create? data m doc with
      | none => exact createAll_filter data ms doc n
      | some doc => exact createAll_filter data ms doc (n + 1)

theorem foldl_cursor_filter : ∀ (ms : List Missing) (d : Nat),
    (ms.filter (!idle ·)).foldl (fun d m => max d m.path.cursor) d =
      ms.foldl (fun d m => max d m.path.cursor) d
  | [], _ => rfl
  | m :: ms, d => by
    cases hm : idle m with
    | false =>
      rw [List.filter_cons_of_pos (by simp [hm]), List.foldl_cons, List.foldl_cons]
      exact foldl_cursor_filter ms _
    | true =>
      have hcursor : m.path.cursor = 0 := by
        simpa using (Bool.and_eq_true_iff.1 hm).1
      rw [List.filter_cons_of_neg (by simp [hm]), List.foldl_cons, hcursor, Nat.max_zero]
      exact foldl_cursor_filter ms d

/-- Idle places do not matter when branches are created. -/
theorem createAll_deepest_filter (data : Value) (ms : List Missing) (doc : Value) (n : Nat) :
    createAll data (deepest (ms.filter (!idle ·))) doc n = createAll data (deepest ms) doc n := by
  have hB : ∀ k m : Missing, k.path.equivalent m.path →
      (branch? data k.path).isSome = (branch? data m.path).isSome :=
    fun k m h => by rw [branch?_of_equivalent h]
  rw [← createAll_filter, ← createAll_filter data (deepest ms), deepest, deepest,
    foldl_cursor_filter, distinct_filter fun k m _ => hB k m, distinct_filter fun k m _ => hB k m]
  congr 2
  rw [List.filter_filter, List.filter_filter, List.filter_filter]
  refine List.filter_congr fun m _ => ?_
  cases hm : idle m with
  | false => simp
  | true => simp [branch?_of_idle hm]

/-! ### States that do the same -/

/-- Two states differ in idle places alone. -/
def Similar (i k : Insert) : Prop :=
  ∃ ms, k = { i with missing := ms } ∧ ms.filter (!idle ·) = i.missing.filter (!idle ·)

theorem Similar.finish (h : Similar i k) (doc : Value) :
    visitor.finish doc k = visitor.finish doc i := by
  obtain ⟨ms, rfl, hms⟩ := h
  have hbarren : (barren { i with missing := ms }).filter (!idle ·) =
      i.barren.filter (!idle ·) := by
    rw [barren, barren, List.filter_comm, hms, List.filter_comm]
  dsimp only [visitor]
  rw [← createAll_deepest_filter, hbarren, createAll_deepest_filter]

theorem Similar.noteAll (h : Similar i k) (w : Walk) :
    Similar (visitor.noteAll w.events i) (visitor.noteAll w.events k) := by
  obtain ⟨ms, rfl, hms⟩ := h
  rw [noteAll_walk, noteAll_walk]
  refine ⟨ms ++ w.misses, rfl, ?_⟩
  rw [List.filter_append, List.filter_append, hms]

/-- Similar states stay similar, and the job comes out the same. -/
theorem Similar.perform (h : Similar i k) (j : Job) :
    Similar (visitor.perform j i).state (visitor.perform j k).state ∧
      (visitor.perform j i).doc = (visitor.perform j k).doc ∧
      (visitor.perform j i).result = (visitor.perform j k).result := by
  unfold Visitor.perform
  cases hp : j.path.hasNext with
  | false =>
    rw [Visitor.run_of_not_hasNext hp, Visitor.run_of_not_hasNext hp]
    exact ⟨h, rfl, rfl⟩
  | true =>
    have hnote := h.noteAll j.walk
    cases hs : (j.doc.walk j.strict j.path).stop with
    | some o =>
      rw [Visitor.run_of_stop accepts_visitor hp hs, Visitor.run_of_stop accepts_visitor hp hs]
      exact ⟨hnote, rfl, rfl⟩
    | none =>
      have hfinish := hnote.finish j.doc
      rw [Visitor.run_of_finish accepts_visitor hp hs rfl,
        Visitor.run_of_finish accepts_visitor hp hs hfinish]
      exact ⟨⟨_, rfl, rfl⟩, rfl, rfl⟩

theorem outcomes_of_similar : ∀ {js : List Job} {i k : Insert}, Similar i k →
    visitor.outcomes js i = visitor.outcomes js k
  | [], _, _, _ => rfl
  | j :: js, i, k, h => by
    obtain ⟨hstate, hdoc, hresult⟩ := h.perform j
    rw [Visitor.outcomes, Visitor.outcomes, hdoc, hresult, outcomes_of_similar hstate]

/-! ### Documents without keys -/

/-- An empty mapping, or a sequence of empty mappings, with one at the address. -/
def bare : Address → Value
  | [.index i] => .sequence (List.replicate (i + 1) (.mapping []))
  | _ => .mapping []

theorem get?_empty {a : Address} {v : Value} (h : (Value.mapping []).get? a = some v) : a = [] := by
  cases a with
  | nil => rfl
  | cons s a =>
    rw [Value.get?_cons] at h
    cases s <;> cases h

variable {a : Address}

theorem bare_cases (a : Address) :
    bare a = .mapping [] ∨ ∃ n, bare a = .sequence (List.replicate n (.mapping [])) := by
  unfold bare
  split
  · exact .inr ⟨_, rfl⟩
  · exact .inl rfl

theorem distinct_bare (a : Address) : (bare a).Distinct := by
  rcases bare_cases a with h | ⟨n, h⟩ <;> rw [h]
  · exact ⟨List.nodup_nil, trivial⟩
  · refine Value.distinctItems_iff.2 fun v hv => ?_
    rw [(List.mem_replicate.1 hv).2]
    exact ⟨List.nodup_nil, trivial⟩

theorem get?_bare (h : Walk.Top a) : (bare a).get? a = some (.mapping []) := by
  rcases h with rfl | ⟨i, rfl⟩ <;> simp [bare, Value.get?_cons, Value.child?]

/-- There are no keys in the document. -/
theorem get?_bare_key (a b : Address) (k : String) : (bare a).get? (b.child (.key k)) = none := by
  rw [Value.get?_child, Option.bind_eq_none_iff]
  intro v hv
  have hempty : (Value.mapping []).child? (.key k) = none := rfl
  rcases bare_cases a with h | ⟨n, h⟩
  · rw [h] at hv
    obtain rfl := get?_empty hv
    obtain rfl : v = .mapping [] := by simpa using hv.symm
    exact hempty
  · rw [h] at hv
    cases b with
    | nil =>
      obtain rfl : v = .sequence _ := by simpa using hv.symm
      rfl
    | cons s b =>
      rw [Value.get?_cons] at hv
      obtain ⟨c, hc, hv⟩ := Option.bind_eq_some_iff.1 hv
      obtain ⟨_, _, hs, -⟩ | ⟨items, l, hs, -, hl⟩ := Value.child?_eq_some_iff.1 hc
      · cases hs
      · cases hs
        obtain rfl : c = .mapping [] := (List.mem_replicate.1 (List.mem_of_getElem? hl)).2
        obtain rfl := get?_empty hv
        obtain rfl : v = .mapping [] := by simpa using hv.symm
        exact hempty

/-- No mapping lies above the address. -/
def Uncovered (doc : Value) (a : Address) : Prop :=
  ∀ b, b <+: a → b ≠ a → ∀ es, doc.get? b ≠ some (.mapping es)

theorem uncovered_bare (h : Walk.Top a) : Uncovered (bare a) a := by
  intro b hb hne es
  rcases h with rfl | ⟨i, rfl⟩
  · exact absurd (List.prefix_nil.1 hb) hne
  · cases b with
    | nil => simp [bare]
    | cons s b =>
      obtain ⟨rfl, hnil⟩ := List.cons_prefix_cons.1 hb
      obtain rfl := List.prefix_nil.1 hnil
      exact absurd rfl hne

/-- To search a document without keys. -/
def bareJob (a : Address) (p : KeyPath) (hp : p.Parsed) : Job :=
  ⟨bare a, p, false, distinct_bare a, hp⟩

section Bare

variable {p : KeyPath} {hp : p.Parsed}

theorem stop_bareJob : (bareJob a p hp).walk.stop = none := Walk.stop_below_lenient

theorem ends_bareJob : (bareJob a p hp).walk.ends = [] := by
  refine List.eq_nil_iff_forall_not_mem.2 fun t ht => ?_
  obtain ⟨v, hv⟩ := exists_get?_of_mem_ends (distinct_bare a) ht
  rw [Target.address, get?_bare_key] at hv
  cases hv

/-- Every event is a place without a match, with the whole path left. -/
theorem events_bareJob {e : Event} (he : e ∈ (bareJob a p hp).walk.events) :
    ∃ g, e = .miss g ∧ g.path = p := by
  rcases Walk.first_events he with ⟨g, he, hpath, -⟩ | ⟨site, hsite, -⟩
  · exact ⟨g, he, hpath⟩
  · obtain ⟨v, hv⟩ := exists_get?_of_site (distinct_bare a) hsite
    rw [get?_bare_key] at hv
    cases hv

theorem levels_bareJob : (bareJob a p hp).walk.levels = [] := by
  refine List.eq_nil_iff_forall_not_mem.2 fun l hl => ?_
  obtain ⟨e, he, hl⟩ := List.mem_filterMap.1 hl
  obtain ⟨g, rfl, -⟩ := events_bareJob he
  cases hl

theorem path_of_mem_misses_bareJob (hm : m ∈ (bareJob a p hp).walk.misses) : m.path = p := by
  obtain ⟨e, he, hm⟩ := List.mem_filterMap.1 hm
  obtain ⟨g, rfl, hg⟩ := events_bareJob he
  cases hm
  exact hg

theorem mem_misses_bareJob (ha : Walk.Top a) : ⟨a, p⟩ ∈ (bareJob a p hp).walk.misses := by
  have hr : Reaches p (bare a) a p (.mapping []) := by
    rcases ha with rfl | ⟨i, rfl⟩
    · exact .here p _
    · exact .element (List.getElem?_replicate_of_lt (Nat.lt_succ_self i)) rfl (.here p _)
  exact List.mem_filterMap.2 ⟨_, (mem_events_iff stop_bareJob).2 ⟨a, p, _, hr, .empty⟩, rfl⟩

theorem doc_perform_bareJob (hnext : p.hasNext) :
    (visitor.perform (bareJob a p hp) i).doc =
      (createAll i.data
        (deepest (barren { i with missing := i.missing ++ (bareJob a p hp).walk.misses }))
        (bare a) i.created).1 := by
  obtain ⟨out, hout, hdoc⟩ :=
    Visitor.perform_of_lenient (j := bareJob a p hp) (s := i) accepts_visitor hnext rfl
  rw [noteAll_walk, ends_bareJob, levels_bareJob, List.append_nil, List.reverse_nil,
    List.nil_append] at hout
  rw [hdoc, ← Except.ok.inj hout]
  show (createAll i.data (deepest _) (Target.applyAll _ i.existing (bare a) i.replaced).1 _).1 = _
  rw [Target.fst_applyAll_replace?, Value.modifyAll_of_get?_eq_none fun c hc => ?_]
  obtain ⟨t, -, rfl⟩ := List.mem_map.1 hc
  exact get?_bare_key a t.parent t.key

end Bare

/-! ### Where a branch is created -/

theorem exists_of_create?_eq_some {w : Value} (h : create? data m doc = some w) :
    ∃ e es, branch? data m.path = some e ∧ doc.get? m.parent = some (.mapping es) ∧
      doc.modify? (fun _ => .mapping (Entries.put e.1 e.2 es)) m.parent = some w := by
  rw [create?] at h
  split at h
  · next k b es hb hes => exact ⟨(k, b), es, hb, hes, h⟩
  · cases h

theorem branch?_of_create?_eq_none {es : Entries Value} (h : create? data m doc = none)
    (hes : doc.get? m.parent = some (.mapping es)) : branch? data m.path = none := by
  cases hb : branch? data m.path with
  | none => rfl
  | some e =>
    have hsome : (create? data m doc).isSome := by
      rw [create?, hb, hes]
      simp [Value.replace?, Value.isSome_modify?, hes]
    simp [h] at hsome

/-- No mapping comes above an address by a change that is not above it. -/
theorem Uncovered.modify? {f : Value → Value} {b : Address} {w : Value} (h : Uncovered doc a)
    (hw : doc.modify? f b = some w) (hb : ∀ c, c <+: a → c ≠ a → ¬ b <+: c) : Uncovered w a := by
  intro c hca hne fs hfs
  have hsame := Value.outline_get?_modify? hw (hb c hca hne)
  obtain ⟨gs, hgs, -⟩ := Value.exists_mapping_of_outline hsame.symm hfs
  exact h c hca hne gs hgs

/-- What creating a branch does to a mapping with no mapping above it: if the branch is not created
right there, the mapping stays empty if it was, and else it gets a key. -/
theorem get?_create? {w : Value} {es : Entries Value} (habove : Uncovered doc a)
    (hes : doc.get? a = some (.mapping es)) (h : create? data m doc = some w) :
    Uncovered w a ∧ ∃ fs, w.get? a = some (.mapping fs) ∧ (fs = [] ↔ es = [] ∧ m.parent ≠ a) := by
  obtain ⟨e, gs, hb, hgs, hw⟩ := exists_of_create?_eq_some h
  by_cases hma : m.parent = a
  · rw [hma] at hgs hw
    refine ⟨habove.modify? hw fun c hca hne hac => ?_, Entries.put e.1 e.2 gs, ?_, ?_⟩
    · exact hne (hca.eq_of_length_le hac.length_le)
    · rw [Value.get?_modify? hw, hgs]
      rfl
    · have hmem : e.1 ∈ Entries.keys (Entries.put e.1 e.2 gs) := by
        rw [← Entries.isSome_get?_iff, Entries.get?_put_self]
        rfl
      constructor
      · intro hnil
        rw [hnil] at hmem
        cases hmem
      · exact fun h => absurd hma h.2
  · have hnot : ¬ m.parent <+: a := fun h => habove m.parent h hma gs hgs
    refine ⟨habove.modify? hw fun c hca _ hc => hnot (hc.trans hca), ?_⟩
    obtain ⟨fs, hfs, hkeys⟩ :=
      Value.exists_mapping_of_outline (Value.outline_get?_modify? hw hnot) hes
    refine ⟨fs, hfs, ?_⟩
    have hnil {gs : Entries Value} : gs = [] ↔ Entries.keys gs = [] := List.map_eq_nil_iff.symm
    rw [hnil, hkeys, ← hnil]
    exact ⟨fun h => ⟨h, hma⟩, fun h => h.1⟩

/-- Whether a mapping with no mapping above it is empty after branches have been created. -/
theorem get?_createAll :
    ∀ {ms : List Missing} {doc : Value} {n : Nat} {es : Entries Value}, Uncovered doc a →
      doc.get? a = some (.mapping es) →
        ∃ fs, (createAll data ms doc n).1.get? a = some (.mapping fs) ∧
          (fs = [] ↔ es = [] ∧ ∀ m ∈ ms, m.parent = a → branch? data m.path = none)
  | [], _, _, es, _, hes => ⟨es, hes, by simp⟩
  | m :: ms, doc, n, es, habove, hes => by
    rw [createAll]
    simp only [List.forall_mem_cons]
    cases hc : create? data m doc with
    | none =>
      obtain ⟨fs, hfs, hiff⟩ := get?_createAll (n := n) habove hes
      refine ⟨fs, hfs, hiff.trans (and_congr_right fun _ => ⟨fun h => ⟨?_, h⟩, fun h => h.2⟩)⟩
      rintro rfl
      exact branch?_of_create?_eq_none hc hes
    | some w =>
      obtain ⟨hw, gs, hgs, hnil⟩ := get?_create? habove hes hc
      obtain ⟨fs, hfs, hiff⟩ := get?_createAll (n := n + 1) hw hgs
      refine ⟨fs, hfs, ?_⟩
      rw [hiff, hnil, and_assoc]
      obtain ⟨e, -, hb, -, -⟩ := exists_of_create?_eq_some hc
      refine and_congr_right fun _ => and_congr_left fun _ => ?_
      rw [hb]
      simp

/-! ### After a failed job -/

/-- A path of one plain key. -/
theorem exists_plain (data : Value) : ∃ p : KeyPath, p.Parsed ∧ p.hasNext ∧ p.cursor = 0 ∧
    branch? data p = some ("x", data) := by
  obtain ⟨p, hparse, hp, hcursor, hkeys⟩ := KeyPath.exists_parse "x" "."
    (fun p => p.hasNext ∧ p.cursor = 0 ∧ keys? p.remaining = some ["x"]) (by decide +kernel)
  exact ⟨p, .parse hparse, hp, hcursor, by rw [branch?, hkeys]; rfl⟩

theorem path_of_mem_misses {strict : Bool} {path : KeyPath}
    (hm : m ∈ (doc.walk strict path).misses) :
    m.path = path.skip (Address.keys m.parent).length := by
  obtain ⟨e, he, hm⟩ := List.mem_filterMap.1 hm
  obtain ⟨b, q, w, hr, ho⟩ := found_of_mem_events he
  cases ho with
  | empty | differs =>
    cases hm
    exact hr.path_eq
  | item =>
    cases hm
    rw [hr.path_eq]
    simp [Address.keys, Address.child, Address.root]
  | leads | ends => cases hm

section Failed

variable {p : KeyPath} (hp : p.Parsed)

/-- The places left over from a failed job and a job after it that finds no key. -/
def leftOver (j k : Job) : List Missing :=
  (j.walk.misses ++ k.walk.misses).filter fun m =>
    !j.walk.levels.contains (m.parent, m.path.cursor)

theorem mem_leftOver {j k : Job} : m ∈ leftOver j k ↔
    (m ∈ j.walk.misses ∨ m ∈ k.walk.misses) ∧ (m.parent, m.path.cursor) ∉ j.walk.levels := by
  rw [leftOver, List.mem_filter, List.mem_append, Bool.not_eq_true', ← Bool.not_eq_true,
    List.contains_iff_mem]

theorem get?_perform_bareJob (ha : Walk.Top a) (hnext : p.hasNext) (i : Insert) :
    ∃ fs, (visitor.perform (bareJob a p hp) i).doc.get? a = some (.mapping fs) ∧
      (fs = [] ↔
        ∀ m ∈ deepest (barren { i with missing := i.missing ++ (bareJob a p hp).walk.misses }),
          m.parent = a → branch? i.data m.path = none) := by
  rw [doc_perform_bareJob hnext]
  obtain ⟨fs, hfs, hiff⟩ := get?_createAll (n := i.created) (uncovered_bare ha) (get?_bare ha)
  exact ⟨fs, hfs, by simpa using hiff⟩

theorem get?_perform_bareJob_of_fails (h : j.fails) (ha : Walk.Top a) (hnext : p.hasNext) :
    ∃ fs, (visitor.perform (bareJob a p hp) (visitor.perform j { data }).state).doc.get? a =
        some (.mapping fs) ∧
      (fs = [] ↔ ∀ m ∈ deepest (leftOver j (bareJob a p hp)),
        m.parent = a → branch? data m.path = none) := by
  obtain ⟨fs, hfs, hiff⟩ := get?_perform_bareJob hp ha hnext (visitor.perform j { data }).state
  refine ⟨fs, hfs, hiff.trans ?_⟩
  rw [(Visitor.perform_of_fails accepts_visitor h).1, noteAll_walk]
  have hleft : barren
      { data
        existing := [] ++ j.walk.ends
        missing := ([] ++ j.walk.misses) ++ (bareJob a p hp).walk.misses
        levels := j.walk.levels.reverse ++ [] } = leftOver j (bareJob a p hp) := by
    rw [barren, leftOver, List.nil_append]
    exact List.filter_congr fun m _ => by simp
  rw [hleft]

/-- If nothing had failed before, a branch is created exactly if the path is plain. -/
theorem get?_perform_bareJob_new (ha : Walk.Top a) (hnext : p.hasNext) :
    ∃ fs, (visitor.perform (bareJob a p hp) { data }).doc.get? a = some (.mapping fs) ∧
      (fs = [] ↔ branch? data p = none) := by
  obtain ⟨fs, hfs, hiff⟩ := get?_perform_bareJob hp ha hnext { data }
  have hbarren : barren { data, missing := [] ++ (bareJob a p hp).walk.misses } =
      (bareJob a p hp).walk.misses := by
    rw [barren, List.nil_append]
    exact List.filter_eq_self.2 fun m _ => rfl
  rw [hbarren] at hiff
  refine ⟨fs, hfs, hiff.trans ⟨fun h => ?_, fun h m hm _ => ?_⟩⟩
  · have hmem : ⟨a, p⟩ ∈ (bareJob a p hp).walk.misses := mem_misses_bareJob ha
    have hgreat :
        IsGreatest {c | ∃ m ∈ (bareJob a p hp).walk.misses, m.path.cursor = c} p.cursor := by
      refine ⟨⟨_, hmem, rfl⟩, ?_⟩
      rintro _ ⟨m, hm, rfl⟩
      rw [path_of_mem_misses_bareJob hm]
    obtain ⟨n, hn, hparent, -⟩ := exists_mem_deepest hgreat hmem rfl
    rw [← path_of_mem_misses_bareJob (mem_of_mem_deepest hn)]
    exact h n hn hparent
  · rw [path_of_mem_misses_bareJob (mem_of_mem_deepest hm), h]

/-- After an inert job that has failed, a branch is created where it would be created otherwise. -/
theorem branch_iff_of_inert (h : j.fails) (hinert : visitor.Inert { data } j) (ha : Walk.Top a)
    (hnext : p.hasNext) :
    (∀ m ∈ deepest (leftOver j (bareJob a p hp)), m.parent = a → branch? data m.path = none) ↔
      branch? data p = none := by
  obtain ⟨fs, hfs, hiff⟩ := get?_perform_bareJob_of_fails hp h ha hnext
  obtain ⟨gs, hgs, hiff'⟩ := get?_perform_bareJob_new hp ha hnext
  rw [hinert.doc_perform, hgs] at hfs
  cases hfs
  exact hiff.symm.trans hiff'

end Failed

/-- A level that is left keeps a branch from being created in the same place. -/
theorem not_inert_of_level (h : j.fails) (ha : Walk.Top a) (hc : j.path.cursor = 0)
    (hl : (a, 0) ∈ j.walk.levels) : ¬ visitor.Inert { data } j := by
  intro hinert
  obtain ⟨p, hp, hnext, hcursor, hplain⟩ := exists_plain data
  have hiff := branch_iff_of_inert hp h hinert ha hnext
  rw [hplain] at hiff
  refine absurd (hiff.1 fun m hm hparent => ?_) (by simp)
  obtain ⟨hm, hlevel⟩ := mem_leftOver.1 (mem_of_mem_deepest hm)
  refine absurd ?_ hlevel
  have hzero : m.path.cursor = 0 := by
    rcases hm with hm | hm
    · rw [path_of_mem_misses hm, hparent, ha.keys]
      exact hc
    · rw [path_of_mem_misses_bareJob hm, hcursor]
  rw [hparent, hzero]
  exact hl

/-- A deep place that is left keeps branches from being created at the top. -/
theorem not_inert_of_deep (h : j.fails) (hm : m ∈ j.walk.misses)
    (hl : (m.parent, m.path.cursor) ∉ j.walk.levels) (hpos : 0 < m.path.cursor)
    (hroot : ∀ n ∈ j.walk.misses, n.parent = [] → n.path.cursor < m.path.cursor) :
    ¬ visitor.Inert { data } j := by
  intro hinert
  obtain ⟨p, hp, hnext, hcursor, hplain⟩ := exists_plain data
  have hiff := branch_iff_of_inert (a := []) hp h hinert (.inl rfl) hnext
  rw [hplain] at hiff
  refine absurd (hiff.1 fun n hn hparent => ?_) (by simp)
  have hle := le_of_mem_deepest hn (mem_leftOver.2 ⟨.inl hm, hl⟩)
  rcases (mem_leftOver.1 (mem_of_mem_deepest hn)).1 with hn | hn
  · have := hroot n hn hparent
    omega
  · rw [path_of_mem_misses_bareJob hn, hcursor] at hle
    omega

/-- A plain path that is left becomes a branch where the next path has none. -/
theorem not_inert_of_plain (h : j.fails) (hlevels : j.walk.levels = []) (hc : j.path.cursor = 0)
    (ha : Walk.Top a) (hm : ⟨a, j.path⟩ ∈ j.walk.misses)
    (hshallow : ∀ n ∈ j.walk.misses, n.path.cursor = 0) (hb : branch? data j.path ≠ none) :
    ¬ visitor.Inert { data } j := by
  intro hinert
  obtain ⟨p, hp, hnext, hcursor, hkeys, -⟩ := KeyPath.exists_stuck
  have hiff := branch_iff_of_inert hp h hinert ha hnext
  have hnone : branch? data p = none := by rw [branch?, hkeys]
  have hmem : ⟨a, j.path⟩ ∈ leftOver j (bareJob a p hp) :=
    mem_leftOver.2 ⟨.inl hm, by simp [hlevels]⟩
  have hgreat : IsGreatest {c | ∃ m ∈ leftOver j (bareJob a p hp), m.path.cursor = c} 0 := by
    refine ⟨⟨_, hmem, hc⟩, ?_⟩
    rintro _ ⟨n, hn, rfl⟩
    rcases (mem_leftOver.1 hn).1 with hn | hn
    · exact (hshallow n hn).le
    · rw [path_of_mem_misses_bareJob hn, hcursor]
  obtain ⟨n, hn, hparent, heq⟩ := exists_mem_deepest hgreat hmem hc
  refine hb ?_
  rw [← branch?_of_equivalent heq]
  exact hiff.2 hnone n hn hparent

/-! ### Which failed jobs make no difference -/

/-- Without levels, all places are at the top and have the whole path left. -/
theorem of_mem_misses_of_levels (hlevels : j.walk.levels = []) (hm : m ∈ j.walk.misses) :
    m.path = j.path ∧ Walk.Top m.parent := by
  obtain ⟨e, he, hm⟩ := List.mem_filterMap.1 hm
  rcases Walk.first_events he with ⟨g, rfl, hpath, htop⟩ | ⟨site, hsite, -, -⟩
  · cases hm
    exact ⟨hpath, htop⟩
  · have hlevel : (site.parent, site.path.cursor) ∈ j.walk.levels := by
      rcases hsite with hsite | hsite <;> exact List.mem_filterMap.2 ⟨_, hsite, rfl⟩
    rw [hlevels] at hlevel
    cases hlevel

theorem ends_of_levels {w : Walk} (h : w.levels = []) : w.ends = [] := by
  refine List.eq_nil_iff_forall_not_mem.2 fun t ht => ?_
  obtain ⟨site, he, rfl⟩ := Walk.mem_ends.1 ht
  have hlevel : (site.parent, site.path.cursor) ∈ w.levels := List.mem_filterMap.2 ⟨_, he, rfl⟩
  rw [h] at hlevel
  cases hlevel

theorem exists_mapping_of_mem_levels {strict : Bool} {path : KeyPath} {l : Address × Nat}
    (hd : doc.Distinct) (h : l ∈ (doc.walk strict path).levels) :
    ∃ es, doc.get? l.1 = some (.mapping es) := by
  obtain ⟨e, he, hl⟩ := List.mem_filterMap.1 h
  obtain ⟨site, hsite, rfl⟩ : ∃ site, (.partly site ∈ (doc.walk strict path).events ∨
      .fully site ∈ (doc.walk strict path).events) ∧ l = (site.parent, site.path.cursor) := by
    cases e with
    | partly site => exact ⟨site, .inl he, (Option.some.inj hl).symm⟩
    | fully site => exact ⟨site, .inr he, (Option.some.inj hl).symm⟩
    | miss g => cases hl
  obtain ⟨v, hv⟩ := exists_get?_of_site hd hsite
  rw [Value.get?_child] at hv
  obtain ⟨u, hu, hk⟩ := Option.bind_eq_some_iff.1 hv
  obtain ⟨es, k, rfl, -, -⟩ | ⟨_, _, _, hk, -⟩ := Value.child?_eq_some_iff.1 hk
  · exact ⟨es, hu⟩
  · cases hk

/-- Only in a mapping the document itself can be a place without a match. -/
theorem isMapping_of_mem_misses {strict : Bool} {path : KeyPath}
    (hm : m ∈ (doc.walk strict path).misses) (hroot : m.parent = []) : doc.isMapping := by
  obtain ⟨e, he, hm⟩ := List.mem_filterMap.1 hm
  obtain ⟨b, q, w, hr, ho⟩ := found_of_mem_events he
  cases ho with
  | empty | differs =>
    cases hm
    obtain rfl : b = [] := by simpa [Address.root] using hroot
    cases hr
    rfl
  | item =>
    cases hm
    simp [Address.child] at hroot
  | leads | ends => cases hm

theorem eq_nil_of_reaches_sequence {path p : KeyPath} {v : Value} {a : Address}
    {items : List Value} (hr : Reaches path v a p (.sequence items)) (h : Address.keys a = []) :
    a = [] := by
  cases hr with
  | here => rfl
  | entry => cases h
  | element _ hc hr =>
    cases hr with
    | here => cases hc
    | entry => cases h
    | element => cases hc

/-- If anything has matched, something has matched at the top. -/
theorem exists_top_level (h : j.walk.levels ≠ []) :
    ∃ a, Walk.Top a ∧ (a, j.path.cursor) ∈ j.walk.levels := by
  obtain ⟨l, hl⟩ := List.exists_mem_of_ne_nil _ h
  obtain ⟨e, he, hl⟩ := List.mem_filterMap.1 hl
  rcases Walk.first_events he with ⟨g, rfl, -, -⟩ | ⟨site, hsite, hpath, htop⟩
  · cases hl
  · refine ⟨site.parent, htop, ?_⟩
    rw [← hpath]
    rcases hsite with hsite | hsite <;> exact List.mem_filterMap.2 ⟨_, hsite, rfl⟩

/-- A failed job leaves the element at which it failed, where nothing has matched. -/
theorem exists_miss_of_fails (h : j.fails) : ∃ a l p, ⟨a.child (.index l), p⟩ ∈ j.walk.misses ∧
    p = j.path.skip (Address.keys a).length ∧ (a.child (.index l), p.cursor) ∉ j.walk.levels ∧
    (Address.keys a = [] → a = [] ∧ j.doc.isMapping = false) := by
  obtain ⟨hnext, hstop⟩ := Bool.and_eq_true_iff.1 h
  obtain ⟨a, p, items, l, c, hr, hl, hc, he⟩ :=
    exists_item_of_stop (Option.isSome_iff_ne_none.1 hstop)
  have hget := hr.get? j.distinct
  refine ⟨a, l, p, List.mem_filterMap.2 ⟨_, he, rfl⟩, hr.path_eq, fun hmem => ?_, fun hkeys => ?_⟩
  · obtain ⟨es, hes⟩ := exists_mapping_of_mem_levels j.distinct hmem
    rw [Value.get?_child, hget, Option.bind_some, Value.child?, hl] at hes
    cases hes
    cases hc
  · obtain rfl := eq_nil_of_reaches_sequence hr hkeys
    have hdoc : j.doc = .sequence items := by simpa using hget
    exact ⟨rfl, by rw [hdoc]; rfl⟩

/-- **Inserting after a failed job.**  It makes no difference exactly if no key had matched at all
when the job failed, its path had not been used yet, and this is not made of plain keys. -/
theorem inert_iff (h : j.fails) : visitor.Inert { data } j ↔
    j.walk.levels = [] ∧ j.path.cursor = 0 ∧ keys? j.path.remaining = none := by
  constructor
  · intro hinert
    obtain ⟨a, l, p, hm, hpath, hlevel, hroot⟩ := exists_miss_of_fails h
    have hcursor : p.cursor = j.path.cursor + (Address.keys a).length := by
      rw [hpath]
      rfl
    have hzero : p.cursor = 0 := by
      by_contra hpos
      refine not_inert_of_deep h hm hlevel (Nat.pos_of_ne_zero hpos) (fun n hn hparent => ?_) hinert
      have hn' : n.path.cursor = j.path.cursor := by
        rw [path_of_mem_misses hn, hparent]
        rfl
      show n.path.cursor < p.cursor
      rcases Nat.eq_zero_or_pos (Address.keys a).length with hlen | hlen
      · have hmapping := isMapping_of_mem_misses hn hparent
        simp [(hroot (List.length_eq_zero_iff.1 hlen)).2] at hmapping
      · omega
    have hkeys : Address.keys a = [] := List.length_eq_zero_iff.1 (by omega)
    obtain ⟨rfl, -⟩ := hroot hkeys
    obtain rfl : p = j.path := hpath
    have hlevels : j.walk.levels = [] := by
      by_contra hne
      obtain ⟨b, hb, hmem⟩ := exists_top_level hne
      exact not_inert_of_level h hb hzero (hzero ▸ hmem) hinert
    refine ⟨hlevels, hzero, ?_⟩
    by_contra hplain
    obtain ⟨ks, hks⟩ := Option.ne_none_iff_exists'.1 hplain
    have hnext : j.path.remaining ≠ [] := KeyPath.hasNext_iff.1 (Bool.and_eq_true_iff.1 h).1
    obtain ⟨-, -, k, ls, -, rfl, -⟩ := ne_nil_of_keys? hks hnext
    have hshallow : ∀ n ∈ j.walk.misses, n.path.cursor = 0 := fun n hn => by
      rw [(of_mem_misses_of_levels hlevels hn).1, hzero]
    exact not_inert_of_plain h hlevels hzero (.inr ⟨l, rfl⟩) hm hshallow (by simp [branch?, hks])
      hinert
  · rintro ⟨hlevels, hcursor, hkeys⟩ before later
    refine (outcomes_of_similar ?_).symm
    rw [Visitor.after_concat, (Visitor.perform_of_fails accepts_visitor h).1, noteAll_walk,
      ends_of_levels hlevels, hlevels, List.append_nil, List.reverse_nil, List.nil_append]
    refine ⟨_, rfl, ?_⟩
    have hidle : j.walk.misses.filter (!idle ·) = [] := by
      rw [List.filter_eq_nil_iff]
      intro m hm
      simp [idle, (of_mem_misses_of_levels hlevels hm).1, hcursor, hkeys]
    rw [List.filter_append, hidle, List.append_nil]

end Insert

/-- **What a failed job leaves behind.**  A failed job makes no difference to later jobs exactly if,
when it failed, no entry had matched fully, for `Delete` and `Replace`; for `Insert`, if no key had
matched at all, the path had not been used yet, and a segment of it is no plain key.  Jobs of which
the failed ones are like this come out as if only the others had been done. -/
theorem Visitor.forgets_failures (data : Value) :
    Delete.visitor.Forgets {} (fun j => j.walk.ends = []) ∧
    Replace.visitor.Forgets { data } (fun j => j.walk.ends = []) ∧
    Insert.visitor.Forgets { data } (fun j =>
      j.walk.levels = [] ∧ j.path.cursor = 0 ∧ Insert.keys? j.path.remaining = none) :=
  ⟨forgets_of_inert_iff Delete.accepts_visitor fun _ h => Delete.inert_iff h,
    forgets_of_inert_iff Replace.accepts_visitor fun _ h => Replace.inert_iff h,
    forgets_of_inert_iff Insert.accepts_visitor fun _ h => Insert.inert_iff h⟩

/-- A failed job deletes an entry of the next document, in which its path matches nothing. -/
theorem Delete.deletes_after_failure :
    let first := Value.mapping [("a", .mapping [("x", .null)]), ("b", .sequence [.null])]
    let second := Value.mapping [("a", .mapping [("x", .null)])]
    ∃ j k : Job, j.doc = first ∧ k.doc = second ∧
      (visitor.perform j {}).result = .error (.shapeMismatch "b[0]" "null" "*.x") ∧
      visitor.outcomes [k] {} = [(second, .ok false)] ∧
      visitor.outcomes [k] (visitor.after [j] {}) = [(.mapping [("a", .mapping [])], .ok false)] := by
  intro first second
  obtain ⟨p, hp, hresult, hpending, hdeleted⟩ := KeyPath.exists_parse "*.x" "."
    (fun p => (visitor.run true p first {}).result = .error (.shapeMismatch "b[0]" "null" "*.x") ∧
      (visitor.run true p first {}).state.pending = [⟨[.key "a"], "x"⟩] ∧
      (visitor.run true p first {}).state.deleted = 0) (by decide +kernel)
  obtain ⟨q, hq, hnew, hleft⟩ := KeyPath.exists_parse "c" "."
    (fun q => ((visitor.run true q second {}).doc, (visitor.run true q second {}).result) =
        (second, .ok false) ∧
      ((visitor.run true q second { pending := [⟨[.key "a"], "x"⟩] }).doc,
        (visitor.run true q second { pending := [⟨[.key "a"], "x"⟩] }).result) =
        (.mapping [("a", .mapping [])], .ok false)) (by decide +kernel)
  have hstate : (visitor.run true p first {}).state = { pending := [⟨[.key "a"], "x"⟩] } := by
    cases hs : (visitor.run true p first {}).state with
    | mk pending deleted =>
      rw [hs] at hpending hdeleted
      cases hpending
      cases hdeleted
      rfl
  refine ⟨⟨first, p, true, by decide, .parse hp⟩, ⟨second, q, true, by decide, .parse hq⟩, rfl, rfl,
    hresult, ?_, ?_⟩
  · rw [Visitor.outcomes, Visitor.outcomes]
    exact congrArg (fun o => [o]) hnew
  · rw [Visitor.after, Visitor.after, Visitor.outcomes, Visitor.outcomes]
    simp only [Visitor.perform, hstate]
    exact congrArg (fun o => [o]) hleft

end YamlQuery

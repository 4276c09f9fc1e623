import Mathlib.Data.Set.Defs
import YamlQuery.Proofs.Edit.Residue
import YamlQuery.Proofs.Edit.Revisit

/-!
# Proofs.Edit.Succession — inserts one after another

After jobs that end well, an insert has forgotten the entries that match and the places without a
match, but it keeps the levels (`Insert.Clean.after`).  A place where a key had matched in an earlier
document at the same address and the same cursor does not count any more: `Insert.CreatesAt` says at
which mappings branches are created if some levels are left.

So a job comes out as it would with a new insert if these mappings are the same with the levels that
are left and without them, and only then (`Insert.perform_after_iff`).
-/

namespace YamlQuery

namespace Insert

/-! ### Counting on -/

theorem createAll_count (data : Value) : ∀ (ms : List Missing) (doc : Value) (n : Nat),
    createAll data ms doc n = ((createAll data ms doc 0).1, n + (createAll data ms doc 0).2)
  | [], _, _ => rfl
  | m :: ms, doc, n => by
    rw [createAll, createAll]
    cases create? data m doc with
    | none => exact createAll_count data ms doc n
    | some w =>
      dsimp only
      rw [createAll_count data ms w (n + 1), createAll_count data ms w (0 + 1)]
      simp [Nat.add_assoc]

/-! ### A run with levels left from before -/

/-- The places without a match at which no key has matched, on the walk or before. -/
def places (w : Walk) (left : List (Address × Nat)) : List Missing :=
  w.misses.filter fun m => !(w.levels.reverse ++ left).contains (m.parent, m.path.cursor)

variable {data doc : Value} {path : KeyPath} {strict : Bool} {a : Address}

/-- What a run does if nothing but levels is left from before. -/
theorem run_of_clean {i : Insert} (hi : i.existing = []) (hm : i.missing = []) (hp : path.hasNext)
    (h : (doc.walk strict path).stop = none) :
    let w := doc.walk strict path
    let out := Target.applyAll (·.replace? i.data) w.ends doc 0
    let made := createAll i.data (deepest (places w i.levels)) out.1 0
    visitor.run strict path doc i =
      ⟨{ i with
          levels := w.levels.reverse ++ i.levels
          replaced := i.replaced + out.2
          created := i.created + made.2 }, made.1, .ok w.matched⟩ := by
  intro w out made
  refine Visitor.run_of_finish accepts_visitor hp h ?_
  rw [noteAll_walk, hi, hm]
  dsimp only [visitor]
  rw [List.nil_append, List.nil_append, Target.applyAll_count, createAll_count]
  rfl

/-- The levels that jobs leave: the addresses and cursors where keys match in their documents. -/
def leftBy (js : List Job) : Set (Address × Nat) :=
  {l | ∃ j ∈ js, j.doc.Fertile j.path l.1 ∧ j.path.cursor + (Address.keys l.1).length = l.2}

/-- Nothing is noted down but levels. -/
structure Clean (i : Insert) : Prop where
  existing : i.existing = []
  missing : i.missing = []

/-- One job that ends well leaves a clean insert clean, with some more levels. -/
theorem Clean.perform {i : Insert} (hi : i.Clean) {j : Job}
    (hok : (visitor.perform j i).result.isOk) :
    (visitor.perform j i).state.data = i.data ∧ (visitor.perform j i).state.Clean ∧
      ∀ l, l ∈ (visitor.perform j i).state.levels ↔ l ∈ i.levels ∨ l ∈ leftBy [j] := by
  cases hp : j.path.hasNext with
  | false =>
    have hrun : visitor.perform j i = ⟨i, j.doc, .ok false⟩ := Visitor.run_of_not_hasNext hp
    rw [hrun]
    refine ⟨rfl, hi, fun l => ?_⟩
    have hnone : l ∉ leftBy [j] := by
      rintro ⟨k, hk, ⟨es, hv, -⟩, -⟩
      obtain rfl := List.mem_singleton.1 hk
      simp [hv.hasNext] at hp
    simp [hnone]
  | true =>
    have hstop := (Visitor.isOk_run_iff accepts_visitor hp).1 hok
    rw [Visitor.perform, run_of_clean hi.existing hi.missing hp hstop]
    refine ⟨rfl, ⟨hi.existing, hi.missing⟩, fun l => ?_⟩
    show l ∈ (j.doc.walk j.strict j.path).levels.reverse ++ i.levels ↔ _
    rw [List.mem_append, List.mem_reverse, Walk.mem_levels_iff j.distinct hp hstop, or_comm]
    simp [leftBy]

/-- After jobs that end well, an insert is as it was but for its counts and its levels. -/
theorem Clean.after : ∀ {js : List Job} {i : Insert}, i.Clean →
    (∀ o ∈ visitor.outcomes js i, o.2.isOk) →
      (visitor.after js i).data = i.data ∧ (visitor.after js i).Clean ∧
        ∀ l, l ∈ (visitor.after js i).levels ↔ l ∈ i.levels ∨ l ∈ leftBy js
  | [], i, hi, _ => by
    refine ⟨rfl, hi, fun l => ?_⟩
    simp [leftBy, Visitor.after]
  | j :: js, i, hi, hok => by
    rw [Visitor.outcomes, List.forall_mem_cons] at hok
    obtain ⟨hdata, hclean, hlevels⟩ := hi.perform hok.1
    obtain ⟨hdata', hclean', hlevels'⟩ := Clean.after hclean hok.2
    rw [Visitor.after]
    refine ⟨hdata'.trans hdata, hclean', fun l => ?_⟩
    rw [hlevels', hlevels]
    simp [leftBy, or_assoc]

/-! ### Where branches are created -/

/-- Where an insert creates branches if some levels are left from before: at a barren mapping that is
at none of them, if the rest of the path is made of plain keys and no other dead end that is at none
of them is at a larger cursor. -/
structure CreatesAt (left : Set (Address × Nat)) (doc : Value) (path : KeyPath) (a : Address) :
    Prop where
  barren : doc.Barren path a
  free : (a, path.cursor + a.keys.length) ∉ left
  plain : keys? (path.segments.drop (path.cursor + a.keys.length)) ≠ none
  deepest : ∀ b, doc.DeadEnd path b → (b, path.cursor + (Address.keys b).length) ∉ left →
    (Address.keys b).length ≤ a.keys.length

/-- All branches are created at the same cursor. -/
theorem CreatesAt.length_eq {left : Set (Address × Nat)} {b : Address}
    (ha : CreatesAt left doc path a) (hb : CreatesAt left doc path b) :
    a.keys.length = b.keys.length :=
  Nat.le_antisymm (hb.deepest a (.inl ha.barren) ha.free) (ha.deepest b (.inl hb.barren) hb.free)

/-- Where a branch is created, the rest of the path is made of plain keys. -/
theorem CreatesAt.exists_keys {left : Set (Address × Nat)} (h : CreatesAt left doc path a) :
    ∃ k ks, keys? (path.skip a.keys.length).remaining = some (k :: ks) ∧
      ∀ data, branch? data (path.skip a.keys.length) = some (k, nest data ks) := by
  obtain ⟨ks, hks⟩ := Option.ne_none_iff_exists'.1 h.plain
  have hne : path.segments.drop (path.cursor + a.keys.length) ≠ [] := by
    obtain ⟨es, hv, -⟩ := h.barren
    have hmore := hv.more
    rw [KeyPath.remaining, List.length_drop] at hmore
    rw [Ne, List.drop_eq_nil_iff]
    omega
  obtain ⟨s, ss, k, ls, hseg, rfl, hk⟩ := ne_nil_of_keys? hks hne
  refine ⟨k, ls, hks, fun data => ?_⟩
  rw [branch?, KeyPath.remaining, KeyPath.skip, hks]

open Classical in
/-- The places where branches are created, each once. -/
noncomputable def sites (left : Set (Address × Nat)) (doc : Value) (path : KeyPath) (w : Walk) :
    List Missing :=
  distinct [] (w.misses.filter fun m => decide (CreatesAt left doc path m.parent))

theorem sites_congr {left right : Set (Address × Nat)}
    (h : ∀ a, CreatesAt left doc path a ↔ CreatesAt right doc path a) (w : Walk) :
    sites left doc path w = sites right doc path w := by
  rw [sites, sites]
  congr 1
  exact List.filter_congr fun m _ => decide_eq_decide.2 (h m.parent)

theorem sites_eq_nil {left : Set (Address × Nat)} (h : ∀ a, ¬ CreatesAt left doc path a)
    (w : Walk) : sites left doc path w = [] := by
  rw [sites, List.filter_eq_nil_iff.2 fun m _ => by simpa using h m.parent, distinct]

/-- Places where nothing can be created do not matter, if no place lies above another. -/
theorem createAll_filter_of_apart {P : Missing → Bool} :
    ∀ {ms : List Missing} {doc : Value} {n : Nat},
      (∀ m ∈ ms, P m = false →
        branch? data m.path = none ∨ ∀ es, doc.get? m.parent ≠ some (.mapping es)) →
      (ms.map (·.parent)).Pairwise Address.Apart →
        createAll data (ms.filter P) doc n = createAll data ms doc n
  | [], _, _, _, _ => rfl
  | m :: ms, doc, n, hidle, hapart => by
    obtain ⟨hm, hms⟩ := List.pairwise_cons.1 hapart
    obtain ⟨hidlem, hidlems⟩ := List.forall_mem_cons.1 hidle
    rw [createAll]
    cases hP : P m with
    | false =>
      have hnone : create? data m doc = none := by
        cases hc : create? data m doc with
        | none => rfl
        | some w =>
          obtain ⟨e, es, hb, hes, -⟩ := exists_of_create?_eq_some hc
          rcases hidlem hP with h | h
          · rw [h] at hb
            cases hb
          · exact absurd hes (h es)
      rw [List.filter_cons_of_neg (by simp [hP]), hnone]
      exact createAll_filter_of_apart hidlems hms
    | true =>
      rw [List.filter_cons_of_pos hP, createAll]
      cases hc : create? data m doc with
      | none => exact createAll_filter_of_apart hidlems hms
      | some w =>
        refine createAll_filter_of_apart (fun k hk hPk => (hidlems k hk hPk).imp_right ?_) hms
        intro h es
        obtain ⟨e, fs, -, -, hw⟩ := exists_of_create?_eq_some hc
        obtain ⟨hmk, hkm⟩ := hm k.parent (List.mem_map_of_mem hk)
        rw [Value.get?_modify?_of_disjoint hw hmk hkm]
        exact h es

section Sites

variable (data) (hd : doc.Distinct) (hp : path.hasNext) (hs : (doc.walk strict path).stop = none)

include hd hp hs

theorem mem_places_iff {left : List (Address × Nat)} {m : Missing} :
    m ∈ places (doc.walk strict path) left ↔
      (doc.DeadEnd path m.parent ∧ m.path = path.skip (Address.keys m.parent).length) ∧
        (m.parent, m.path.cursor) ∉ left := by
  rw [← Walk.mem_misses_not_level_iff hd hp hs, places, List.mem_filter, Bool.not_eq_true',
    ← Bool.not_eq_true, List.contains_iff_mem, List.mem_append, List.mem_reverse, not_or, and_assoc]

theorem get?_replaced (ha : doc.DeadEnd path a) :
    (Target.applyAll (·.replace? data) (doc.walk strict path).ends doc 0).1.get? a =
      doc.get? a := by
  rw [Target.fst_applyAll_replace?]
  refine Value.get?_modifyAll_of_apart fun c hc => ?_
  obtain ⟨t, ht, rfl⟩ := List.mem_map.1 hc
  exact ((mem_ends_iff hd hp hs).1 ht).apart_deadEnd ha

/-- Where branches are created is at the largest cursor of the places. -/
theorem CreatesAt.mem_places {left : List (Address × Nat)} {m : Missing}
    (hm : m ∈ (doc.walk strict path).misses) (h : CreatesAt {l | l ∈ left} doc path m.parent) :
    m ∈ places (doc.walk strict path) left ∧
      m.path.cursor =
        (places (doc.walk strict path) left).foldl (fun d m => max d m.path.cursor) 0 := by
  have hpath := ((Walk.mem_misses_iff hd hp hs).1 hm).1
  have hcursor : m.path.cursor = path.cursor + (Address.keys m.parent).length := by
    rw [hpath]
    rfl
  have hmem : m ∈ places (doc.walk strict path) left :=
    (mem_places_iff hd hp hs).2 ⟨⟨.inl h.barren, hpath⟩, hcursor ▸ h.free⟩
  have hlargest : ∀ n ∈ places (doc.walk strict path) left, n.path.cursor ≤ m.path.cursor := by
    intro n hn
    obtain ⟨⟨hdead, hnpath⟩, hfree⟩ := (mem_places_iff hd hp hs).1 hn
    have hncursor : n.path.cursor = path.cursor + (Address.keys n.parent).length := by
      rw [hnpath]
      rfl
    have hle := h.deepest n.parent hdead (hncursor ▸ hfree)
    omega
  have hgreat : IsGreatest {c | ∃ n ∈ places (doc.walk strict path) left, n.path.cursor = c}
      m.path.cursor := by
    refine ⟨⟨m, hmem, rfl⟩, ?_⟩
    rintro _ ⟨n, hn, rfl⟩
    exact hlargest n hn
  exact ⟨hmem, hgreat.unique (isGreatest_foldl_cursor (List.ne_nil_of_mem hmem))⟩

/-- At a deepest place where no branch is created, none can be created. -/
theorem idle_of_not_createsAt {left : List (Address × Nat)} {m : Missing}
    (hm : m ∈ deepest (places (doc.walk strict path) left))
    (h : ¬ CreatesAt {l | l ∈ left} doc path m.parent) :
    branch? data m.path = none ∨ ∀ es, doc.get? m.parent ≠ some (.mapping es) := by
  obtain ⟨⟨hdead, hpath⟩, hfree⟩ := (mem_places_iff hd hp hs).1 (mem_of_mem_deepest hm)
  rcases hdead with hbarren | hskips
  · left
    by_contra hbranch
    refine h ⟨hbarren, ?_, ?_, ?_⟩
    · rw [hpath] at hfree
      exact hfree
    · intro hplain
      refine hbranch ?_
      rw [branch?, hpath, KeyPath.remaining, KeyPath.skip, hplain]
    · intro b hb hbfree
      have hmem : ⟨b, path.skip (Address.keys b).length⟩ ∈ places (doc.walk strict path) left :=
        (mem_places_iff hd hp hs).2 ⟨⟨hb, rfl⟩, hbfree⟩
      have hle := le_of_mem_deepest hm hmem
      rw [hpath] at hle
      exact Nat.le_of_add_le_add_left hle
  · right
    intro es hes
    obtain ⟨v, hv, hmapping⟩ := hskips.node
    rw [hes] at hv
    cases hv
    cases hmapping

open Classical in
/-- Of the deepest places, those where branches are created are the sites. -/
theorem filter_deepest_places (left : List (Address × Nat)) :
    (deepest (places (doc.walk strict path) left)).filter
        (fun m => decide (CreatesAt {l | l ∈ left} doc path m.parent)) =
      sites {l | l ∈ left} doc path (doc.walk strict path) := by
  let P : Missing → Bool := fun m => decide (CreatesAt {l | l ∈ left} doc path m.parent)
  have hP : ∀ k m : Missing, k.parent = m.parent → k.path.equivalent m.path → P k = P m :=
    fun k m hparent _ => by simp only [P, hparent]
  rw [deepest, distinct_filter hP, List.filter_nil, sites, places, List.filter_filter,
    List.filter_filter]
  congr 1
  refine List.filter_congr fun m hm => ?_
  rw [Bool.and_assoc]
  show (P m && _) = P m
  cases hPm : P m with
  | false => rfl
  | true =>
    obtain ⟨hmem, hcursor⟩ := CreatesAt.mem_places hd hp hs hm (of_decide_eq_true hPm)
    rw [Bool.true_and, Bool.and_eq_true_iff]
    exact ⟨beq_iff_eq.2 hcursor, (List.mem_filter.1 hmem).2⟩

theorem pairwise_apart_deepest_places (left : List (Address × Nat)) :
    ((deepest (places (doc.walk strict path) left)).map (·.parent)).Pairwise Address.Apart := by
  have hnodup : ((deepest (places (doc.walk strict path) left)).map (·.parent)).Nodup := by
    refine nodup_distinct (f := fun a => path.skip (Address.keys a).length) (by simp) ?_
      List.nodup_nil
    intro m hm
    exact ((mem_places_iff hd hp hs).1 (List.mem_filter.1 hm).1).1.2
  have hdead : ∀ a ∈ (deepest (places (doc.walk strict path) left)).map (·.parent),
      doc.DeadEnd path a := by
    intro a ha
    obtain ⟨m, hm, rfl⟩ := List.mem_map.1 ha
    exact ((mem_places_iff hd hp hs).1 (mem_of_mem_deepest hm)).1.1
  exact Value.DeadEnd.pairwise_apart hnodup hdead

/-- At the deepest places branches are created at the sites, and nowhere else. -/
theorem createAll_deepest_places (left : List (Address × Nat)) (n : Nat) :
    let out := Target.applyAll (·.replace? data) (doc.walk strict path).ends doc 0
    createAll data (deepest (places (doc.walk strict path) left)) out.1 n =
      createAll data (sites {l | l ∈ left} doc path (doc.walk strict path)) out.1 n := by
  classical
  intro out
  rw [← filter_deepest_places hd hp hs left]
  refine (createAll_filter_of_apart (fun m hm hnot => ?_)
    (pairwise_apart_deepest_places hd hp hs left)).symm
  have hdead := ((mem_places_iff hd hp hs).1 (mem_of_mem_deepest hm)).1.1
  rw [get?_replaced data hd hp hs hdead]
  exact idle_of_not_createsAt data hd hp hs hm (of_decide_eq_false hnot)

open Classical in
/-- Each place where a branch is created is one site. -/
theorem sites_iff (left : Set (Address × Nat)) :
    (∀ m ∈ sites left doc path (doc.walk strict path),
      m.path = path.skip (Address.keys m.parent).length) ∧
    (∀ a, a ∈ (sites left doc path (doc.walk strict path)).map (·.parent) ↔
      CreatesAt left doc path a) ∧
    ((sites left doc path (doc.walk strict path)).map (·.parent)).Nodup := by
  have hmem : ∀ m ∈ (doc.walk strict path).misses.filter fun m =>
      decide (CreatesAt left doc path m.parent),
      m.path = path.skip (Address.keys m.parent).length ∧ CreatesAt left doc path m.parent := by
    intro m hm
    obtain ⟨hm, hcreates⟩ := List.mem_filter.1 hm
    exact ⟨((Walk.mem_misses_iff hd hp hs).1 hm).1, of_decide_eq_true hcreates⟩
  have hsite : ∀ m ∈ sites left doc path (doc.walk strict path),
      m.path = path.skip (Address.keys m.parent).length ∧ CreatesAt left doc path m.parent := by
    intro m hm
    rcases mem_of_mem_distinct hm with hm | hm
    · cases hm
    · exact hmem m hm
  refine ⟨fun m hm => (hsite m hm).1, fun a => ⟨?_, fun ha => ?_⟩, ?_⟩
  · rw [List.mem_map]
    rintro ⟨m, hm, rfl⟩
    exact (hsite m hm).2
  · have hmiss : ⟨a, path.skip a.keys.length⟩ ∈ (doc.walk strict path).misses :=
      ((Walk.mem_misses_not_level_iff hd hp hs).2 ⟨.inl ha.barren, rfl⟩).1
    have hmem : ⟨a, path.skip a.keys.length⟩ ∈ (doc.walk strict path).misses.filter fun m =>
        decide (CreatesAt left doc path m.parent) :=
      List.mem_filter.2 ⟨hmiss, decide_eq_true ha⟩
    obtain ⟨m, hm, hparent, -⟩ := exists_mem_distinct hmem
    exact List.mem_map.2 ⟨m, hm, hparent⟩
  · exact nodup_distinct (f := fun a => path.skip (Address.keys a).length) (by simp)
      (fun m hm => (hmem m hm).1) List.nodup_nil

omit hd hp hs in
/-- Wherever branches are created, it is the same branch, and its keys lead along the rest of the
path. -/
theorem CreatesAt.exists_branch
    (hlit : ∀ s ∈ path.segments, ∀ k, s.literal? = some k → s.isMatch k)
    (left : Set (Address × Nat)) :
    ∃ k ks, ∀ a, CreatesAt left doc path a →
      branch? data (path.skip a.keys.length) = some (k, nest data ks) ∧
        path.Along (a.keys ++ k :: ks) ∧ (a.keys ++ k :: ks).length = path.remaining.length := by
  by_cases hsome : ∃ a, CreatesAt left doc path a
  · obtain ⟨a, ha⟩ := hsome
    obtain ⟨k, ks, hkeys, hbranch⟩ := ha.exists_keys
    refine ⟨k, ks, fun b hb => ?_⟩
    rw [ha.length_eq hb] at hkeys hbranch
    obtain ⟨es, hv, -⟩ := hb.barren
    obtain ⟨hal, hlen⟩ : (path.skip b.keys.length).Along (k :: ks) ∧ _ :=
      along_of_keys? hlit hkeys
    have hmore := hv.more
    rw [KeyPath.remaining_skip, List.length_drop] at hlen
    refine ⟨hbranch data, KeyPath.along_append.2 ⟨hv.along, hal⟩, ?_⟩
    rw [List.length_append]
    omega
  · exact ⟨"", [], fun a ha => absurd ⟨a, ha⟩ hsome⟩

/-- Replacing the entries that match and creating branches at the sites are changes along the
path. -/
theorem exists_edits (hlit : ∀ s ∈ path.segments, ∀ k, s.literal? = some k → s.isMatch k)
    (left : Set (Address × Nat)) :
    ∃ E : doc.Edits path, E.ends = (doc.walk strict path).ends ∧
      (∀ a, a ∈ E.sites ↔ CreatesAt left doc path a) ∧
      ∀ n, createAll data (sites left doc path (doc.walk strict path))
        (Target.applyAll (·.replace? data) (doc.walk strict path).ends doc 0).1 n =
          (E.apply data, n + E.sites.length) := by
  obtain ⟨hpath, hsite, hnodup⟩ := sites_iff hd hp hs left
  obtain ⟨k, ks, hbranch⟩ : ∃ k ks, ∀ a, CreatesAt left doc path a → _ :=
    CreatesAt.exists_branch data hlit left
  let E : doc.Edits path := {
    ends := (doc.walk strict path).ends
    sites := (sites left doc path (doc.walk strict path)).map (·.parent)
    key := k
    keys := ks
    mem_ends := fun t => mem_ends_iff hd hp hs
    apart := Walk.pairwise_apart_ends hd
    barren := fun a ha => ((hsite a).1 ha).barren
    nodup := hnodup
    along := fun a ha => (hbranch a ((hsite a).1 ha)).2.1
    whole := fun a ha => (hbranch a ((hsite a).1 ha)).2.2 }
  refine ⟨E, rfl, hsite, fun n => ?_⟩
  have hparents : E.sites.Pairwise Address.Apart :=
    Value.DeadEnd.pairwise_apart E.nodup fun a ha => .inl (E.barren a ha)
  rw [createAll_of_some (e := E.branch data) ?_ ?_ hparents, Target.fst_applyAll_replace?,
    ← Value.modifyAll_append]
  · exact Prod.ext rfl (by simp [E])
  · intro m hm
    rw [hpath m hm]
    exact (hbranch _ ((hsite _).1 (List.mem_map_of_mem hm))).1
  · intro m hm
    have hm := List.mem_map_of_mem (f := (·.parent)) hm
    rw [get?_replaced data hd hp hs (.inl (E.barren _ hm))]
    exact (E.exists_mapping hm).imp fun _ hes => ⟨hes.1, hes.2.1⟩

/-- What replacing the entries that match and creating branches at the sites make of a document. -/
theorem grown_createAll
    (hlit : ∀ s ∈ path.segments, ∀ k, s.literal? = some k → s.isMatch k)
    (left : Set (Address × Nat)) :
    let out := Target.applyAll (·.replace? data) (doc.walk strict path).ends doc 0
    ∃ e, doc.Grown (doc.Ends path) data (fun a f => CreatesAt left doc path a ∧ f = e)
      (createAll data (sites left doc path (doc.walk strict path)) out.1 0).1 := by
  intro out
  obtain ⟨E, -, hsite, hmade⟩ := exists_edits data hd hp hs hlit left
  rw [hmade 0]
  have hgrown := Value.grown_modifyAll (fun t ht => ((E.mem_ends t).1 ht).exists_get?)
    (fun a ha => (E.exists_mapping ha).imp fun _ hes => hes.1) (E.pairwise_apart_changes data)
  exact ⟨_, hgrown.congr E.mem_ends fun a f => and_congr_left fun _ => hsite a⟩

end Sites

/-! ### One insert for several jobs -/

/-- A place cannot both gain an entry and not gain one. -/
theorem createsAt_of_grown {ends : Target → Prop} {out : Value} {left right : Set (Address × Nat)}
    {e f : String × Value}
    (hleft : doc.Grown ends data (fun a g => CreatesAt left doc path a ∧ g = e) out)
    (hright : doc.Grown ends data (fun a g => CreatesAt right doc path a ∧ g = f) out)
    (hends : ∀ t, ends t → doc.Ends path t) (ha : CreatesAt left doc path a) :
    CreatesAt right doc path a := by
  by_contra hnot
  obtain ⟨es, hes, hout⟩ := hleft.gained a e ⟨ha, rfl⟩
  obtain ⟨w, hw, houtline⟩ := hright.kept a _ hes
    (fun t ht => ((hends t ht).apart_deadEnd (.inl ha.barren)).1) (fun _ h => hnot h.1)
  rw [hout] at hw
  cases hw
  simp [Value.outline, Entries.keys] at houtline

/-- **Inserts one after another.**  After jobs that end well, an insert does with the next document
that it can go through what a new insert does, but for one thing: the mappings where it creates
branches.  If they are the same with the levels that the jobs have left as without them, then the
document is the same, and as many branches are created; if they differ, then so do the documents. -/
theorem perform_after_iff {js : List Job} {j : Job}
    (hok : ∀ o ∈ visitor.outcomes (js ++ [j]) { data }, o.2.isOk) :
    let before := visitor.after js { data }
    let used := visitor.perform j before
    let new := visitor.perform j { data }
    used.result = new.result ∧ used.state.replaced = before.replaced + new.state.replaced ∧
      ((∀ a, CreatesAt (leftBy js) j.doc j.path a ↔ CreatesAt ∅ j.doc j.path a) →
        used.doc = new.doc ∧ used.state.created = before.created + new.state.created) ∧
      ((∀ s ∈ j.path.segments, ∀ k, s.literal? = some k → s.isMatch k) → used.doc = new.doc →
        ∀ a, CreatesAt (leftBy js) j.doc j.path a ↔ CreatesAt ∅ j.doc j.path a) := by
  intro before used new
  rw [Visitor.outcomes_append, List.forall_mem_append] at hok
  obtain ⟨hdata, hclean, hlevels⟩ := Clean.after ⟨rfl, rfl⟩ hok.1
  have hokj : used.result.isOk := hok.2 _ (List.mem_singleton_self _)
  have hlevels : {l | l ∈ before.levels} = leftBy js := by
    ext l
    exact (hlevels l).trans (by simp)
  cases hp : j.path.hasNext with
  | false =>
    have hused : used = ⟨before, j.doc, .ok false⟩ := Visitor.run_of_not_hasNext hp
    have hnew : new = ⟨{ data }, j.doc, .ok false⟩ := Visitor.run_of_not_hasNext hp
    have hnone : ∀ left a, ¬ CreatesAt left j.doc j.path a := by
      intro left a ha
      obtain ⟨es, hv, -⟩ := ha.barren
      simp [hv.hasNext] at hp
    rw [hused, hnew]
    exact ⟨rfl, rfl, fun _ => ⟨rfl, rfl⟩,
      fun _ _ a => ⟨fun ha => absurd ha (hnone _ a), fun ha => absurd ha (hnone _ a)⟩⟩
  | true =>
    have hs : (j.doc.walk j.strict j.path).stop = none :=
      (Visitor.isOk_run_iff accepts_visitor hp).1 hokj
    have hd := j.distinct
    have hused := run_of_clean hclean.existing hclean.missing hp hs
    have hnew := run_of_clean (i := { data }) rfl rfl hp hs
    have hnone : {l | l ∈ ({ data } : Insert).levels} = ∅ := by simp
    dsimp only at hused hnew
    rw [show before.data = data from hdata, createAll_deepest_places data hd hp hs, hlevels] at hused
    rw [createAll_deepest_places data hd hp hs, hnone] at hnew
    rw [show used = _ from hused, show new = _ from hnew]
    refine ⟨rfl, by rw [Nat.zero_add], fun hsame => ?_, fun hlit hdoc a => ?_⟩
    · rw [sites_congr hsame]
      exact ⟨rfl, by dsimp only; rw [Nat.zero_add]⟩
    · obtain ⟨e, he⟩ := grown_createAll data hd hp hs hlit (leftBy js)
      obtain ⟨f, hf⟩ := grown_createAll data hd hp hs hlit ∅
      dsimp only at hdoc
      rw [hdoc] at he
      exact ⟨createsAt_of_grown he hf (fun _ => id), createsAt_of_grown hf he (fun _ => id)⟩

/-- The key of the first document matches in a mapping that the second document has too, but the
mapping where the branch is created is new in the second document. -/
theorem perform_after_iff_apart :
    let data := Value.string "new"
    let first := Value.mapping [("a", .mapping [("x", .null)])]
    let second := Value.mapping [("a", .mapping [("x", .null)]), ("b", .mapping [])]
    let out := Value.mapping [("a", .mapping [("x", data)]), ("b", .mapping [("x", data)])]
    ∃ j k : Job, j.doc = first ∧ k.doc = second ∧
      (∀ o ∈ visitor.outcomes ([j] ++ [k]) { data }, o.2.isOk) ∧
      (visitor.perform k (visitor.after [j] { data })).doc = out ∧
      (visitor.perform k { data }).doc = out ∧
      ∀ a, CreatesAt (leftBy [j]) second k.path a ↔ CreatesAt ∅ second k.path a := by
  intro data first second out
  obtain ⟨p, hp, hlit, hok, hused, hnew⟩ := KeyPath.exists_parse "*.x" "."
    (fun p => (∀ s ∈ p.segments, ∀ k ∈ s.literal?, s.isMatch k) ∧
      ((visitor.run true p first { data }).result.isOk ∧
        (visitor.run true p second (visitor.run true p first { data }).state).result.isOk) ∧
      (visitor.run true p second (visitor.run true p first { data }).state).doc = out ∧
      (visitor.run true p second { data }).doc = out) (by decide +kernel)
  let j : Job := ⟨first, p, true, by decide, .parse hp⟩
  let k : Job := ⟨second, p, true, by decide, .parse hp⟩
  have hoks : ∀ o ∈ visitor.outcomes ([j] ++ [k]) { data }, o.2.isOk := by
    rw [List.singleton_append, Visitor.outcomes, Visitor.outcomes, Visitor.outcomes,
      List.forall_mem_cons, List.forall_mem_singleton]
    exact hok
  obtain ⟨-, -, -, hiff⟩ := perform_after_iff hoks
  exact ⟨j, k, rfl, rfl, hoks, hused, hnew, hiff hlit (hused.trans hnew.symm)⟩

/-- A key that has matched in one document keeps an insert from creating it in the next. -/
theorem creates_nothing_after_match :
    let data := Value.string "new"
    let first := Value.mapping [("a", .mapping [("x", .null)])]
    let second := Value.mapping [("a", .mapping [("y", .null)])]
    ∃ j k : Job, j.doc = first ∧ k.doc = second ∧
      visitor.outcomes [j, k] { data } =
        [(.mapping [("a", .mapping [("x", data)])], .ok true), (second, .ok false)] ∧
      (visitor.after [j, k] { data }).created = 0 ∧
      visitor.outcomes [k] { data } =
        [(.mapping [("a", .mapping [("y", .null), ("x", data)])], .ok false)] ∧
      (visitor.after [k] { data }).created = 1 := by
  intro data first second
  obtain ⟨p, hp, hfirst, hused, hnone, hnew, hone⟩ := KeyPath.exists_parse "a.x" "."
    (fun p =>
      let left := visitor.run true p first { data }
      let used := visitor.run true p second left.state
      let new := visitor.run true p second { data }
      (left.doc, left.result) = (.mapping [("a", .mapping [("x", data)])], .ok true) ∧
        (used.doc, used.result) = (second, .ok false) ∧ used.state.created = 0 ∧
        (new.doc, new.result) =
          (.mapping [("a", .mapping [("y", .null), ("x", data)])], .ok false) ∧
        new.state.created = 1) (by decide +kernel)
  refine ⟨⟨first, p, true, by decide, .parse hp⟩, ⟨second, p, true, by decide, .parse hp⟩, rfl, rfl,
    ?_, hnone, ?_, hone⟩
  · rw [Visitor.outcomes, Visitor.outcomes, Visitor.outcomes]
    exact congrArg₂ (fun o o' => [o, o']) hfirst hused
  · rw [Visitor.outcomes, Visitor.outcomes]
    exact congrArg (fun o => [o]) hnew

end Insert

end YamlQuery

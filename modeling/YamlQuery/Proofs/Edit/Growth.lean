import Mathlib.Order.Bounds.Basic
import YamlQuery.Proofs.Edit.DeadEnds
import YamlQuery.Proofs.Edit.Runs
import YamlQuery.Proofs.Edit.Targets

/-!
# Proofs.Edit.Growth — where an insert creates branches

On a strict walk that ends well the only dead ends are the barren mappings.  What an insert has noted
down at its end comes to these (`Insert.mem_barren`), and of them to the deepest ones, each once
(`Insert.mem_deepest`, `Insert.nodup_sites`).

`Value.Grown` says what becomes of a document: the entries that match have a new value, some mappings
have one more entry, and the rest is as it was (`Insert.grown_of_run`).
-/

namespace YamlQuery

namespace Insert

/-! ### What is noted down on the walk -/

theorem accepts_visitor : visitor.Accepts := by
  refine ⟨fun e i => ?_, fun doc i => ⟨_, rfl⟩⟩
  cases e <;> rfl

theorem noteAll_walk (w : Walk) (i : Insert) :
    visitor.noteAll w.events i =
      { i with
        existing := i.existing ++ w.ends
        missing := i.missing ++ w.misses
        levels := w.levels.reverse ++ i.levels } := by
  refine Visitor.noteAll_eq
    (f := fun es i =>
      { i with
        existing := i.existing ++ es.filterMap Event.end?
        missing := i.missing ++ es.filterMap Event.missing?
        levels := (es.filterMap Event.level?).reverse ++ i.levels }) (by simp) ?_ w.events i
  intro e es i
  cases e <;> simp [visitor, List.filterMap_cons, Event.end?, Event.missing?, Event.level?]

/-- What a new insert has noted down at the end of a strict walk. -/
def noted (data : Value) (path : KeyPath) (doc : Value) : Insert :=
  visitor.noteAll (doc.walk true path).events { data }

section Noted

variable {data doc : Value} {path : KeyPath}

theorem existing_noted : (noted data path doc).existing = (doc.walk true path).ends := by
  rw [noted, noteAll_walk]
  rfl

/-- The places left over are the barren mappings. -/
theorem mem_barren (hd : doc.Distinct) (hp : path.hasNext) (hs : (doc.walk true path).stop = none)
    {m : Missing} : m ∈ (noted data path doc).barren ↔
      doc.Barren path m.parent ∧ m.path = path.skip (Address.keys m.parent).length := by
  have hdead : doc.DeadEnd path m.parent ↔ doc.Barren path m.parent :=
    or_iff_left (Value.not_skips_of_strict hd hs)
  rw [← hdead, ← Walk.mem_misses_not_level_iff hd hp hs, barren, List.mem_filter, noted,
    noteAll_walk, List.append_nil, Bool.not_eq_true', ← Bool.not_eq_true, List.contains_iff_mem,
    List.mem_reverse]
  exact Iff.rfl

end Noted

/-! ### The deepest places -/

theorem mem_of_mem_distinct {m : Missing} :
    ∀ {kept ms : List Missing}, m ∈ distinct kept ms → m ∈ kept ∨ m ∈ ms
  | _, [], h => .inl h
  | kept, n :: ms, h => by
    rw [distinct] at h
    split at h
    · exact (mem_of_mem_distinct h).imp_right (List.mem_cons_of_mem n)
    · rcases mem_of_mem_distinct h with h | h
      · rw [List.mem_append, List.mem_singleton] at h
        exact h.imp_right fun h => List.mem_cons.2 (.inl h)
      · exact .inr (List.mem_cons_of_mem n h)

theorem subset_distinct : ∀ (kept ms : List Missing), kept ⊆ distinct kept ms
  | kept, [] => List.Subset.refl kept
  | kept, n :: ms => by
    rw [distinct]
    split
    · exact subset_distinct kept ms
    · exact fun m hm => subset_distinct (kept ++ [n]) ms (List.mem_append_left _ hm)

theorem exists_mem_distinct {m : Missing} :
    ∀ {kept ms : List Missing}, m ∈ ms →
      ∃ k ∈ distinct kept ms, k.parent = m.parent ∧ k.path.equivalent m.path
  | kept, n :: ms, h => by
    rw [distinct]
    rcases List.mem_cons.1 h with rfl | h
    · split
      · next hany =>
        obtain ⟨k, hk, heq⟩ := List.any_eq_true.1 hany
        rw [Bool.and_eq_true, decide_eq_true_eq] at heq
        exact ⟨k, subset_distinct kept ms hk, heq⟩
      · have hm : m ∈ kept ++ [m] := List.mem_append_right _ (List.mem_singleton_self m)
        exact ⟨m, subset_distinct _ ms hm, rfl, by simp [KeyPath.equivalent]⟩
    · split
      · exact exists_mem_distinct h
      · exact exists_mem_distinct h

/-- If the addresses determine the paths, each address is left once. -/
theorem nodup_distinct {f : Address → KeyPath} :
    ∀ {kept ms : List Missing}, (∀ m ∈ kept, m.path = f m.parent) →
      (∀ m ∈ ms, m.path = f m.parent) → (kept.map (·.parent)).Nodup →
        ((distinct kept ms).map (·.parent)).Nodup
  | _, [], _, _, h => by simpa [distinct] using h
  | kept, n :: ms, hkept, hms, h => by
    have hn := hms n List.mem_cons_self
    have hms := fun m hm => hms m (List.mem_cons_of_mem n hm)
    rw [distinct]
    split
    · exact nodup_distinct hkept hms h
    · next hany =>
      refine nodup_distinct ?_ hms ?_
      · intro m hm
        rcases List.mem_append.1 hm with hm | hm
        · exact hkept m hm
        · rw [List.mem_singleton.1 hm, hn]
      · rw [List.map_append, List.map_singleton]
        refine List.nodup_append.2 ⟨h, List.pairwise_singleton _ _, ?_⟩
        rintro _ hk _ hn' rfl
        obtain ⟨k, hk, hkn⟩ := List.mem_map.1 hk
        have hparent : k.parent = n.parent := hkn.trans (List.mem_singleton.1 hn')
        refine hany (List.any_eq_true.2 ⟨k, hk, ?_⟩)
        rw [Bool.and_eq_true, decide_eq_true_eq, hkept k hk, hn, hparent]
        exact ⟨rfl, by simp [KeyPath.equivalent]⟩

/-- A property that duplicates share can be looked at before or after they go. -/
theorem distinct_filter {B : Missing → Bool}
    (hB : ∀ k m : Missing, k.parent = m.parent → k.path.equivalent m.path → B k = B m) :
    ∀ kept ms : List Missing, (distinct kept ms).filter B = distinct (kept.filter B) (ms.filter B)
  | kept, [] => rfl
  | kept, m :: ms => by
    cases hm : B m with
    | false =>
      rw [List.filter_cons_of_neg (by simp [hm]), distinct]
      split
      · exact distinct_filter hB kept ms
      · rw [distinct_filter hB, List.filter_append, List.filter_cons_of_neg (by simp [hm]),
          List.filter_nil, List.append_nil]
    | true =>
      have hany : ((kept.filter B).any fun k => k.parent = m.parent && k.path.equivalent m.path) =
          kept.any fun k => k.parent = m.parent && k.path.equivalent m.path := by
        rw [Bool.eq_iff_iff, List.any_eq_true, List.any_eq_true]
        constructor
        · rintro ⟨k, hk, heq⟩
          exact ⟨k, (List.mem_filter.1 hk).1, heq⟩
        · rintro ⟨k, hk, heq⟩
          have hkm := Bool.and_eq_true_iff.1 heq
          have hparent : k.parent = m.parent := of_decide_eq_true hkm.1
          exact ⟨k, List.mem_filter.2 ⟨hk, (hB k m hparent hkm.2).trans hm⟩, heq⟩
      rw [List.filter_cons_of_pos (by simpa using hm), distinct, distinct, hany]
      split
      · exact distinct_filter hB kept ms
      · rw [distinct_filter hB, List.filter_append, List.filter_cons_of_pos (by simpa using hm),
          List.filter_nil]

/-- The fold goes through the cursors and keeps the largest. -/
theorem foldl_cursor : ∀ (ms : List Missing) (d : Nat),
    let e := ms.foldl (fun d m => max d m.path.cursor) d
    d ≤ e ∧ (∀ m ∈ ms, m.path.cursor ≤ e) ∧ (e = d ∨ ∃ m ∈ ms, m.path.cursor = e)
  | [], d => by simp
  | m :: ms, d => by
    obtain ⟨hle, hms, hmem⟩ := foldl_cursor ms (max d m.path.cursor)
    rw [List.foldl_cons]
    refine ⟨by omega, List.forall_mem_cons.2 ⟨by omega, hms⟩, ?_⟩
    rcases hmem with h | ⟨n, hn, h⟩
    · rcases Nat.le_total d m.path.cursor with hd | hd
      · exact .inr ⟨m, List.mem_cons_self, by omega⟩
      · exact .inl (by omega)
    · exact .inr ⟨n, List.mem_cons_of_mem m hn, h⟩

theorem isGreatest_foldl_cursor {ms : List Missing} (h : ms ≠ []) :
    IsGreatest {c | ∃ m ∈ ms, m.path.cursor = c} (ms.foldl (fun d m => max d m.path.cursor) 0) := by
  obtain ⟨-, hle, hmem⟩ := foldl_cursor ms 0
  obtain ⟨m, hm⟩ := List.exists_mem_of_ne_nil ms h
  constructor
  · rcases hmem with h0 | hmem
    · exact ⟨m, hm, by have := hle m hm; omega⟩
    · exact hmem
  · rintro _ ⟨n, hn, rfl⟩
    exact hle n hn

theorem mem_of_mem_deepest {ms : List Missing} {m : Missing} (h : m ∈ deepest ms) : m ∈ ms := by
  rcases mem_of_mem_distinct h with h | h
  · cases h
  · exact (List.mem_filter.1 h).1

/-- The deepest of some places are at the largest cursor. -/
theorem mem_deepest {ms : List Missing} {d : Nat}
    (h : IsGreatest {c | ∃ m ∈ ms, m.path.cursor = c} d) {m : Missing} (hm : m ∈ deepest ms) :
    m ∈ ms ∧ m.path.cursor = d := by
  have hms : ms ≠ [] := by
    obtain ⟨n, hn, -⟩ := h.1
    exact List.ne_nil_of_mem hn
  rw [← (isGreatest_foldl_cursor hms).unique h]
  rcases mem_of_mem_distinct hm with hm | hm
  · cases hm
  · simpa using List.mem_filter.1 hm

theorem le_of_mem_deepest {ms : List Missing} {m n : Missing} (hm : m ∈ deepest ms) (hn : n ∈ ms) :
    n.path.cursor ≤ m.path.cursor := by
  have h := isGreatest_foldl_cursor (List.ne_nil_of_mem hn)
  rw [(mem_deepest h hm).2]
  exact h.2 ⟨n, hn, rfl⟩

theorem exists_mem_deepest {ms : List Missing} {d : Nat}
    (h : IsGreatest {c | ∃ m ∈ ms, m.path.cursor = c} d) {m : Missing} (hm : m ∈ ms)
    (hc : m.path.cursor = d) :
    ∃ n ∈ deepest ms, n.parent = m.parent ∧ n.path.equivalent m.path := by
  rw [← (isGreatest_foldl_cursor (List.ne_nil_of_mem hm)).unique h] at hc
  exact exists_mem_distinct (List.mem_filter.2 ⟨hm, by simpa using hc⟩)

end Insert

/-! ### What becomes of the document -/

namespace Value

/-- The mapping with one more entry behind the others. -/
def grow (e : String × Value) : Value → Value
  | .mapping es => .mapping (es ++ [e])
  | v => v

/-- A document after an insert: the entries that match have the new value, some mappings have one
more entry, and every other node that does not lie below an entry with a new value is there with the
keys, the length or the scalar that it had. -/
structure Grown (doc : Value) (ends : Target → Prop) (data : Value)
    (new : Address → String × Value → Prop) (out : Value) : Prop where
  ended : ∀ t, ends t → out.get? t.address = some data
  gained : ∀ a e, new a e → ∃ es, doc.get? a = some (.mapping es) ∧
    out.get? a = some (.mapping (es ++ [e]))
  kept : ∀ a v, doc.get? a = some v → (∀ t, ends t → ¬ t.address <+: a) → (∀ e, ¬ new a e) →
    ∃ w, out.get? a = some w ∧ w.outline = v.outline

variable {doc data out : Value} {ts : List Target} {as : List Address} {e : String × Value}

theorem Grown.congr {ends ends' : Target → Prop} {new new' : Address → String × Value → Prop}
    (h : doc.Grown ends data new out) (hends : ∀ t, ends t ↔ ends' t)
    (hnew : ∀ a e, new a e ↔ new' a e) : doc.Grown ends' data new' out := by
  have hends : ends = ends' := funext fun t => propext (hends t)
  have hnew : new = new' := funext₂ fun a e => propext (hnew a e)
  rwa [← hends, ← hnew]

theorem child?_grow {v c : Value} {s : Step} (h : v.child? s = some c) (e : String × Value) :
    (grow e v).child? s = some c := by
  obtain ⟨es, k, rfl, rfl, hk⟩ | ⟨items, i, rfl, rfl, hi⟩ := child?_eq_some_iff.1 h
  · have hk' : k ∈ Entries.keys es := Entries.mem_keys.2 ⟨c, Entries.mem_of_get? hk⟩
    rw [grow, child?, Entries.get?_append_of_mem hk', hk]
  · exact hi

/-- New values at some entries, and one more entry in each of some mappings. -/
def changes (data : Value) (ts : List Target) (e : String × Value) (as : List Address) :
    List (Address × (Value → Value)) :=
  ts.map (fun t => (t.address, fun _ => data)) ++ as.map fun a => (a, grow e)

/-- Changes of which none lies above another do what they are to do, and nothing else. -/
theorem grown_modifyAll (hts : ∀ t ∈ ts, ∃ v, doc.get? t.address = some v)
    (has : ∀ a ∈ as, ∃ es, doc.get? a = some (.mapping es))
    (hapart : (changes data ts e as).Pairwise fun c d => c.1.Apart d.1) :
    doc.Grown (· ∈ ts) data (fun a f => a ∈ as ∧ f = e) (doc.modifyAll (changes data ts e as)) := by
  have hgained : ∀ a ∈ as, ∃ es, doc.get? a = some (.mapping es) ∧
      (doc.modifyAll (changes data ts e as)).get? a = some (.mapping (es ++ [e])) := by
    intro a ha
    obtain ⟨es, hes⟩ := has a ha
    have hmem : (a, grow e) ∈ changes data ts e as :=
      List.mem_append_right _ (List.mem_map_of_mem ha)
    refine ⟨es, hes, ?_⟩
    rw [get?_modifyAll_of_mem hapart _ hmem, hes]
    rfl
  constructor
  · intro t ht
    obtain ⟨v, hv⟩ := hts t ht
    have hmem : (t.address, fun _ => data) ∈ changes data ts e as :=
      List.mem_append_left _ (List.mem_map_of_mem ht)
    rw [get?_modifyAll_of_mem hapart _ hmem, hv]
    rfl
  · rintro a f ⟨ha, rfl⟩
    exact hgained a ha
  · intro b v hv hends hnew
    by_cases hb : ∃ a ∈ as, a <+: b
    · -- below a mapping with one more entry, the other entries are as they were
      obtain ⟨a, ha, b, rfl⟩ := hb
      obtain ⟨es, hes, hout⟩ := hgained a ha
      refine ⟨v, ?_, rfl⟩
      cases b with
      | nil => exact absurd ⟨by simpa using ha, rfl⟩ (hnew e)
      | cons s b =>
        rw [get?_append, hes, Option.bind_some, get?_cons] at hv
        obtain ⟨c, hc, hv⟩ := Option.bind_eq_some_iff.1 hv
        rw [get?_append, hout, Option.bind_some, get?_cons, ← grow, child?_grow hc]
        exact hv
    · have hprefix : ∀ c ∈ changes data ts e as, ¬ c.1 <+: b := by
        intro c hc
        rcases List.mem_append.1 hc with hc | hc
        · obtain ⟨t, ht, rfl⟩ := List.mem_map.1 hc
          exact hends t ht
        · obtain ⟨a, ha, rfl⟩ := List.mem_map.1 hc
          exact fun h => hb ⟨a, ha, h⟩
      have houtline := outline_get?_modifyAll hprefix (v := doc)
      rw [hv, Option.map_some] at houtline
      exact Option.map_eq_some_iff.1 houtline

end Value

namespace Insert

variable {data doc : Value} {path : KeyPath} {e : String × Value}

theorem createAll_of_none :
    ∀ {ms : List Missing} {doc : Value} {n : Nat}, (∀ m ∈ ms, branch? data m.path = none) →
      createAll data ms doc n = (doc, n)
  | [], _, _, _ => rfl
  | m :: ms, doc, n, h => by
    rw [createAll, create?, h m List.mem_cons_self]
    exact createAll_of_none fun k hk => h k (List.mem_cons_of_mem m hk)

theorem create?_eq_modify? {m : Missing} {es : Entries Value} (hb : branch? data m.path = some e)
    (hes : doc.get? m.parent = some (.mapping es)) (he : e.1 ∉ Entries.keys es) :
    create? data m doc = doc.modify? (Value.grow e) m.parent := by
  rw [create?, hb, hes, ← Value.replace?_of_get? hes]
  simp only [Value.grow, Entries.put_of_not_mem he]

/-- The same branch at several mappings of which none lies above another. -/
theorem createAll_of_some :
    ∀ {ms : List Missing} {doc : Value} {n : Nat}, (∀ m ∈ ms, branch? data m.path = some e) →
      (∀ m ∈ ms, ∃ es, doc.get? m.parent = some (.mapping es) ∧ e.1 ∉ Entries.keys es) →
        (ms.map (·.parent)).Pairwise Address.Apart →
          createAll data ms doc n =
            (doc.modifyAll ((ms.map (·.parent)).map fun a => (a, Value.grow e)), n + ms.length)
  | [], _, _, _, _, _ => rfl
  | m :: ms, doc, n, hb, hes, hapart => by
    obtain ⟨hm, hms⟩ := List.pairwise_cons.1 hapart
    obtain ⟨fs, hfs, hfe⟩ := hes m List.mem_cons_self
    obtain ⟨w, hw⟩ := Value.exists_modify? hfs (Value.grow e)
    have hget : ∀ k ∈ ms, w.get? k.parent = doc.get? k.parent := by
      intro k hk
      obtain ⟨hmk, hkm⟩ := hm k.parent (List.mem_map_of_mem hk)
      exact Value.get?_modify?_of_disjoint hw hmk hkm
    rw [createAll, create?_eq_modify? (hb m List.mem_cons_self) hfs hfe, hw]
    dsimp only
    rw [createAll_of_some (fun k hk => hb k (List.mem_cons_of_mem m hk))
      (fun k hk => hget k hk ▸ hes k (List.mem_cons_of_mem m hk)) hms, List.map_cons, List.map_cons,
      Value.modifyAll_cons, hw, Option.getD_some, List.length_cons, Nat.add_assoc, Nat.add_comm 1]

/-! ### One run of a new insert -/

theorem run_noted (data : Value) (hp : path.hasNext) (hs : (doc.walk true path).stop = none) :
    let out := visitor.run true path doc { data }
    let made := createAll data (deepest (noted data path doc).barren)
      (doc.modifyAll ((doc.walk true path).ends.map fun t => (t.address, fun _ => data))) 0
    out.doc = made.1 ∧ out.state.created = made.2 := by
  have hdata : (noted data path doc).data = data := by rw [noted, noteAll_walk]
  have hcreated : (noted data path doc).created = 0 := by rw [noted, noteAll_walk]
  have hnoted : visitor.noteAll (doc.walk true path).events { data } = noted data path doc := rfl
  rw [Visitor.run_of_finish accepts_visitor hp hs rfl, hnoted]
  dsimp only [visitor]
  rw [hdata, hcreated, existing_noted, Target.fst_applyAll_replace?]
  exact ⟨rfl, rfl⟩

section Sites

variable (data) (hd : doc.Distinct) (hp : path.hasNext) (hs : (doc.walk true path).stop = none)

include hd hp hs

theorem cursors_barren : {c | ∃ m ∈ (noted data path doc).barren, m.path.cursor = c} =
    {c | ∃ a, doc.Barren path a ∧ path.cursor + a.keys.length = c} := by
  ext c
  constructor
  · rintro ⟨m, hm, rfl⟩
    obtain ⟨hb, hpath⟩ := (mem_barren hd hp hs).1 hm
    exact ⟨m.parent, hb, by rw [hpath]; rfl⟩
  · rintro ⟨a, hb, rfl⟩
    exact ⟨⟨a, path.skip a.keys.length⟩, (mem_barren hd hp hs).2 ⟨hb, rfl⟩, rfl⟩

omit data in
theorem exists_isGreatest_cursor (hb : ∃ a, doc.Barren path a) :
    ∃ d, IsGreatest {c | ∃ a, doc.Barren path a ∧ path.cursor + a.keys.length = c} d := by
  obtain ⟨a, ha⟩ := hb
  have hm : ⟨a, path.skip a.keys.length⟩ ∈ (noted .null path doc).barren :=
    (mem_barren hd hp hs).2 ⟨ha, rfl⟩
  rw [← cursors_barren .null hd hp hs]
  exact ⟨_, isGreatest_foldl_cursor (List.ne_nil_of_mem hm)⟩

variable {d : Nat} (h : IsGreatest {c | ∃ a, doc.Barren path a ∧ path.cursor + a.keys.length = c} d)

include h

/-- The places where branches are created are the deepest barren mappings. -/
theorem mem_sites {a : Address} :
    a ∈ (deepest (noted data path doc).barren).map (·.parent) ↔
      doc.Barren path a ∧ path.cursor + a.keys.length = d := by
  rw [← cursors_barren data hd hp hs] at h
  rw [List.mem_map]
  constructor
  · rintro ⟨m, hm, rfl⟩
    obtain ⟨hm, hcursor⟩ := mem_deepest h hm
    obtain ⟨hb, hpath⟩ := (mem_barren hd hp hs).1 hm
    rw [hpath] at hcursor
    exact ⟨hb, hcursor⟩
  · rintro ⟨hb, hcursor⟩
    have hm : ⟨a, path.skip a.keys.length⟩ ∈ (noted data path doc).barren :=
      (mem_barren hd hp hs).2 ⟨hb, rfl⟩
    obtain ⟨n, hn, hparent, -⟩ := exists_mem_deepest h hm hcursor
    exact ⟨n, hn, hparent⟩

theorem remaining_of_mem_deepest {m : Missing} (hm : m ∈ deepest (noted data path doc).barren) :
    m.path.remaining = path.segments.drop d := by
  rw [← cursors_barren data hd hp hs] at h
  obtain ⟨hm, rfl⟩ := mem_deepest h hm
  rw [((mem_barren hd hp hs).1 hm).2]
  rfl

omit h in
theorem nodup_sites : ((deepest (noted data path doc).barren).map (·.parent)).Nodup := by
  refine nodup_distinct (f := fun a => path.skip (Address.keys a).length) (by simp) ?_ List.nodup_nil
  intro m hm
  exact ((mem_barren hd hp hs).1 (List.mem_filter.1 hm).1).2

/-- None of the changes that an insert makes lies above another. -/
theorem pairwise_apart_changes {e : String × Value} :
    (Value.changes data (doc.walk true path).ends e
      ((deepest (noted data path doc).barren).map (·.parent))).Pairwise fun c d => c.1.Apart d.1 := by
  have hends : ∀ t ∈ (doc.walk true path).ends, doc.Ends path t :=
    fun t ht => (mem_ends_iff hd hp hs).1 ht
  have hdead : ∀ a ∈ (deepest (noted data path doc).barren).map (·.parent), doc.DeadEnd path a :=
    fun a ha => .inl ((mem_sites data hd hp hs h).1 ha).1
  rw [Value.changes, List.pairwise_append, List.pairwise_map, List.pairwise_map]
  refine ⟨Walk.pairwise_apart_ends hd,
    Value.DeadEnd.pairwise_apart (nodup_sites data hd hp hs) hdead, ?_⟩
  rintro _ hc _ hc'
  obtain ⟨t, ht, rfl⟩ := List.mem_map.1 hc
  obtain ⟨a, ha, rfl⟩ := List.mem_map.1 hc'
  exact (hends t ht).apart_deadEnd (hdead a ha)

end Sites

/-- As long as there is a segment, there is a first key. -/
theorem ne_nil_of_keys? {segments : List Segment} {ks : List String} (h : keys? segments = some ks)
    (hne : segments ≠ []) :
    ∃ s ss k ls, segments = s :: ss ∧ ks = k :: ls ∧ s.literal? = some k := by
  obtain ⟨s, ss, rfl⟩ := List.exists_cons_of_ne_nil hne
  rw [keys?, List.mapM_cons] at h
  obtain ⟨k, hk, h⟩ := Option.bind_eq_some_iff.1 h
  obtain ⟨ls, -, h⟩ := Option.bind_eq_some_iff.1 h
  exact ⟨s, ss, k, ls, rfl, (Option.some.inj h).symm, hk⟩

theorem forall₂_of_keys? : ∀ {segments : List Segment} {ks : List String},
    (∀ s ∈ segments, ∀ k, s.literal? = some k → s.isMatch k) → keys? segments = some ks →
      List.Forall₂ (fun s k => s.isMatch k) segments ks
  | [], ks, _, h => by
    cases h
    exact .nil
  | s :: ss, ks, hlit, h => by
    obtain ⟨hs, hss⟩ := List.forall_mem_cons.1 hlit
    rw [keys?, List.mapM_cons] at h
    obtain ⟨k, hk, h⟩ := Option.bind_eq_some_iff.1 h
    obtain ⟨ls, hls, h⟩ := Option.bind_eq_some_iff.1 h
    cases h
    exact .cons (hs k hk) (forall₂_of_keys? hss hls)

/-- Keys that the rest of a path stands for lead along it to its end. -/
theorem along_of_keys? {ks : List String}
    (hlit : ∀ s ∈ path.segments, ∀ k, s.literal? = some k → s.isMatch k)
    (h : keys? path.remaining = some ks) :
    path.Along ks ∧ ks.length = path.remaining.length := by
  have hall : List.Forall₂ (fun s k => s.isMatch k) path.remaining ks :=
    forall₂_of_keys? (fun s hs => hlit s (List.mem_of_mem_drop hs)) h
  rw [KeyPath.Along, ← hall.length_eq, List.take_length]
  exact ⟨hall, rfl⟩

/-- A key that matches the segment of a barren mapping is not in it. -/
theorem notMem_of_barren {a : Address} {es : Entries Value} {s : Segment} {ss : List Segment}
    {k : String} (ha : doc.Barren path a) (hes : doc.get? a = some (.mapping es))
    (hs : path.segments.drop (path.cursor + a.keys.length) = s :: ss) (hk : s.isMatch k) :
    k ∉ Entries.keys es := by
  obtain ⟨fs, hv, hbarren⟩ := ha
  obtain rfl : es = fs := by simpa [hes] using hv.node
  intro hmem
  have hmatch : (path.skip a.keys.length).isMatch k := KeyPath.isMatch_iff.2 ⟨s, ss, hs, hk⟩
  rw [hbarren k hmem] at hmatch
  cases hmatch

/-- Where no branch is created, only values are replaced. -/
theorem grown_of_no_branch (hd : doc.Distinct) (hp : path.hasNext)
    (hs : (doc.walk true path).stop = none)
    (h : ∀ m ∈ deepest (noted data path doc).barren, branch? data m.path = none) :
    let out := visitor.run true path doc { data }
    doc.Grown (doc.Ends path) data (fun _ _ => False) out.doc ∧ out.state.created = 0 := by
  obtain ⟨hout, hcreated⟩ := run_noted data hp hs
  dsimp only
  rw [hout, hcreated, createAll_of_none h]
  refine ⟨?_, rfl⟩
  have hends := fun t => mem_ends_iff (t := t) hd hp hs
  have hgrown : doc.Grown (· ∈ (doc.walk true path).ends) data (fun a f => a ∈ [] ∧ f = ("", data))
      (doc.modifyAll (Value.changes data (doc.walk true path).ends ("", data) [])) := by
    refine Value.grown_modifyAll (fun t ht => ((hends t).1 ht).exists_get?) (by simp) ?_
    rw [Value.changes, List.map_nil, List.append_nil, List.pairwise_map]
    exact Walk.pairwise_apart_ends hd
  rw [Value.changes, List.map_nil, List.append_nil] at hgrown
  exact hgrown.congr hends (by simp)

/-- Where a branch is created, it is the same at all places. -/
theorem grown_of_branch (hd : doc.Distinct) (hp : path.hasNext)
    (hs : (doc.walk true path).stop = none)
    (hlit : ∀ s ∈ path.segments, ∀ k, s.literal? = some k → s.isMatch k) {d : Nat}
    (h : IsGreatest {c | ∃ a, doc.Barren path a ∧ path.cursor + a.keys.length = c} d)
    {s : Segment} {ss : List Segment} {k : String} {ks : List String}
    (hseg : path.segments.drop d = s :: ss) (hk : s.literal? = some k)
    (hkeys : keys? (path.segments.drop d) = some (k :: ks)) :
    let out := visitor.run true path doc { data }
    doc.Grown (doc.Ends path) data
      (fun a e => (doc.Barren path a ∧ path.cursor + a.keys.length = d) ∧ e = (k, nest data ks))
      out.doc ∧
    ∃ sites : List Address, sites.Nodup ∧
      (∀ a, a ∈ sites ↔ doc.Barren path a ∧ path.cursor + a.keys.length = d) ∧
      out.state.created = sites.length := by
  have hends := fun t => mem_ends_iff (t := t) hd hp hs
  have hsites := fun a => mem_sites (a := a) data hd hp hs h
  have hapart := pairwise_apart_changes (e := (k, nest data ks)) data hd hp hs h
  have hbranch : ∀ m ∈ deepest (noted data path doc).barren,
      branch? data m.path = some (k, nest data ks) := by
    intro m hm
    rw [branch?, remaining_of_mem_deepest data hd hp hs h hm, hkeys]
  have hmatch : s.isMatch k :=
    hlit s (List.mem_of_mem_drop (hseg ▸ List.mem_cons_self)) k hk
  have hmapping : ∀ a ∈ (deepest (noted data path doc).barren).map (·.parent),
      ∃ es, doc.get? a = some (.mapping es) ∧ k ∉ Entries.keys es := by
    intro a ha
    obtain ⟨hb, rfl⟩ := (hsites a).1 ha
    obtain ⟨es, hv, -⟩ := id hb
    exact ⟨es, hv.node, notMem_of_barren hb hv.node hseg hmatch⟩
  have hget : ∀ a ∈ (deepest (noted data path doc).barren).map (·.parent),
      (doc.modifyAll ((doc.walk true path).ends.map fun t => (t.address, fun _ => data))).get? a =
        doc.get? a := by
    intro a ha
    refine Value.get?_modifyAll_of_apart fun c hc => ?_
    rw [Value.changes, List.pairwise_append] at hapart
    exact hapart.2.2 c hc _ (List.mem_map_of_mem ha)
  have hparents : ((deepest (noted data path doc).barren).map (·.parent)).Pairwise Address.Apart := by
    have hgrow := (List.pairwise_append.1 hapart).2.1
    rwa [List.pairwise_map] at hgrow
  have hmade := createAll_of_some (n := 0) hbranch
    (fun m hm => (hget m.parent (List.mem_map_of_mem hm)).symm ▸
      hmapping m.parent (List.mem_map_of_mem hm))
    hparents
  obtain ⟨hout, hcreated⟩ := run_noted data hp hs
  dsimp only
  rw [hout, hcreated, hmade, ← Value.modifyAll_append, ← Value.changes]
  constructor
  · have hgrown := Value.grown_modifyAll (fun t ht => ((hends t).1 ht).exists_get?)
      (fun a ha => (hmapping a ha).imp fun _ hes => hes.1) hapart
    exact hgrown.congr hends fun a e => and_congr_left fun _ => hsites a
  · exact ⟨_, nodup_sites data hd hp hs, hsites, by rw [Nat.zero_add, List.length_map]⟩

/-- **Branches grow at the deepest misses.**  After a successful strict run of a new insert, the
entries that the path leads to have the new value.  If all segments from the largest cursor of a
barren mapping on are plain keys, each barren mapping at this cursor, and no other mapping, has one
more entry behind its others: the first of the keys, and below it the other keys, one mapping each,
down to the value; the number of these mappings is what has been created.  Otherwise, or if there is
no barren mapping, nothing is created and no mapping has any more keys. -/
theorem grown_of_run {data doc : Value} {path : KeyPath} (hd : doc.Distinct)
    (hlit : ∀ s ∈ path.segments, ∀ k, s.literal? = some k → s.isMatch k)
    (h : (visitor.run true path doc { data }).result.isOk) :
    let out := visitor.run true path doc { data }
    (∃ d, IsGreatest {c | ∃ a, doc.Barren path a ∧ path.cursor + a.keys.length = c} d ∧
      ((∃ k ks, keys? (path.segments.drop d) = some (k :: ks) ∧
          doc.Grown (doc.Ends path) data
            (fun a e => (doc.Barren path a ∧ path.cursor + a.keys.length = d) ∧
              e = (k, nest data ks)) out.doc ∧
          ∃ sites : List Address, sites.Nodup ∧
            (∀ a, a ∈ sites ↔ doc.Barren path a ∧ path.cursor + a.keys.length = d) ∧
            out.state.created = sites.length) ∨
        (keys? (path.segments.drop d) = none ∧
          doc.Grown (doc.Ends path) data (fun _ _ => False) out.doc ∧ out.state.created = 0))) ∨
    (∀ a, ¬ doc.Barren path a) ∧
      doc.Grown (doc.Ends path) data (fun _ _ => False) out.doc ∧ out.state.created = 0 := by
  intro out
  cases hp : path.hasNext with
  | false =>
    -- without a segment left nothing is visited
    have hout : out = ⟨{ data }, doc, .ok false⟩ := Visitor.run_of_not_hasNext hp
    have hbarren : ∀ a, ¬ doc.Barren path a := by
      rintro a ⟨es, hv, -⟩
      simp [hv.hasNext] at hp
    have hends : ∀ t, ¬ doc.Ends path t := fun t ht => by simp [ht.hasNext] at hp
    rw [hout]
    exact .inr ⟨hbarren, ⟨fun t ht => absurd ht (hends t), fun _ _ h => h.elim,
      fun _ v hv _ _ => ⟨v, hv, rfl⟩⟩, rfl⟩
  | true =>
    have hs := (Visitor.isOk_run_iff accepts_visitor hp).1 h
    by_cases hb : ∃ a, doc.Barren path a
    · left
      obtain ⟨d, hgreat⟩ := exists_isGreatest_cursor hd hp hs hb
      refine ⟨d, hgreat, ?_⟩
      cases hkeys : keys? (path.segments.drop d) with
      | none =>
        refine .inr ⟨rfl, grown_of_no_branch hd hp hs fun m hm => ?_⟩
        rw [branch?, remaining_of_mem_deepest data hd hp hs hgreat hm, hkeys]
      | some ks =>
        left
        have hseg : path.segments.drop d ≠ [] := by
          obtain ⟨b, ⟨es, hv, -⟩, hcursor⟩ := hgreat.1
          have hmore := hv.more
          rw [KeyPath.remaining, List.length_drop] at hmore
          rw [← hcursor, Ne, List.drop_eq_nil_iff]
          omega
        obtain ⟨s, ss, k, ls, hseg, rfl, hk⟩ := ne_nil_of_keys? hkeys hseg
        exact ⟨k, ls, rfl, grown_of_branch hd hp hs hlit hgreat hseg hk hkeys⟩
    · have hb : ∀ a, ¬ doc.Barren path a := fun a ha => hb ⟨a, ha⟩
      refine .inr ⟨hb, grown_of_no_branch hd hp hs fun m hm => ?_⟩
      obtain ⟨hm, -⟩ := (mem_barren hd hp hs).1 (mem_of_mem_deepest hm)
      exact absurd hm (hb m.parent)

/-- Two mappings without the second key of the path, and one with all its keys. -/
theorem grown_of_run_twice :
    let doc := Value.mapping [("a", .mapping []), ("b", .mapping [("c", .null)]),
      ("d", .mapping [("x", .mapping [("y", .null), ("z", .null)])])]
    let branch := ("x", Value.mapping [("y", .string "new")])
    ∃ path, KeyPath.parse "*.x.y" "." = .ok path ∧
      ∃ d, IsGreatest {c | ∃ a, doc.Barren path a ∧ path.cursor + a.keys.length = c} d ∧
        ∃ k ks, keys? (path.segments.drop d) = some (k :: ks) ∧
          doc.Grown (doc.Ends path) (.string "new")
            (fun a e => (doc.Barren path a ∧ path.cursor + a.keys.length = d) ∧
              e = (k, nest (.string "new") ks))
            (.mapping [("a", .mapping [branch]), ("b", .mapping [("c", .null), branch]),
              ("d", .mapping [("x", .mapping [("y", .string "new"), ("z", .null)])])]) ∧
          ∃ sites : List Address, sites.Nodup ∧
            (∀ a, a ∈ sites ↔ doc.Barren path a ∧ path.cursor + a.keys.length = d) ∧
            sites.length = 2 := by
  intro doc branch
  obtain ⟨path, hpath, hlit, hok, hcreated, hout⟩ := KeyPath.exists_parse "*.x.y" "."
    (fun p => (∀ s ∈ p.segments, ∀ k ∈ s.literal?, s.isMatch k) ∧
      (visitor.run true p doc { data := .string "new" }).result.isOk ∧
      (visitor.run true p doc { data := .string "new" }).state.created = 2 ∧
      (visitor.run true p doc { data := .string "new" }).doc =
        .mapping [("a", .mapping [branch]), ("b", .mapping [("c", .null), branch]),
          ("d", .mapping [("x", .mapping [("y", .string "new"), ("z", .null)])])])
    (by decide +kernel)
  have hd : doc.Distinct := by decide
  refine ⟨path, hpath, ?_⟩
  rcases grown_of_run hd hlit hok with ⟨d, hgreat, ⟨k, ks, hkeys, hgrown, sites, hnodup, hsites, hlen⟩ |
    ⟨-, -, hzero⟩⟩ | ⟨-, -, hzero⟩
  · rw [hout] at hgrown
    exact ⟨d, hgreat, k, ks, hkeys, hgrown, sites, hnodup, hsites, hlen.symm.trans hcreated⟩
  · simp [hcreated] at hzero
  · simp [hcreated] at hzero

end Insert

end YamlQuery

import YamlQuery.Proofs.Edit.Revisit

/-!
# Proofs.Edit.Overwriting — what replacing along a path leaves

`Value.Overwritten` says node by node what becomes of a document when some entries get a new value;
there is one such document only (`Value.Overwritten.unique`).  Replacing along a path does this with
the entries that the path leads to.  Where nothing goes on below the new value, the path leads to the
same entries afterwards, and replacing them again changes nothing (`Replace.overwritten_of_run`).
-/

namespace YamlQuery

namespace Value

/-- A document in which some entries have a new value: what lies at or below none of them has the
keys, the length or the scalar that it had, and what lies above none of them either is the same. -/
structure Overwritten (doc : Value) (ends : Target → Prop) (data out : Value) : Prop where
  ended : ∀ t, ends t → out.get? t.address = some data
  kept : ∀ a, (∀ t, ends t → ¬ t.address <+: a) →
    (out.get? a).map outline = (doc.get? a).map outline
  same : ∀ a, (∀ t, ends t → t.address.Apart a) → out.get? a = doc.get? a

variable {doc data out : Value} {path : KeyPath} {strict : Bool}

/-- There are no two documents in which some entries have the new value. -/
theorem Overwritten.unique {ends : Target → Prop} {out' : Value}
    (h : doc.Overwritten ends data out) (h' : doc.Overwritten ends data out') (hd : out.Distinct) :
    out' = out := by
  refine eq_of_outline hd fun a => ?_
  by_cases hend : ∃ t, ends t ∧ t.address <+: a
  · obtain ⟨t, ht, b, rfl⟩ := hend
    rw [get?_append, get?_append, h.ended t ht, h'.ended t ht]
  · have hkept : ∀ t, ends t → ¬ t.address <+: a := fun t ht hta => hend ⟨t, ht, hta⟩
    rw [h.kept a hkept, h'.kept a hkept]

/-- A path without a segment left overwrites nothing. -/
theorem overwritten_of_not_hasNext (hp : path.hasNext = false) (doc data : Value) :
    doc.Overwritten (doc.Ends path) data doc :=
  ⟨fun t ht => by simp [ht.hasNext] at hp, fun _ _ => rfl, fun _ _ => rfl⟩

namespace Edits

variable (hd : doc.Distinct) (hp : path.hasNext) (hs : (doc.walk strict path).stop = none)

/-- New values alone. -/
def ofWalk : doc.Edits path where
  ends := (doc.walk strict path).ends
  sites := []
  key := ""
  keys := []
  mem_ends _ := mem_ends_iff hd hp hs
  apart := Walk.pairwise_apart_ends hd
  barren _ ha := absurd ha List.not_mem_nil
  nodup := List.nodup_nil
  along _ ha := absurd ha List.not_mem_nil
  whole _ ha := absurd ha List.not_mem_nil

theorem edited_ofWalk : (ofWalk hd hp hs).edited = (doc.walk strict path).ends :=
  List.append_nil _

theorem apply_ofWalk (data : Value) : (ofWalk hd hp hs).apply data =
    doc.modifyAll ((doc.walk strict path).ends.map fun t => (t.address, fun _ => data)) :=
  congrArg doc.modifyAll (List.append_nil _)

theorem overwritten_apply (data : Value) :
    doc.Overwritten (doc.Ends path) data ((ofWalk hd hp hs).apply data) := by
  have hchange : ∀ c ∈ (doc.walk strict path).ends.map fun t => (t.address, fun _ : Value => data),
      ∃ t, doc.Ends path t ∧ t.address = c.1 := by
    intro c hc
    obtain ⟨t, ht, rfl⟩ := List.mem_map.1 hc
    exact ⟨t, (mem_ends_iff hd hp hs).1 ht, rfl⟩
  constructor
  · intro t ht
    refine (ofWalk hd hp hs).get?_apply_edited ?_
    rwa [edited_ofWalk, mem_ends_iff hd hp hs]
  · intro a ha
    rw [apply_ofWalk]
    refine outline_get?_modifyAll fun c hc => ?_
    obtain ⟨t, ht, htc⟩ := hchange c hc
    exact htc ▸ ha t ht
  · intro a ha
    rw [apply_ofWalk]
    refine get?_modifyAll_of_apart fun c hc => ?_
    obtain ⟨t, ht, htc⟩ := hchange c hc
    exact htc ▸ ha t ht

end Edits

end Value

namespace Replace

variable {doc data : Value} {path : KeyPath} {strict : Bool}

/-- A run with nothing left over from before. -/
theorem run_of_stop_eq_none (data : Value) (hd : doc.Distinct) (hp : path.hasNext)
    (hs : (doc.walk strict path).stop = none) (n : Nat) :
    visitor.run strict path doc { data, replaced := n } =
      ⟨{ data, replaced := n + (doc.walk strict path).ends.length },
        doc.modifyAll ((doc.walk strict path).ends.map fun t => (t.address, fun _ => data)),
        .ok (doc.walk strict path).matched⟩ := by
  have hends : ∀ t ∈ (doc.walk strict path).ends, (doc.get? t.address).isSome :=
    fun t => isSome_get?_of_mem_ends hd
  have hall := Target.applyAll_replace? data (n := n) (Walk.pairwise_apart_ends hd) hends
  refine Visitor.run_of_finish accepts_visitor hp hs ?_
  rw [noteAll_visitor, List.nil_append, ← Walk.ends]
  dsimp only [visitor]
  rw [hall]

/-- Replacing again what has been replaced changes nothing. -/
theorem run_apply (E : doc.Edits path)
    (hlast : data.isScalar ∨ ∀ t, doc.Ends path t → t.keys.length = path.remaining.length)
    (hd : doc.Distinct) (hdata : data.Distinct) (hp : path.hasNext)
    (hs : (doc.walk strict path).stop = none) (n : Nat) :
    visitor.run strict path (E.apply data) { data, replaced := n } =
      ⟨{ data, replaced := n + E.edited.length }, E.apply data,
        .ok (decide (0 < E.edited.length))⟩ := by
  have hdistinct := E.distinct_apply hd hdata
  have hstop := E.stop_apply hlast hd hdata hp hs
  have hsame : (E.apply data).modifyAll
      (((E.apply data).walk strict path).ends.map fun t => (t.address, fun _ => data)) =
        E.apply data := by
    refine Value.modifyAll_of_eq fun c hc u hu => ?_
    obtain ⟨t, ht, rfl⟩ := List.mem_map.1 hc
    have hends := (mem_ends_iff hdistinct hp hstop).1 ht
    rw [E.get?_apply_edited ((E.ends_apply_iff hlast).1 hends)] at hu
    exact Option.some.inj hu
  rw [run_of_stop_eq_none data hdistinct hp hstop, hsame, Walk.matched_walk,
    E.length_ends_apply hlast hd hdata hp hs]

/-- **Replacing along a path.**  After a successful run, exactly the entries that the path leads to
have the new value, and as many have been replaced as are read along the path in the document before.
If the new value is a scalar, or the path is used up at each of these entries, then reading along the
path gives the new value as many times, and replacing along it again changes nothing. -/
theorem overwritten_of_run {strict : Bool} {path : KeyPath} {doc data : Value} (hd : doc.Distinct)
    (hdata : data.Distinct) (h : (visitor.run strict path doc { data }).result.isOk) :
    let out := visitor.run strict path doc { data }
    let read := Read.visitor.run strict path doc {}
    doc.Overwritten (doc.Ends path) data out.doc ∧
    (read.result = out.result ∧ out.state.replaced = read.state.values.length) ∧
    ((data.isScalar ∨ ∀ t, doc.Ends path t → t.keys.length = path.remaining.length) →
      Read.visitor.run strict path out.doc {} =
        ⟨{ values := List.replicate out.state.replaced data }, out.doc, out.result⟩ ∧
      ∀ n, visitor.run strict path out.doc { data, replaced := n } =
        ⟨{ data, replaced := n + out.state.replaced }, out.doc, out.result⟩) := by
  intro out read
  cases hp : path.hasNext with
  | false =>
    have hout : out = ⟨{ data }, doc, .ok false⟩ := Visitor.run_of_not_hasNext hp
    have hread : read = ⟨{}, doc, .ok false⟩ := Visitor.run_of_not_hasNext hp
    rw [hout, hread]
    exact ⟨Value.overwritten_of_not_hasNext hp doc data, ⟨rfl, rfl⟩, fun _ =>
      ⟨Visitor.run_of_not_hasNext hp, fun n => Visitor.run_of_not_hasNext hp⟩⟩
  | true =>
    have hs := (Visitor.isOk_run_iff accepts_visitor hp).1 h
    have hout : out = _ := run_of_stop_eq_none data hd hp hs 0
    have hread : read = _ := Visitor.run_of_finish Read.accepts_visitor hp hs rfl
    let E : doc.Edits path := .ofWalk hd hp hs
    have hdoc : out.doc = E.apply data := by rw [hout, Value.Edits.apply_ofWalk]
    have hreplaced : out.state.replaced = E.edited.length := by
      rw [hout, Value.Edits.edited_ofWalk, Nat.zero_add]
    have hresult : out.result = .ok (decide (0 < E.edited.length)) := by
      rw [hout, Value.Edits.edited_ofWalk, Walk.matched_walk]
    rw [hdoc, hreplaced]
    refine ⟨Value.Edits.overwritten_apply hd hp hs data, ⟨?_, ?_⟩, fun hlast => ⟨?_, fun n => ?_⟩⟩
    · rw [hread, hout]
    · rw [Value.Edits.edited_ofWalk, Read.values_run hs hp, Walk.length_values]
    · rw [hresult]
      exact E.run_read hlast hd hdata hp hs
    · rw [hresult]
      exact run_apply E hlast hd hdata hp hs n

/-- Below two elements of a sequence and at scalars before the path is used up. -/
theorem overwritten_of_run_nested :
    let doc := Value.mapping [
      ("a", .mapping [("x", .null), ("y", .sequence [.null])]),
      ("b", .sequence [.mapping [("z", .null), ("x", .mapping [("x", .null)])], .mapping []]),
      ("c", .boolean true), ("d", .mapping [("x", .sequence [.null])])]
    let data := Value.string "new"
    let out := Value.mapping [
      ("a", .mapping [("x", data), ("y", .sequence [.null])]),
      ("b", .sequence [.mapping [("z", .null), ("x", data)], .mapping []]),
      ("c", data), ("d", .mapping [("x", data)])]
    ∃ path, KeyPath.parse "*.x" "." = .ok path ∧ doc.Distinct ∧ data.Distinct ∧ data.isScalar ∧
      (visitor.run true path doc { data }).result = .ok true ∧
      doc.Overwritten (doc.Ends path) data out ∧
      (Read.visitor.run true path doc {}).state.values.length = 4 ∧
      Read.visitor.run true path out {} =
        ⟨{ values := [data, data, data, data] }, out, .ok true⟩ ∧
      ∀ n, visitor.run true path out { data, replaced := n } =
        ⟨{ data, replaced := n + 4 }, out, .ok true⟩ := by
  intro doc data out
  obtain ⟨path, hpath, hresult, hreplaced, hout⟩ := KeyPath.exists_parse "*.x" "."
    (fun p => (visitor.run true p doc { data }).result = .ok true ∧
      (visitor.run true p doc { data }).state.replaced = 4 ∧
      (visitor.run true p doc { data }).doc = out) (by decide +kernel)
  have hd : doc.Distinct := by decide
  have hdata : data.Distinct := by decide
  have hok : (visitor.run true path doc { data }).result.isOk := by rw [hresult]; rfl
  obtain ⟨hover, ⟨-, hlen⟩, hagain⟩ := overwritten_of_run hd hdata hok
  rw [hresult, hreplaced, hout] at hagain
  rw [hreplaced] at hlen
  rw [hout] at hover
  exact ⟨path, hpath, hd, hdata, rfl, hresult, hover, hlen.symm, hagain (.inl rfl)⟩

end Replace

end YamlQuery

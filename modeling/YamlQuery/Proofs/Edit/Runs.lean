import YamlQuery.Edit.Collect
import YamlQuery.Proofs.Pattern.Plain
import YamlQuery.Proofs.Walk.Matches

/-!
# Proofs.Edit.Runs — runs of visitors that refuse nothing

The visitors that change documents, and those that read values and list paths, take every event and
can always finish: only an obstacle ends their runs early.  What such a visitor has seen is
`Visitor.noteAll`, a fold over the events of the walk.

`Visitor.record` keeps the entries of the keys that match fully, which are those that the path leads
to (`Visitor.ends_of_run`).
-/

namespace YamlQuery

namespace Visitor

variable {σ : Type} {v : Visitor σ} {strict : Bool} {path : KeyPath} {doc : Value} {s : σ}

/-- The visitor refuses no event and never fails to finish. -/
structure Accepts (v : Visitor σ) : Prop where
  visit : ∀ e s, (v.visit e s).2 = none
  finish : ∀ doc s, ∃ out, (v.finish doc s).2 = .ok out

/-- The state after events of which none is refused. -/
def noteAll (v : Visitor σ) (es : List Event) (s : σ) : σ :=
  es.foldl (fun s e => (v.visit e s).1) s

theorem visitAll_eq (hv : v.Accepts) :
    ∀ (es : List Event) (s : σ), v.visitAll es s = (v.noteAll es s, none)
  | [], _ => rfl
  | e :: es, s => by
    have h : v.visit e s = ((v.visit e s).1, none) := Prod.ext rfl (hv.visit e s)
    rw [visitAll, h]
    exact visitAll_eq hv es _

/-- What a visitor has noted down after some events, if it is known for none and for one more. -/
theorem noteAll_eq {f : List Event → σ → σ} (nil : ∀ s, f [] s = s)
    (cons : ∀ e es s, f es (v.visit e s).1 = f (e :: es) s) :
    ∀ (es : List Event) (s : σ), v.noteAll es s = f es s
  | [], s => (nil s).symm
  | e :: es, s => (noteAll_eq nil cons es _).trans (cons e es s)

theorem accepts_ofSites {visit : Site → σ → σ × Option EditError}
    (h : ∀ site s, (visit site s).2 = none) : (ofSites visit).Accepts := by
  refine ⟨fun e s => ?_, fun doc s => ⟨doc, rfl⟩⟩
  cases e with
  | fully site => exact h site s
  | partly | miss => rfl

/-! ### The three ways in which a run ends -/

theorem run_of_not_hasNext (h : path.hasNext = false) :
    v.run strict path doc s = ⟨s, doc, .ok false⟩ := by
  simp [run, h]

theorem run_of_stop {o : Obstacle} (hv : v.Accepts) (hp : path.hasNext)
    (h : (doc.walk strict path).stop = some o) :
    v.run strict path doc s =
      ⟨v.noteAll (doc.walk strict path).events s, doc, .error (.ofObstacle o)⟩ := by
  simp [run, hp, visitAll_eq hv, h]

theorem run_of_finish {s' : σ} {out : Value} (hv : v.Accepts) (hp : path.hasNext)
    (h : (doc.walk strict path).stop = none)
    (hf : v.finish doc (v.noteAll (doc.walk strict path).events s) = (s', .ok out)) :
    v.run strict path doc s = ⟨s', out, .ok (doc.walk strict path).matched⟩ := by
  simp [run, hp, visitAll_eq hv, h, hf]

/-- A run that ends well has walked through the whole document. -/
theorem stop_of_run_eq_ok {b : Bool} (h : (v.run strict path doc s).result = .ok b)
    (hp : path.hasNext) :
    (doc.walk strict path).stop = none ∧ b = (doc.walk strict path).matched := by
  rw [run, hp, Bool.not_true, if_neg (by simp)] at h
  dsimp only at h
  split at h
  · cases h
  · split at h
    · cases h
    · next hs =>
      split at h
      · exact ⟨hs, (Except.ok.inj h).symm⟩
      · cases h

/-- A visitor that accepts everything ends well exactly where nothing is in the way. -/
theorem isOk_run_iff (hv : v.Accepts) (hp : path.hasNext) :
    (v.run strict path doc s).result.isOk ↔ (doc.walk strict path).stop = none := by
  cases h : (doc.walk strict path).stop with
  | some o => simp [run_of_stop hv hp h, Except.isOk, Except.toBool]
  | none =>
    obtain ⟨out, hout⟩ := hv.finish doc (v.noteAll (doc.walk strict path).events s)
    rw [run_of_finish hv hp h (Prod.ext rfl hout)]
    simp [Except.isOk, Except.toBool]

/-! ### Recording the keys that match fully -/

/-- Records the entries of the keys that match fully. -/
def record : Visitor (List Target) := .ofSites fun site ts => (ts ++ [.ofSite site], none)

theorem accepts_record : record.Accepts := accepts_ofSites fun _ _ => rfl

theorem noteAll_record (es : List Event) (ts : List Target) :
    record.noteAll es ts = ts ++ es.filterMap Event.end? := by
  refine noteAll_eq (f := fun es ts => ts ++ es.filterMap Event.end?) (by simp) ?_ es ts
  intro e es ts
  cases e <;> simp [record, ofSites, List.filterMap_cons, Event.end?]

theorem state_run_record (h : (doc.walk strict path).stop = none) (hp : path.hasNext) :
    (record.run strict path doc []).state = (doc.walk strict path).ends := by
  rw [run_of_finish accepts_record hp h rfl, noteAll_record]
  rfl

/-- **The keys that match.**  Along a path with a segment left, a run that ends well has met as full
matches exactly the entries that the path leads to, each once and in the order of the document, none
of them below another; and it says that something matched exactly if there is such an entry. -/
theorem ends_of_run (v : Visitor σ) {strict : Bool} {path : KeyPath} {doc : Value} {s : σ} {b : Bool}
    (hd : doc.Distinct) (hp : path.hasNext) (h : (v.run strict path doc s).result = .ok b) :
    let ts := (record.run strict path doc []).state
    (∀ t, t ∈ ts ↔ doc.Ends path t) ∧ ts.Nodup ∧
      ts.Pairwise (fun t u => Precedes doc t.address u.address) ∧
      (∀ t ∈ ts, ∀ u ∈ ts, t ≠ u → ¬ t.address <+: u.address) ∧
      (b = true ↔ ∃ t, doc.Ends path t) := by
  obtain ⟨hs, rfl⟩ := stop_of_run_eq_ok h hp
  rw [state_run_record hs hp]
  intro ts
  have hmem : ∀ t, t ∈ ts ↔ doc.Ends path t := fun t => mem_ends_iff hd hp hs
  have hord : ts.Pairwise fun t u => Precedes doc t.address u.address := by
    refine (Walk.pairwise_ends hd).imp ?_
    rintro t u ⟨a, b, ht, hu, hab⟩
    rw [ht, hu]
    exact hab
  have hapart : ts.Pairwise fun t u => t.address.Apart u.address := Walk.pairwise_apart_ends hd
  refine ⟨hmem, hapart.imp ?_, hord, ?_, ?_⟩
  · rintro t u hab rfl
    exact hab.1 List.prefix_rfl
  · intro t ht u hu hne
    have : Std.Symm fun t u : Target => t.address.Apart u.address := ⟨fun _ _ h => h.symm⟩
    exact (hapart.forall ht hu hne).1
  · have hm : (doc.walk strict path).matched = true ↔ ts ≠ [] := Walk.matched_iff
    rw [hm, Ne, List.eq_nil_iff_forall_not_mem, not_forall_not]
    exact exists_congr hmem

/-- Below two elements of a sequence, past a sequence in a mapping, and at a scalar before the path
is used up. -/
theorem ends_of_run_nested :
    let doc := Value.sequence [
      .mapping [("a", .mapping [("x", .null), ("y", .sequence [.null])]), ("b", .boolean true)],
      .mapping [("a", .sequence [.mapping [("x", .mapping [])], .mapping []]), ("c", .mapping [])]]
    ∃ path, KeyPath.parse "*.x" "." = .ok path ∧ doc.Distinct ∧ path.hasNext ∧
      (record.run true path doc []).result = .ok true ∧
      ∀ t, t ∈ [⟨[.index 0, .key "a"], "x"⟩, ⟨[.index 0], "b"⟩,
        ⟨[.index 1, .key "a", .index 0], "x"⟩] ↔ doc.Ends path t := by
  intro doc
  obtain ⟨path, hpath, hp, hr, hs⟩ := KeyPath.exists_parse "*.x" "."
    (fun p => p.hasNext ∧ (record.run true p doc []).result = .ok true ∧
      (record.run true p doc []).state = [⟨[.index 0, .key "a"], "x"⟩, ⟨[.index 0], "b"⟩,
        ⟨[.index 1, .key "a", .index 0], "x"⟩]) (by decide +kernel)
  have hd : doc.Distinct := by decide
  refine ⟨path, hpath, hd, hp, hr, ?_⟩
  rw [← hs]
  exact (ends_of_run record hd hp hr).1

end Visitor

end YamlQuery

import YamlQuery.Proofs.Edit.Runs

/-!
# Proofs.Edit.Reading — reading along a path in two parts

A path may be cut at any segment.  What is read along the whole of it is what is read along its
first part, and then along its second part in each value that is no scalar (`Read.run_append`).

Both walks go through the document in step as long as the first part lasts: `Composes` says how they
are related there, and `Walk.composes_join` carries this over to their joins.  Where the first part
ends, the second one takes over; `Continues` is what has to be known about it.
-/

namespace YamlQuery

namespace Walk

/-- The value of a key that matches fully. -/
def value? : Event → Option Value
  | .fully site => some site.value
  | _ => none

/-- The values of the keys that match fully, in the order in which the walk meets them. -/
def values (w : Walk) : List Value := w.events.filterMap value?

theorem values_andThen {a b : Walk} (h : a.stop = none) :
    (a.andThen b).values = a.values ++ b.values := by
  rw [values, events_andThen h, List.filterMap_append]
  rfl

/-! ### Walks in step -/

variable {strict : Bool} {C : Value → Prop} {g : Value → List Value}

/-- The walk `w` does what `v` does, and then goes on below each of the values of `v`: there it does
not stop if `C` holds, and it ends at the values that `g` gives. -/
structure Composes (C : Value → Prop) (g : Value → List Value) (w v : Walk) : Prop where
  stop : w.stop = none ↔ v.stop = none ∧ ∀ x ∈ v.values, C x
  values : w.stop = none → w.values = v.values.flatMap g

/-- Walks that end nowhere are in step if they stop together. -/
theorem composes_of_values_nil {w v : Walk} (hw : w.values = []) (hv : v.values = [])
    (hs : w.stop = none ↔ v.stop = none) : Composes C g w v :=
  ⟨by simp [hs, hv], fun _ => by simp [hw, hv]⟩

theorem composes_partly (s t : Site) : Composes C g (single (.partly s)) (single (.partly t)) :=
  composes_of_values_nil rfl rfl Iff.rfl

theorem Composes.andThen {a b c d : Walk} (hab : Composes C g a b) (hcd : Composes C g c d) :
    Composes C g (a.andThen c) (b.andThen d) := by
  have hvalues (hb : b.stop = none) : (∀ x ∈ (b.andThen d).values, C x) ↔
      (∀ x ∈ b.values, C x) ∧ ∀ x ∈ d.values, C x := by
    rw [values_andThen hb, List.forall_mem_append]
  constructor
  · rw [stop_andThen, stop_andThen, hab.stop, hcd.stop]
    constructor
    · rintro ⟨⟨hb, hbC⟩, hd, hdC⟩
      exact ⟨⟨hb, hd⟩, (hvalues hb).2 ⟨hbC, hdC⟩⟩
    · rintro ⟨⟨hb, hd⟩, hC⟩
      exact ⟨⟨hb, ((hvalues hb).1 hC).1⟩, hd, ((hvalues hb).1 hC).2⟩
  · intro h
    obtain ⟨ha, hc⟩ := stop_andThen.1 h
    rw [values_andThen ha, values_andThen (hab.stop.1 ha).1, hab.values ha, hcd.values hc,
      List.flatMap_append]

theorem composes_join {α : Type} {f h : α → Walk} :
    ∀ {xs : List α}, (∀ x ∈ xs, Composes C g (f x) (h x)) →
      Composes C g (join (xs.map f)) (join (xs.map h))
  | [], _ => composes_of_values_nil rfl rfl Iff.rfl
  | x :: _, hxs =>
    (hxs x List.mem_cons_self).andThen (composes_join fun y hy => hxs y (List.mem_cons_of_mem _ hy))

/-! ### A path in two parts -/

/-- What is known about the walks along some segments: below a container they do not stop if `C`
holds of it, and then end at the values that `g` gives; a value below which they have nothing to
search stands for itself. -/
structure Continues (strict : Bool) (rest : List Segment) (C : Value → Prop)
    (g : Value → List Value) : Prop where
  ends : ∀ {v : Value}, ¬ (v.isContainer ∧ rest ≠ []) → C v ∧ g v = [v]
  leads : ∀ {v : Value} {path : KeyPath} (parent : Address) (trail : List String),
    v.isContainer → path.remaining = rest → rest ≠ [] →
      ((below strict path parent trail v).stop = none ↔ C v) ∧
        ((below strict path parent trail v).stop = none →
          (below strict path parent trail v).values = g v)

theorem continues_nil : Continues strict [] (fun _ => True) ([·]) :=
  ⟨fun _ => ⟨trivial, rfl⟩, fun _ _ _ _ h => absurd rfl h⟩

variable {rest : List Segment} {whole first : KeyPath}

/-- An entry where the first part of the path ends. -/
theorem composes_single (site : Site) {w : Walk} (hs : w.stop = none ↔ C site.value)
    (hv : w.stop = none → w.values = g site.value) :
    Composes C g w { events := [.fully site], matched := true } := by
  constructor
  · rw [hs]
    simp [Walk.values, value?]
  · intro h
    rw [hv h]
    simp [Walk.values, value?]

theorem composes_entry (hc : Continues strict rest C g)
    (h : whole.remaining = first.remaining ++ rest) (hf : first.hasNext) {k : String} {v : Value}
    (ih : ∀ (parent parent' : Address) (trail trail' : List String), first.advanced.hasNext →
      Composes C g (below strict whole.advanced parent trail v)
        (below strict first.advanced parent' trail' v))
    (parent parent' : Address) (trail trail' : List String) :
    Composes C g (entry strict whole parent trail (k, v))
      (entry strict first parent' trail' (k, v)) := by
  obtain ⟨s, ss, hs⟩ := List.exists_cons_of_ne_nil (KeyPath.hasNext_iff.1 hf)
  rw [hs, List.cons_append] at h
  have hwhole : whole.advanced.remaining = ss ++ rest := by
    rw [KeyPath.remaining_advanced, h, List.tail_cons]
  have hfirst : first.advanced.remaining = ss := by
    rw [KeyPath.remaining_advanced, hs, List.tail_cons]
  have hmatch : whole.isMatch k = first.isMatch k := by
    rw [Bool.eq_iff_iff, KeyPath.isMatch_iff, KeyPath.isMatch_iff, h, hs]
    simp
  cases hk : first.isMatch k with
  | false =>
    rw [entry_differs strict _ _ hk, entry_differs strict _ _ (hmatch.trans hk)]
    exact composes_of_values_nil rfl rfl Iff.rfl
  | true =>
    have hw := hmatch.trans hk
    by_cases hn : v.isContainer ∧ first.advanced.hasNext
    · -- both walks go on
      have hss : ss ≠ [] := hfirst ▸ KeyPath.hasNext_iff.1 hn.2
      have hnext : whole.advanced.hasNext := by
        rw [KeyPath.hasNext_iff, hwhole]
        simp [hss]
      rw [entry_leads strict _ _ hk hn.1 hn.2, entry_leads strict _ _ hw hn.1 hnext]
      exact (composes_partly _ _).andThen (ih _ _ _ _ hn.2)
    · rw [entry_ends strict _ _ hk hn]
      by_cases hr : v.isContainer ∧ whole.advanced.hasNext
      · -- the first part is used up, and the second one starts
        have hss : ss = [] := by
          rw [← hfirst]
          simpa [hr.1, KeyPath.hasNext_iff] using hn
        have hrest : rest ≠ [] := by
          have := KeyPath.hasNext_iff.1 hr.2
          rwa [hwhole, hss, List.nil_append] at this
        rw [hss, List.nil_append] at hwhole
        obtain ⟨hstop, hvalues⟩ :=
          hc.leads (parent.child (.key k)) (trail ++ [k]) hr.1 hwhole hrest
        rw [entry_leads strict _ _ hw hr.1 hr.2]
        exact composes_single _ (by simpa [stop_andThen, single] using hstop)
          fun hs => hvalues (stop_andThen.1 hs).2
      · rw [entry_ends strict _ _ hw hr]
        have hend : ¬ (v.isContainer ∧ rest ≠ []) := by
          rintro ⟨hv, hrest⟩
          refine hr ⟨hv, KeyPath.hasNext_iff.2 ?_⟩
          rw [hwhole]
          simp [hrest]
        obtain ⟨hC, hg⟩ := hc.ends hend
        exact composes_single _ (by simpa using hC) fun _ => hg.symm

/-- A walk along a path does what the walk along the first part of the path does, and then what the
second part does below the values found there. -/
theorem composes_below (hc : Continues strict rest C g) {v : Value} :
    ∀ {whole first : KeyPath} {parent parent' : Address} {trail trail' : List String},
      whole.remaining = first.remaining ++ rest → first.hasNext →
        Composes C g (below strict whole parent trail v) (below strict first parent' trail' v) := by
  induction v using Value.induct with
  | scalar v hv =>
    intro whole first parent parent' trail trail' _ _
    rw [below_scalar strict whole parent trail hv, below_scalar strict first parent' trail' hv]
    exact composes_of_values_nil rfl rfl Iff.rfl
  | sequence items ih =>
    intro whole first parent parent' trail trail' h hf
    rw [below_sequence, below_sequence]
    refine composes_join ?_
    rintro ⟨c, i⟩ hi
    cases hm : c.isMapping with
    | true =>
      rw [element_mapping strict _ _ hm, element_mapping strict _ _ hm]
      exact ih c (List.fst_mem_of_mem_zipIdx hi) h hf
    | false =>
      rw [element_other strict _ _ hm, element_other strict _ _ hm]
      exact composes_of_values_nil rfl rfl (by cases strict <;> simp [missItem])
  | mapping es ih =>
    intro whole first parent parent' trail trail' h hf
    by_cases hes : es = []
    · subst hes
      exact composes_of_values_nil rfl rfl Iff.rfl
    · rw [below_mapping strict _ _ _ hes, below_mapping strict _ _ _ hes]
      refine composes_join ?_
      rintro ⟨k, c⟩ hm
      refine composes_entry hc h hf ?_ parent parent' trail trail'
      intro q q' t t' hn
      refine ih (k, c) hm ?_ hn
      rw [KeyPath.remaining_advanced, KeyPath.remaining_advanced, h,
        List.tail_append_of_ne_nil (KeyPath.hasNext_iff.1 hf)]

/-- Walks along the same segments find the same values, wherever they start. -/
theorem below_congr {p q : KeyPath} (h : p.remaining = q.remaining) (hq : q.hasNext)
    (parent parent' : Address) (trail trail' : List String) (v : Value) :
    ((below strict p parent trail v).stop = none ↔ (below strict q parent' trail' v).stop = none) ∧
      ((below strict p parent trail v).stop = none →
        (below strict p parent trail v).values = (below strict q parent' trail' v).values) := by
  have hc : Composes (fun _ => True) ([·]) (below strict p parent trail v)
      (below strict q parent' trail' v) :=
    composes_below continues_nil (h.trans (List.append_nil _).symm) hq
  exact ⟨by simpa using hc.stop, fun hs => by simpa using hc.values hs⟩

/-- The second part of a path, as far as the first part is concerned. -/
theorem continues_walk {second : KeyPath} (h : second.hasNext) :
    Continues strict second.remaining (fun v => (v.walk strict second).stop = none)
      fun v => if v.isScalar then [v] else (v.walk strict second).values := by
  constructor
  · intro v hv
    have hv : v.isScalar := by
      have hrest := KeyPath.hasNext_iff.1 h
      simpa [Value.isScalar, hrest] using hv
    exact ⟨by rw [Value.walk, below_scalar strict second _ _ hv], if_pos hv⟩
  · intro v path parent trail hv hpath _
    have hscalar : v.isScalar = false := by simp [Value.isScalar, hv]
    rw [hscalar]
    exact below_congr hpath h parent .root trail [] v

theorem composes_walk {second : KeyPath} (strict : Bool) (doc : Value)
    (h : whole.remaining = first.remaining ++ second.remaining) (h1 : first.hasNext)
    (h2 : second.hasNext) :
    Composes (fun v => (v.walk strict second).stop = none)
      (fun v => if v.isScalar then [v] else (v.walk strict second).values)
      (doc.walk strict whole) (doc.walk strict first) :=
  composes_below (continues_walk h2) h h1

end Walk

namespace Read

variable {strict : Bool} {path first second whole : KeyPath} {doc : Value}

theorem accepts_visitor : visitor.Accepts := Visitor.accepts_ofSites fun _ _ => rfl

theorem noteAll_visitor (es : List Event) (r : Read) :
    visitor.noteAll es r = { values := r.values ++ es.filterMap Walk.value? } := by
  refine Visitor.noteAll_eq (f := fun es r => { values := r.values ++ es.filterMap Walk.value? })
    (by simp) ?_ es r
  intro e es r
  cases e <;> simp [visitor, Visitor.ofSites, List.filterMap_cons, Walk.value?]

theorem values_run (h : (doc.walk strict path).stop = none) (hp : path.hasNext) :
    (visitor.run strict path doc {}).state.values = (doc.walk strict path).values := by
  rw [Visitor.run_of_finish accepts_visitor hp h rfl, noteAll_visitor]
  rfl

/-- **Reading along a path in two parts.**  Along the segments of two paths, one after the other, a
read succeeds exactly if it succeeds along the first path, and along the second one in every
container that was read along the first.  What it reads are then the scalars that the first path
leads to and, in place of each container, what the second path leads to in it, in this order.  If
sequences are not strict, it always succeeds. -/
theorem run_append (strict : Bool) (doc : Value) {first second whole : KeyPath}
    (h : whole.remaining = first.remaining ++ second.remaining) (h1 : first.hasNext)
    (h2 : second.hasNext) :
    let read := fun path doc => visitor.run strict path doc {}
    ((read whole doc).result.isOk ↔ (read first doc).result.isOk ∧
      ∀ v ∈ (read first doc).state.values, v.isContainer → (read second v).result.isOk) ∧
    ((read whole doc).result.isOk → (read whole doc).state.values =
      (read first doc).state.values.flatMap fun v =>
        if v.isScalar then [v] else (read second v).state.values) ∧
    (strict = false → (read whole doc).result.isOk) := by
  intro read
  have hwhole : whole.hasNext := by
    rw [KeyPath.hasNext_iff, h]
    simp [KeyPath.hasNext_iff.1 h1]
  have hok {path : KeyPath} (hp : path.hasNext) (v : Value) :
      (read path v).result.isOk ↔ (v.walk strict path).stop = none :=
    Visitor.isOk_run_iff accepts_visitor hp
  have hc := Walk.composes_walk strict doc h h1 h2
  -- a walk below a scalar does not stop
  have hscalar (v : Value) : (v.isContainer → (v.walk strict second).stop = none) ↔
      (v.walk strict second).stop = none := by
    refine ⟨fun hv => ?_, fun hv _ => hv⟩
    by_cases hs : v.isContainer
    · exact hv hs
    · rw [Value.walk, Walk.below_scalar strict second _ _ (by simpa [Value.isScalar] using hs)]
  refine ⟨?_, fun hr => ?_, fun hs => ?_⟩
  · rw [hok hwhole, hok h1, hc.stop]
    refine and_congr_right fun hfirst => ?_
    rw [values_run hfirst h1]
    simp only [hok h2, hscalar]
  · have hstop := (hok hwhole doc).1 hr
    have hfirst := (hc.stop.1 hstop).1
    rw [values_run hstop hwhole, values_run hfirst h1, hc.values hstop]
    refine List.flatMap_congr fun v hv => ?_
    rw [values_run ((hc.stop.1 hstop).2 v hv) h2]
  · rw [hok hwhole, hs]
    exact Walk.stop_below_lenient

/-- A path cut behind its first segment: below it are a mapping, a scalar, and a sequence. -/
theorem run_append_nested :
    let doc := Value.mapping [
      ("a", .mapping [("b", .mapping [("x", .null)]), ("c", .mapping [])]),
      ("b", .boolean true),
      ("c", .sequence [.mapping [("b", .sequence [.mapping [("x", .boolean false)]])]])]
    ∃ whole, KeyPath.parse "*.b.x" "." = .ok whole ∧
      let first := { whole with segments := whole.segments.take 1 }
      let second := { whole with segments := whole.segments.drop 1 }
      whole.remaining = first.remaining ++ second.remaining ∧ first.hasNext ∧ second.hasNext ∧
        (visitor.run true whole doc {}).result.isOk ∧
        (visitor.run true first doc {}).state.values.length = 3 ∧
        (visitor.run true whole doc {}).state.values =
          (visitor.run true first doc {}).state.values.flatMap fun v =>
            if v.isScalar then [v] else (visitor.run true second v {}).state.values := by
  intro doc
  obtain ⟨whole, hwhole, hcursor, h1, h2, hok, hlen⟩ := KeyPath.exists_parse "*.b.x" "."
    (fun p => p.cursor = 0 ∧
      ({ p with segments := p.segments.take 1 } : KeyPath).hasNext ∧
      ({ p with segments := p.segments.drop 1 } : KeyPath).hasNext ∧
      (visitor.run true p doc {}).result.isOk ∧
      (visitor.run true { p with segments := p.segments.take 1 } doc {}).state.values.length = 3)
    (by decide +kernel)
  have h : whole.remaining = ({ whole with segments := whole.segments.take 1 } : KeyPath).remaining ++
      ({ whole with segments := whole.segments.drop 1 } : KeyPath).remaining := by
    simp only [KeyPath.remaining, hcursor, List.drop_zero, List.take_append_drop]
  exact ⟨whole, hwhole, h, h1, h2, hok, hlen, (run_append true doc h h1 h2).2.1 hok⟩

end Read

end YamlQuery

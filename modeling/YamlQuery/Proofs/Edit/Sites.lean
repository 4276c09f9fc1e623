import YamlQuery.Proofs.Edit.Calls
import YamlQuery.Proofs.Walk.Places

/-!
# Proofs.Edit.Sites — what a visitor is told

A run completes a mapping if it gets through all of the mapping's own walk
(`Visitor.Completes`); one that ends well completes every mapping that its path visits
(`Visitor.completes_of_run_eq_ok`).

Whatever a visitor does, all that it is told is true of the document, and it is told of each key of a
mapping that the run completes once (`Visitor.isTrue_of_calls`).
-/

namespace YamlQuery

/-- The event of a call, if its address is this one. -/
def Call.at? (a : Address) : Call → Option Event
  | .event e => if e.parent = a then some e else none
  | .finish _ => none

theorem Call.filterMap_at? (a : Address) (es : List Event) :
    (es.map Call.event).filterMap (Call.at? a) = es.filter fun e => e.parent = a := by
  induction es with
  | nil => rfl
  | cons e es ih => by_cases he : e.parent = a <;> simp [Call.at?, he, ih]

theorem Call.at?_eq_some {a : Address} {c : Call} {e : Event} (h : c.at? a = some e) :
    c = .event e ∧ e.parent = a := by
  cases c with
  | event f =>
    by_cases hf : f.parent = a
    · obtain rfl : f = e := by simpa [at?, hf] using h
      exact ⟨rfl, hf⟩
    · simp [at?, hf] at h
  | finish doc => cases h

/-- The only event at an address. -/
theorem Call.exists_event {a : Address} {k : Option String} {cs : List Call}
    (h : (cs.filterMap (Call.at? a)).map Event.key? = [k]) : ∃ e, .event e ∈ cs ∧ e.place = (a, k) := by
  obtain ⟨e, he, hkey⟩ := List.map_eq_singleton_iff.1 h
  obtain ⟨c, hc, hat⟩ := List.mem_filterMap.1 (he ▸ List.mem_singleton_self e)
  obtain ⟨rfl, hparent⟩ := at?_eq_some hat
  exact ⟨e, hc, Prod.ext hparent hkey⟩

namespace Visitor

variable {σ : Type} {v : Visitor σ} {strict : Bool} {path : KeyPath} {doc : Value} {s : σ}
  {a : Address} {es : Entries Value}

/-- The walk visits the mapping and is not stopped in it, and the visitor takes all events up to the
last one of the mapping's own walk. -/
def Completes (v : Visitor σ) (strict : Bool) (path : KeyPath) (doc : Value) (s : σ) (a : Address)
    (es : Entries Value) : Prop :=
  let own := Walk.below strict (path.skip a.keys.length) a a.keys (.mapping es)
  doc.Visits path a es ∧ own.stop = none ∧ ∃ before after,
    (doc.walk strict path).events = before ++ own.events ++ after ∧
      (v.visitAll (before ++ own.events) s).2 = none

theorem visitAll_of_append {fs : List Event} :
    ∀ {es : List Event} {s : σ}, (v.visitAll (es ++ fs) s).2 = none → (v.visitAll es s).2 = none
  | [], _, _ => rfl
  | e :: es, s, h => by
    rw [List.cons_append, visitAll] at h
    rw [visitAll]
    split at h
    · exact visitAll_of_append h
    · cases h

/-- A run that ends well completes every mapping that its path visits. -/
theorem completes_of_run_eq_ok {b : Bool} (h : (v.run strict path doc s).result = .ok b)
    (hv : doc.Visits path a es) : v.Completes strict path doc s a es := by
  have hp := hv.hasNext
  have hstop : (doc.walk strict path).stop = none := (stop_of_run_eq_ok h hp).1
  have htaken : (v.visitAll (doc.walk strict path).events s).2 = none := by
    rw [run, hp, Bool.not_true, if_neg (by simp)] at h
    dsimp only at h
    split at h
    · cases h
    · next hs => rw [hs]
  have hstretch : (Walk.below strict (path.skip a.keys.length) a a.keys (.mapping es)).events <:+:
      (doc.walk strict path).events := Walk.exists_stretch hv.reaches hstop
  obtain ⟨before, after, hevents⟩ := hstretch
  refine ⟨hv, stop_of_reaches hv.reaches hstop, before, after, hevents.symm, ?_⟩
  rw [← hevents] at htaken
  exact visitAll_of_append htaken

/-- The calls of a run begin with the events up to the end of a mapping that it completes. -/
theorem prefix_calls {es fs : List Event} (hp : path.hasNext)
    (hevents : (doc.walk strict path).events = es ++ fs) (h : (v.visitAll es s).2 = none) :
    es.map .event <+: v.calls strict path doc s := by
  rw [calls_eq, Value.calls, if_pos hp, Walk.calls, hevents, List.map_append, List.append_assoc,
    callAll_of_taken _ (Prod.ext rfl h)]
  exact List.prefix_append _ _

theorem mem_events_of_mem_calls {e : Event} (h : .event e ∈ v.calls strict path doc s) :
    e ∈ (doc.walk strict path).events := by
  have h := (calls_prefix_calls v strict path doc s).subset h
  unfold Value.calls Walk.calls at h
  split at h
  · split at h <;> simpa using h
  · cases h

theorem filterMap_at?_calls (hp : path.hasNext) :
    (doc.calls strict path).filterMap (Call.at? a) =
      (doc.walk strict path).events.filter fun e => e.parent = a := by
  rw [Value.calls, if_pos hp, Walk.calls, List.filterMap_append, Call.filterMap_at?]
  split <;> simp [Call.at?]

/-- **What a visitor is told.**  Every event that a visitor is told of is true of the document, and of
a mapping that a run completes there is one event for each key, or a single one without a key if the
mapping is empty. -/
theorem isTrue_of_calls (v : Visitor σ) (strict : Bool) (path : KeyPath) (s : σ)
    (hd : doc.Distinct) :
    (∀ e, .event e ∈ v.calls strict path doc s → e.IsTrue doc path) ∧
      ∀ a es, v.Completes strict path doc s a es →
        ((v.calls strict path doc s).filterMap (Call.at? a)).map Event.key? =
          Entries.reported es := by
  refine ⟨fun e he => Walk.isTrue_of_mem_events hd (mem_events_of_mem_calls he), ?_⟩
  rintro a es ⟨hv, hstop, before, after, hevents, htaken⟩
  have hwalk := Walk.filter_of_stretch hd hv.node hstop hevents
  -- the calls made lie between the walk up to the end of the mapping and the whole walk
  have hfirst := (prefix_calls hv.hasNext hevents htaken).filterMap (Call.at? a)
  have hlast := (calls_prefix_calls v strict path doc s).filterMap (Call.at? a)
  rw [Call.filterMap_at?, List.filter_append] at hfirst
  rw [filterMap_at?_calls hv.hasNext, hwalk] at hlast
  have hlength := hfirst.length_le
  rw [List.length_append] at hlength
  rw [hlast.eq_of_length_le (by omega)]
  exact Walk.places_mapping hstop

/-- Two mappings, one of them empty, and an element of a sequence that is no mapping. -/
theorem isTrue_of_calls_nested :
    let inner : Entries Value := [("x", .null), ("y", .null)]
    let doc := Value.mapping [("a", .mapping inner), ("b", .sequence [.mapping [], .null])]
    ∃ path, KeyPath.parse "*.x" "." = .ok path ∧ doc.Distinct ∧
      (∃ e, .event e ∈ record.calls false path doc [] ∧
        e.place = ([.key "b", .index 1], none) ∧ e.IsTrue doc path) ∧
      record.Completes false path doc [] [.key "a"] inner ∧
      ((record.calls false path doc []).filterMap (Call.at? [.key "a"])).map Event.key? =
        [some "x", some "y"] ∧
      record.Completes false path doc [] [.key "b", .index 0] [] ∧
      ((record.calls false path doc []).filterMap (Call.at? [.key "b", .index 0])).map Event.key? =
        [none] := by
  intro inner doc
  obtain ⟨path, hpath, hp, hn, ha, hb, hresult, hitem⟩ := KeyPath.exists_parse "*.x" "."
    (fun p => p.hasNext ∧ p.advanced.hasNext ∧ p.isMatch "a" ∧ p.isMatch "b" ∧
      (record.run false p doc []).result = .ok true ∧
      ((record.calls false p doc []).filterMap (Call.at? [.key "b", .index 1])).map Event.key? =
        [none]) (by decide +kernel)
  have hd : doc.Distinct := by decide
  have hinner : record.Completes false path doc [] [.key "a"] inner :=
    completes_of_run_eq_ok hresult
      ((Value.visits_iff hd hp).2 ⟨_, .entry (by simp) ha rfl hn (.here _ _)⟩)
  have hempty : record.Completes false path doc [] [.key "b", .index 0] [] :=
    completes_of_run_eq_ok hresult
      ((Value.visits_iff hd hp).2
        ⟨_, .entry (c := .sequence [.mapping [], .null]) (by simp) hb rfl hn
          (.element rfl rfl (.here _ _))⟩)
  obtain ⟨htrue, hall⟩ := isTrue_of_calls record false path [] hd
  obtain ⟨e, he, hplace⟩ := Call.exists_event hitem
  exact ⟨path, hpath, hd, ⟨e, he, hplace, htrue e he⟩, hinner, hall _ _ hinner, hempty,
    hall _ _ hempty⟩

end Visitor

end YamlQuery

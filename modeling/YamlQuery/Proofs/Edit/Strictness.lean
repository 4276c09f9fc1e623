import YamlQuery.Proofs.Edit.Sites

/-!
# Proofs.Edit.Strictness — strict walks and lenient ones

A lenient walk passes over the elements of sequences that are no mappings, a strict one stops at the
first of them.  So of the two walks through a document the strict one is the lenient one up to its
first event for such an element (`Walk.cut_walk`), and the runs of a visitor that never fails are the
same up to there (`Visitor.run_strict`).
-/

namespace YamlQuery

/-- The event is for an element of a sequence that is no mapping. -/
def Event.IsItem (doc : Value) : Event → Prop
  | .miss gap => ∃ item, doc.IsItem gap.parent item
  | _ => False

/-- The call is at an event for an element of a sequence that is no mapping. -/
def Call.IsItem (doc : Value) : Call → Prop
  | .event e => e.IsItem doc
  | .finish _ => False

theorem Event.not_isItem_miss {doc : Value} {gap : Gap} {es : Entries Value}
    (h : doc.get? gap.parent = some (.mapping es)) : ¬ (Event.miss gap).IsItem doc := by
  rintro ⟨item, hitem⟩
  obtain rfl : item = .mapping es := Option.some.inj (hitem.get?.symm.trans h)
  obtain ⟨_, _, _, _, _, _, hother⟩ := hitem
  cases hother

namespace Walk

variable {doc : Value} {a b c d w l : Walk} {path : KeyPath} {parent : Address}
  {trail : List String}

/-- Of two walks through a document, the first is the second up to its first event for an element
that is no mapping, and stops there; without such an event both are the same and do not stop. -/
inductive Cut (doc : Value) : Walk → Walk → Prop
  | whole {w : Walk} : w.stop = none → (∀ e ∈ w.events, ¬ e.IsItem doc) → Cut doc w w
  | short {w l : Walk} {before after : List Event} {gap : Gap} {item : Value} :
      (∀ e ∈ before, ¬ e.IsItem doc) → doc.IsItem gap.parent item → l.stop = none →
      l.events = before ++ .miss gap :: after → w.events = before ++ [.miss gap] →
      w.stop = some ⟨gap.parent, item.kind, gap.path⟩ → Cut doc w l

theorem Cut.stop_right (h : Cut doc w l) : l.stop = none := by
  cases h <;> assumption

/-- A walk that is cut short is cut short before all that comes after it. -/
theorem Cut.andThen (hac : Cut doc a c) (hbd : Cut doc b d) :
    Cut doc (a.andThen b) (c.andThen d) := by
  have hd := hbd.stop_right
  cases hac with
  | whole ha hfree =>
    cases hbd with
    | whole hb hfree' =>
      refine .whole (stop_andThen.2 ⟨ha, hb⟩) ?_
      rw [events_andThen ha]
      exact List.forall_mem_append.2 ⟨hfree, hfree'⟩
    | @short _ before after gap item hbefore hitem _ hevents hcut hstop =>
      have hall : (a.andThen d).events = (a.events ++ before) ++ .miss gap :: after := by
        rw [events_andThen ha, hevents, List.append_assoc]
      have hfirst : (a.andThen b).events = (a.events ++ before) ++ [.miss gap] := by
        rw [events_andThen ha, hcut, List.append_assoc]
      have hobstacle : (a.andThen b).stop = some ⟨gap.parent, item.kind, gap.path⟩ := by
        rw [Walk.andThen, ha]
        exact hstop
      exact .short (List.forall_mem_append.2 ⟨hfree, hbefore⟩) hitem (stop_andThen.2 ⟨ha, hd⟩) hall
        hfirst hobstacle
  | @short _ before after gap item hbefore hitem hc hevents hcut hstop =>
    have hfirst : a.andThen b = a := by rw [Walk.andThen, hstop, Option.isSome_some, if_pos rfl]
    have hall : (c.andThen d).events = before ++ .miss gap :: (after ++ d.events) := by
      rw [events_andThen hc, hevents, List.append_assoc, List.cons_append]
    rw [hfirst]
    exact .short hbefore hitem (stop_andThen.2 ⟨hc, hd⟩) hall hcut hstop

theorem Cut.join {α : Type} {f g : α → Walk} :
    ∀ {xs : List α}, (∀ x ∈ xs, Cut doc (f x) (g x)) →
      Cut doc (join (xs.map f)) (join (xs.map g))
  | [], _ => .whole rfl (by simp)
  | x :: xs, h =>
    (h x List.mem_cons_self).andThen (join fun y hy => h y (List.mem_cons_of_mem x hy))

/-- At an element that is no mapping, a strict walk stops and a lenient one does not. -/
theorem cut_missItem {place : Address} {item : Value} (h : doc.IsItem place item) :
    Cut doc (missItem true path place trail item) (missItem false path place trail item) := by
  have hevents (strict : Bool) : (missItem strict path place trail item).events =
      [] ++ [.miss ⟨place, none, path, trail⟩] := rfl
  exact .short (List.forall_mem_nil _) h rfl (hevents false) (hevents true) rfl

/-- The strict walk below a node of the document is the lenient one cut short. -/
theorem cut_below (hd : doc.Distinct) (v : Value) :
    ∀ {path : KeyPath} {parent : Address} {trail : List String}, doc.get? parent = some v →
      Cut doc (below true path parent trail v) (below false path parent trail v) := by
  induction v using Value.induct with
  | scalar v hv =>
    intro path parent trail _
    rw [below_scalar true path parent trail hv, below_scalar false path parent trail hv]
    exact .whole rfl (by simp)
  | sequence items ih =>
    intro path parent trail hnode
    rw [below_sequence, below_sequence]
    refine .join ?_
    rintro ⟨c, i⟩ hi
    have hi : items[i]? = some c := List.mem_zipIdx_iff_getElem?.1 hi
    cases hc : c.isMapping with
    | true =>
      rw [element_mapping true parent trail hc, element_mapping false parent trail hc]
      refine ih c (List.mem_of_getElem? hi) ?_
      rw [Value.get?_child, hnode]
      exact hi
    | false =>
      rw [element_other true parent trail hc, element_other false parent trail hc]
      exact cut_missItem ⟨parent, items, i, rfl, hnode, hi, hc⟩
  | mapping es ih =>
    intro path parent trail hnode
    by_cases hes : es = []
    · subst hes
      refine .whole rfl fun e he => ?_
      obtain rfl : e = _ := List.mem_singleton.1 he
      exact Event.not_isItem_miss hnode
    · rw [below_mapping true path parent trail hes, below_mapping false path parent trail hes]
      refine .join ?_
      rintro ⟨k, c⟩ hm
      cases atEntry path k c with
      | differs hk =>
        rw [entry_differs true parent trail hk, entry_differs false parent trail hk]
        refine .whole rfl fun e he => ?_
        obtain rfl : e = _ := List.mem_singleton.1 he
        exact Event.not_isItem_miss hnode
      | leads hk hc hn =>
        rw [entry_leads true parent trail hk hc hn, entry_leads false parent trail hk hc hn]
        refine .andThen (.whole rfl (by simp [single, Event.IsItem])) (ih (k, c) hm ?_)
        rw [Value.get?_child, hnode]
        exact (Entries.get?_eq_some_iff (hd.get? hnode).1).2 hm
      | ends hk hn =>
        rw [entry_ends true parent trail hk hn, entry_ends false parent trail hk hn]
        exact .whole rfl (by simp [Event.IsItem])

theorem exists_isItem_calls :
    (∃ c ∈ w.calls doc, c.IsItem doc) ↔ ∃ e ∈ w.events, e.IsItem doc := by
  rw [calls]
  constructor
  · rintro ⟨c, hc, hitem⟩
    rcases List.mem_append.1 hc with hc | hc
    · obtain ⟨e, he, rfl⟩ := List.mem_map.1 hc
      exact ⟨e, he, hitem⟩
    · split at hc
      · obtain rfl := List.mem_singleton.1 hc
        exact hitem.elim
      · cases hc
  · rintro ⟨e, he, hitem⟩
    exact ⟨.event e, List.mem_append_left _ (List.mem_map_of_mem he), hitem⟩

/-- The path of a miss is the path of the walk, from some segment on. -/
theorem text_of_miss {strict : Bool} {gap : Gap} (hd : doc.Distinct)
    (h : .miss gap ∈ (doc.walk strict path).events) : gap.path.text = path.text := by
  have htrue : (Event.miss gap).IsTrue doc path := isTrue_of_mem_events hd h
  have hskip : gap.path = path.skip (Address.keys gap.parent).length := htrue.path
  rw [hskip, KeyPath.skip]

/-- **Strict is lenient cut short.** -/
theorem cut_walk (hd : doc.Distinct) (path : KeyPath) :
    Cut doc (doc.walk true path) (doc.walk false path) := cut_below hd doc (Value.get?_root doc)

end Walk

namespace Visitor

variable {σ : Type} {v : Visitor σ} {doc : Value}

/-- No shape stops a lenient run. -/
theorem exists_result_lenient (hv : v.Accepts) (path : KeyPath) (doc : Value) (s : σ) :
    ∃ b, (v.run false path doc s).result = .ok b := by
  cases hp : path.hasNext with
  | false => exact ⟨false, congrArg Outcome.result (run_of_not_hasNext hp)⟩
  | true =>
    obtain ⟨out, hout⟩ := hv.finish doc (v.noteAll (doc.walk false path).events s)
    have hrun := run_of_finish hv hp Walk.stop_below_lenient (Prod.ext rfl hout)
    exact ⟨_, congrArg Outcome.result hrun⟩

/-- **Strict runs and lenient ones.**  With a visitor that never fails, a lenient run ends well.  If
none of its calls is for an element of a sequence that is no mapping, the strict run is the same.  If
one is, the strict run makes the same calls up to the first of these, leaves the document alone and
fails with the address and the kind of the element. -/
theorem run_strict (hv : v.Accepts) (hd : doc.Distinct) (path : KeyPath) (s : σ) :
    let lenient := v.run false path doc s
    let strict := v.run true path doc s
    let calls := v.calls false path doc s
    (∃ b, lenient.result = .ok b) ∧
      ((∀ c ∈ calls, ¬ c.IsItem doc) → v.calls true path doc s = calls ∧ strict = lenient) ∧
      ((∃ c ∈ calls, c.IsItem doc) → ∃ before gap after item,
        calls = before ++ .event (.miss gap) :: after ∧ (∀ c ∈ before, ¬ c.IsItem doc) ∧
        doc.IsItem gap.parent item ∧
        v.calls true path doc s = before ++ [.event (.miss gap)] ∧
        strict.result = .error (.shapeMismatch gap.parent.text item.kind path.text) ∧
        strict.doc = doc ∧ ∀ d, .finish d ∉ v.calls true path doc s) := by
  intro lenient strict calls
  have hcalls : calls = doc.calls false path := calls_of_accepts hv false path doc s
  have hcut := Walk.cut_walk hd path
  refine ⟨exists_result_lenient hv path doc s, ?_⟩
  cases hp : path.hasNext with
  | false =>
    have hnone (b : Bool) : doc.calls b path = [] := by
      rw [Value.calls, if_neg (by simp [hp])]
    rw [calls_of_accepts hv, hcalls, hnone, hnone]
    simp [lenient, strict, run_of_not_hasNext hp]
  | true =>
    have hboth (b : Bool) : doc.calls b path = (doc.walk b path).calls doc := by
      rw [Value.calls, if_pos hp]
    rw [calls_of_accepts hv, hcalls, hboth, hboth]
    generalize hw : doc.walk true path = w at hcut
    generalize hl : doc.walk false path = l at hcut
    cases hcut with
    | whole _ hfree =>
      have hnone : ¬ ∃ c ∈ w.calls doc, c.IsItem doc := by
        rw [Walk.exists_isItem_calls]
        rintro ⟨e, he, hitem⟩
        exact hfree e he hitem
      refine ⟨fun _ => ⟨rfl, ?_⟩, fun hitem => absurd hitem hnone⟩
      simp only [strict, lenient, run, hw, hl]
    | @short _ before after gap item hbefore hitem hstop hevents hshort hobstacle =>
      have hcalls : l.calls doc =
          before.map .event ++ .event (.miss gap) :: (after.map .event ++ [.finish doc]) := by
        simp [Walk.calls, hevents, hstop]
      have hstrict : w.calls doc = before.map .event ++ [.event (.miss gap)] := by
        simp [Walk.calls, hshort, hobstacle]
      refine ⟨fun hfree => ?_, fun _ => ⟨before.map .event, gap, _, item, hcalls, ?_, hitem, hstrict,
        ?_, ?_, ?_⟩⟩
      · have hmem : Call.event (.miss gap) ∈ l.calls doc := by simp [hcalls]
        exact absurd ⟨item, hitem⟩ (hfree _ hmem)
      · intro c hc
        obtain ⟨e, he, rfl⟩ := List.mem_map.1 hc
        exact hbefore e he
      · have hmem : .miss gap ∈ (doc.walk true path).events := by simp [hw, hshort]
        rw [show strict = _ from run_of_stop hv hp (hw ▸ hobstacle), EditError.ofObstacle,
          Walk.text_of_miss hd hmem]
      · rw [show strict = _ from run_of_stop hv hp (hw ▸ hobstacle)]
      · simp [hstrict]

/-- A document with a null in one of its sequences, and one without. -/
theorem run_strict_item :
    let doc := Value.mapping
      [("a", .sequence [.mapping [("x", .null)], .null, .mapping [("x", .null)]])]
    let clear := Value.mapping [("a", .sequence [.mapping [("x", .null)]])]
    ∃ path, KeyPath.parse "a.x" "." = .ok path ∧ record.Accepts ∧ doc.Distinct ∧ clear.Distinct ∧
      (∃ c ∈ record.calls false path doc [], c.IsItem doc) ∧
      (record.run false path doc []).result = .ok true ∧
      (record.run true path doc []).result = .error (.shapeMismatch "a[1]" "null" "a.x") ∧
      (∃ before gap after, record.calls false path doc [] = before ++ .event (.miss gap) :: after ∧
        record.calls true path doc [] = before ++ [.event (.miss gap)]) ∧
      (∀ c ∈ record.calls false path clear [], ¬ c.IsItem clear) ∧
      record.run true path clear [] = record.run false path clear [] := by
  intro doc clear
  obtain ⟨path, hpath, hlenient, hstrict, hclear, hplace⟩ := KeyPath.exists_parse "a.x" "."
    (fun p => (record.run false p doc []).result = .ok true ∧
      (record.run true p doc []).result = .error (.shapeMismatch "a[1]" "null" "a.x") ∧
      (record.run true p clear []).result = .ok true ∧
      ((record.calls false p doc []).filterMap (Call.at? [.key "a", .index 1])).map Event.key? =
        [none]) (by decide +kernel)
  have hd : doc.Distinct := by decide
  have hd' : clear.Distinct := by decide
  have hitem : ∃ c ∈ record.calls false path doc [], c.IsItem doc := by
    obtain ⟨e, he, hplace⟩ := Call.exists_event hplace
    refine ⟨.event e, he, ?_⟩
    cases e with
    | partly site | fully site => exact absurd (congrArg Prod.snd hplace) (Option.some_ne_none _)
    | miss gap =>
      have hparent : gap.parent = [.key "a", .index 1] := congrArg Prod.fst hplace
      exact ⟨.null, [.key "a"], _, 1, hparent, rfl, rfl, rfl⟩
  obtain ⟨-, -, hshort⟩ := run_strict accepts_record hd path []
  obtain ⟨-, hwhole, hother⟩ := run_strict accepts_record hd' path []
  have hfree : ∀ c ∈ record.calls false path clear [], ¬ c.IsItem clear := by
    intro c hc hitem
    obtain ⟨_, _, _, _, -, -, -, -, herror, -⟩ := hother ⟨c, hc, hitem⟩
    rw [hclear] at herror
    cases herror
  obtain ⟨before, gap, after, item, hcalls, -, -, hcut, -⟩ := hshort hitem
  exact ⟨path, hpath, accepts_record, hd, hd', hitem, hlenient, hstrict,
    ⟨before, gap, after, hcalls, hcut⟩, hfree, (hwhole hfree).2⟩

end Visitor

end YamlQuery

import Mathlib.Data.List.Nodup
import YamlQuery.Proofs.Walk.Matches

/-!
# Proofs.Walk.Places — what the events of a walk say

Every event of a walk is true of the document (`Walk.isTrue_of_mem_events`): its address is that of a
mapping with its key, or of a place where there is nothing to match, and its keys and the cursor of
its path belong to the address.

An address and a key make up the place of an event, and a walk meets no place twice
(`Walk.nodup_places`).  The walk through a mapping is a stretch of the whole walk
(`Walk.exists_stretch`), so only there are events whose address is that of the mapping: one for each
key, or a single one without a key if the mapping is empty (`Walk.places_mapping`).
-/

namespace YamlQuery

/-! ### What an event says -/

/-- The node at the address is an element of a sequence and no mapping. -/
def Value.IsItem (doc : Value) (place : Address) (item : Value) : Prop :=
  ∃ a items i, place = Address.child a (.index i) ∧ doc.get? a = some (.sequence items) ∧
    items[i]? = some item ∧ item.isMapping = false

/-- There is a mapping at the address with this value for the key, the key matches where the cursor
is, and the keys on the way and the cursor are those of the address. -/
structure Site.IsTrue (doc : Value) (path : KeyPath) (site : Site) : Prop where
  entry : ∃ es, doc.get? site.parent = some (.mapping es) ∧
    Entries.get? site.key es = some site.value
  isMatch : site.path.isMatch site.key
  trail : site.trail = Address.keys site.parent ++ [site.key]
  path : site.path = path.skip (Address.keys site.parent).length

/-- There is nothing that matches at the place: a key of a mapping that does not match where the
cursor is; or, without a key, an empty mapping or an element of a sequence that is no mapping. -/
def Gap.IsBlank (doc : Value) (gap : Gap) : Prop :=
  match gap.key with
  | some k => (∃ es, doc.get? gap.parent = some (.mapping es) ∧ k ∈ Entries.keys es) ∧
      gap.path.isMatch k = false
  | none => doc.get? gap.parent = some (.mapping []) ∨ ∃ item, doc.IsItem gap.parent item

structure Gap.IsTrue (doc : Value) (path : KeyPath) (gap : Gap) : Prop where
  isBlank : gap.IsBlank doc
  trail : gap.trail = Address.keys gap.parent
  path : gap.path = path.skip (Address.keys gap.parent).length

namespace Event

/-- What the event says is so in the document. -/
def IsTrue (doc : Value) (path : KeyPath) : Event → Prop
  | .partly site | .fully site => site.IsTrue doc path
  | .miss gap => gap.IsTrue doc path

def parent : Event → Address
  | .partly site | .fully site => site.parent
  | .miss gap => gap.parent

def key? : Event → Option String
  | .partly site | .fully site => some site.key
  | .miss gap => gap.key

/-- The address and the key of an event. -/
def place (e : Event) : Address × Option String := (e.parent, e.key?)

end Event

/-- The keys of the events that a mapping gives rise to by itself: all its keys, or one event without
a key if it is empty. -/
def Entries.reported {α : Type} : Entries α → List (Option String)
  | [] => [none]
  | e :: es => (e :: es).map fun e => some e.1

theorem Entries.some_mem_reported {α : Type} {es : Entries α} {k : String} :
    some k ∈ es.reported ↔ k ∈ es.keys := by
  cases es <;> simp [reported, keys]

theorem Value.IsItem.get? {doc item : Value} {place : Address} (h : doc.IsItem place item) :
    doc.get? place = some item := by
  obtain ⟨a, items, i, rfl, hitems, hi, -⟩ := h
  rw [Value.get?_child, hitems]
  exact hi

namespace Walk

variable {strict : Bool} {path p : KeyPath} {parent a : Address} {trail : List String} {e f : Event}
  {doc v w : Value} {es : Entries Value}

/-- **Every event is true of the document.** -/
theorem isTrue_of_mem_events (hd : doc.Distinct) (h : e ∈ (doc.walk strict path).events) :
    e.IsTrue doc path := by
  obtain ⟨a, p, w, hr, ho⟩ := found_of_mem_events h
  rw [Address.root, List.nil_append, List.nil_append] at ho
  have hnode : doc.get? a = some w := hr.get? hd
  have hpath : p = path.skip a.keys.length := hr.path_eq
  cases ho with
  | empty => exact ⟨.inl hnode, rfl, hpath⟩
  | differs hm hk => exact ⟨⟨⟨_, hnode, Entries.mem_keys.2 ⟨_, hm⟩⟩, hk⟩, rfl, hpath⟩
  | leads hm hk | ends hm hk =>
    exact ⟨⟨_, hnode, (Entries.get?_eq_some_iff (hd.get? hnode).1).2 hm⟩, hk, rfl, hpath⟩
  | @item items i c hi hc =>
    have hkeys : Address.keys (a.child (.index i)) = a.keys := Address.keys_child_index a i
    refine ⟨.inr ⟨c, a, items, i, rfl, hnode, hi, hc⟩, hkeys.symm, ?_⟩
    show p = path.skip (Address.keys (a.child (.index i))).length
    rw [hkeys, hpath]

/-! ### No place twice -/

/-- The events below an address have addresses that go on from it. -/
theorem prefix_parent (h : e ∈ (below strict path parent trail v).events) : parent <+: e.parent := by
  obtain ⟨a, p, w, -, ho⟩ := found_of_mem_events h
  cases ho with
  | empty | differs | leads | ends => exact List.prefix_append _ _
  | item =>
    rw [Event.parent, Address.child, List.append_assoc]
    exact List.prefix_append _ _

theorem place_of_mem_entry {k : String} {c : Value}
    (h : e ∈ (entry strict path parent trail (k, c)).events) :
    e.place = (parent, some k) ∨ parent.child (.key k) <+: e.parent := by
  rcases mem_events_entry.1 h with ⟨-, rfl⟩ | ⟨-, -, -, rfl | he⟩ | ⟨-, -, rfl⟩
  · exact .inl rfl
  · exact .inl rfl
  · exact .inr (prefix_parent he)
  · exact .inl rfl

theorem prefix_of_mem_element {i : Nat} (h : e ∈ (element strict path parent trail (v, i)).events) :
    parent.child (.index i) <+: e.parent := by
  cases hv : v.isMapping with
  | true =>
    rw [element_mapping strict parent trail hv] at h
    exact prefix_parent h
  | false =>
    rw [element_other strict parent trail hv] at h
    obtain rfl : e = _ := List.mem_singleton.1 h
    exact List.prefix_rfl

theorem not_child_prefix (a : Address) (s : Step) : ¬ a.child s <+: a := by
  intro h
  have := h.length_le
  rw [Address.child, List.length_append, List.length_singleton] at this
  omega

/-- Nothing lies below two children. -/
theorem step_eq_of_prefix {s t : Step} {b : Address} (hs : a.child s <+: b) (ht : a.child t <+: b) :
    s = t := by
  have h := List.prefix_of_prefix_length_le hs ht (by simp [Address.child])
  rw [Address.child, Address.child, List.prefix_append_right_inj] at h
  exact (List.cons_prefix_cons.1 h).1

/-- The events of two entries are at different places. -/
theorem disjoint_entry {k l : String} {c d : Value} (hkl : k ≠ l) :
    ((entry strict path parent trail (k, c)).events.map Event.place).Disjoint
      ((entry strict path parent trail (l, d)).events.map Event.place) := by
  intro x hx hy
  obtain ⟨e, he, rfl⟩ := List.mem_map.1 hx
  obtain ⟨f, hf, hplace⟩ := List.mem_map.1 hy
  have hparent : f.parent = e.parent := congrArg Prod.fst hplace
  have hself (s : Step) : ¬ parent.child s <+: parent := not_child_prefix parent s
  rcases place_of_mem_entry he with hek | hek <;> rcases place_of_mem_entry hf with hfl | hfl
  · rw [hek, hfl] at hplace
    cases hplace
    exact hkl rfl
  · rw [hparent, show e.parent = parent from congrArg Prod.fst hek] at hfl
    exact hself _ hfl
  · rw [← hparent, show f.parent = parent from congrArg Prod.fst hfl] at hek
    exact hself _ hek
  · rw [hparent] at hfl
    cases step_eq_of_prefix hek hfl
    exact hkl rfl

/-- The events of two elements are at different places. -/
theorem disjoint_element {i j : Nat} {c d : Value} (hij : i ≠ j) :
    ((element strict path parent trail (c, i)).events.map Event.place).Disjoint
      ((element strict path parent trail (d, j)).events.map Event.place) := by
  intro x hx hy
  obtain ⟨e, he, rfl⟩ := List.mem_map.1 hx
  obtain ⟨f, hf, hplace⟩ := List.mem_map.1 hy
  have hparent : f.parent = e.parent := congrArg Prod.fst hplace
  have hfj := prefix_of_mem_element hf
  rw [hparent] at hfj
  cases step_eq_of_prefix (prefix_of_mem_element he) hfj
  exact hij rfl

/-- **No place twice.**  No two events of a walk have the same address and the same key. -/
theorem nodup_places (hd : v.Distinct) :
    ((below strict path parent trail v).events.map Event.place).Nodup := by
  induction v using Value.induct generalizing path parent trail with
  | scalar v hv =>
    rw [below_scalar strict path parent trail hv]
    exact .nil
  | sequence items ih =>
    rw [below_sequence]
    refine ((events_join_sublist _).map Event.place).nodup ?_
    rw [List.flatMap_map, List.map_flatMap, List.nodup_flatMap]
    constructor
    · rintro ⟨c, i⟩ hi
      have hmem : c ∈ items := List.mem_of_getElem? (List.mem_zipIdx_iff_getElem?.1 hi)
      cases hc : c.isMapping with
      | true =>
        rw [element_mapping strict parent trail hc]
        exact ih c hmem (Value.distinctItems_iff.1 hd c hmem)
      | false =>
        rw [element_other strict parent trail hc]
        exact List.nodup_singleton _
    · exact (pairwise_zipIdx items).imp fun hij => disjoint_element hij.ne
  | mapping es ih =>
    by_cases hes : es = []
    · subst hes
      exact List.nodup_singleton _
    · rw [below_mapping strict path parent trail hes]
      refine ((events_join_sublist _).map Event.place).nodup ?_
      rw [List.flatMap_map, List.map_flatMap, List.nodup_flatMap]
      constructor
      · rintro ⟨k, c⟩ hm
        cases atEntry path k c with
        | differs hk =>
          rw [entry_differs strict parent trail hk]
          exact List.nodup_singleton _
        | leads hk hc hn =>
          rw [entry_leads strict parent trail hk hc hn, events_andThen rfl, List.map_append]
          have hbelow : ((below strict path.advanced (parent.child (.key k)) (trail ++ [k])
              c).events.map Event.place).Nodup :=
            ih (k, c) hm (Value.distinctEntries_iff.1 hd.2 _ hm)
          refine List.nodup_cons.2 ⟨fun h => ?_, hbelow⟩
          obtain ⟨e, he, hplace⟩ := List.mem_map.1 h
          have hprefix := prefix_parent he
          rw [show e.parent = parent from congrArg Prod.fst hplace] at hprefix
          exact not_child_prefix parent _ hprefix
        | ends hk hn =>
          rw [entry_ends strict parent trail hk hn]
          exact List.nodup_singleton _
      · have hkeys : es.Pairwise fun x y => x.1 ≠ y.1 := List.pairwise_map.1 hd.1
        exact hkeys.imp fun hkl => disjoint_entry hkl

/-! ### The walk through one mapping -/

/-- The walk below a node that is got to is a stretch of a walk that does not stop. -/
theorem exists_stretch (hr : Reaches path v a p w) :
    (below strict path parent trail v).stop = none →
      (below strict p (parent ++ a) (trail ++ a.keys) w).events <:+:
        (below strict path parent trail v).events := by
  induction hr generalizing parent trail with
  | here path v =>
    intro _
    simp [Address.keys]
  | @entry path p es k c w a hm hk hc hn hr ih =>
    intro h
    have hs := stop_entry h hm
    rw [below_mapping strict path parent trail (List.ne_nil_of_mem hm)] at h ⊢
    rw [entry_leads strict parent trail hk hc hn] at hs
    have hinner := ih (stop_andThen.1 hs).2
    have houter : (entry strict path parent trail (k, c)).events <:+:
        (join (es.map (entry strict path parent trail))).events := by
      rw [events_join (stop_join.1 h), List.flatMap_map, List.flatMap_def]
      exact List.infix_of_mem_flatten (List.mem_map_of_mem hm)
    rw [entry_leads strict parent trail hk hc hn, events_andThen rfl] at houter
    have hstretch := (hinner.trans (List.suffix_append _ _).isInfix).trans houter
    simpa [Address.keys, Address.child] using hstretch
  | @element path p items i c w a hi hc hr ih =>
    intro h
    have hs := stop_element h hi
    rw [below_sequence] at h ⊢
    rw [element_mapping strict parent trail hc] at hs
    have houter : (element strict path parent trail (c, i)).events <:+:
        (join (items.zipIdx.map (element strict path parent trail))).events := by
      rw [events_join (stop_join.1 h), List.flatMap_map, List.flatMap_def]
      exact List.infix_of_mem_flatten (List.mem_map_of_mem (List.mem_zipIdx_iff_getElem?.2 hi))
    rw [element_mapping strict parent trail hc] at houter
    simpa [Address.keys, Address.child] using (ih hs).trans houter

/-- Of the events of one entry, the first is about its key and all others are below. -/
theorem places_entry (e : String × Value) :
    ((entry strict path a trail e).events.filter fun f => f.parent = a).map Event.key? =
      [some e.1] := by
  obtain ⟨k, c⟩ := e
  cases atEntry path k c with
  | differs hk => simp [entry_differs strict a trail hk, missKey, single, Event.parent, Event.key?]
  | leads hk hc hn =>
    have hbelow : (below strict path.advanced (a.child (.key k)) (trail ++ [k]) c).events.filter
        (fun f => f.parent = a) = [] := by
      refine List.filter_eq_nil_iff.2 fun f hf hparent => ?_
      have hprefix := prefix_parent hf
      rw [of_decide_eq_true hparent] at hprefix
      exact not_child_prefix a _ hprefix
    rw [entry_leads strict a trail hk hc hn, events_andThen rfl, List.filter_append, hbelow]
    simp [single, Event.parent, Event.key?]
  | ends hk hn =>
    rw [entry_ends strict a trail hk hn]
    simp [Event.parent, Event.key?]

/-- **Every key once.**  If a walk through a mapping does not stop, the events at its address are one
for each key, in order, or a single one without a key if the mapping is empty. -/
theorem places_mapping (h : (below strict path a trail (.mapping es)).stop = none) :
    ((below strict path a trail (.mapping es)).events.filter fun f => f.parent = a).map
      Event.key? = es.reported := by
  cases es with
  | nil => simp [below, missMapping, single, Event.parent, Event.key?, Entries.reported]
  | cons e es =>
    rw [below_mapping strict path a trail (List.cons_ne_nil e es)] at h ⊢
    rw [events_join (stop_join.1 h), List.flatMap_map, List.filter_flatMap, List.map_flatMap]
    simp only [places_entry]
    exact List.map_eq_flatMap.symm

/-- The key of an event at the address of a mapping is one that the mapping gives rise to. -/
theorem key?_mem_reported (he : e.IsTrue doc path) (h : doc.get? e.parent = some (.mapping es)) :
    e.key? ∈ es.reported := by
  have hkey {k : String} {fs : Entries Value} (hfs : doc.get? e.parent = some (.mapping fs))
      (hk : k ∈ fs.keys) : some k ∈ es.reported := by
    obtain rfl : es = fs := Value.mapping.inj (Option.some.inj (h.symm.trans hfs))
    exact Entries.some_mem_reported.2 hk
  cases e with
  | partly site | fully site =>
    obtain ⟨fs, hfs, hv⟩ := he.entry
    exact hkey hfs (Entries.mem_keys.2 ⟨_, Entries.mem_of_get? hv⟩)
  | miss gap =>
    obtain ⟨parent, key, path', trail⟩ := gap
    have hblank := he.isBlank
    cases key with
    | some k =>
      obtain ⟨⟨fs, hfs, hk⟩, -⟩ := hblank
      exact hkey hfs hk
    | none =>
      rcases hblank with hempty | ⟨item, hitem⟩
      · obtain rfl : es = [] := Value.mapping.inj (Option.some.inj (h.symm.trans hempty))
        exact List.mem_singleton.2 rfl
      · obtain rfl : item = .mapping es := Option.some.inj (hitem.get?.symm.trans h)
        obtain ⟨_, _, _, _, _, _, hother⟩ := hitem
        cases hother

/-- The events at the address of a mapping are those of the mapping's own walk, where that is a
stretch of the whole walk and is not stopped. -/
theorem filter_of_stretch (hd : doc.Distinct) (h : doc.get? a = some (.mapping es))
    (hstop : (below strict p a trail (.mapping es)).stop = none) {before after : List Event}
    (hevents : (doc.walk strict path).events =
      before ++ (below strict p a trail (.mapping es)).events ++ after) :
    (doc.walk strict path).events.filter (fun e => e.parent = a) =
      (below strict p a trail (.mapping es)).events.filter fun e => e.parent = a := by
  have hplaces := places_mapping hstop
  have htrue : ∀ e ∈ (doc.walk strict path).events, e.IsTrue doc path :=
    fun e he => isTrue_of_mem_events hd he
  have hnodup : ((doc.walk strict path).events.map Event.place).Nodup := nodup_places hd
  rw [hevents] at htrue hnodup ⊢
  generalize (below strict p a trail (.mapping es)).events = own at hplaces htrue hnodup ⊢
  -- an event at the address has a key of the mapping, so its place is that of an event in between
  have htwin : ∀ e : Event, e.IsTrue doc path → e.parent = a → e.place ∈ own.map Event.place := by
    intro e he hparent
    have hkey : e.key? ∈ es.reported := key?_mem_reported he (hparent ▸ h)
    rw [← hplaces] at hkey
    obtain ⟨f, hf, hfkey⟩ := List.mem_map.1 hkey
    obtain ⟨hf, hfparent⟩ := List.mem_filter.1 hf
    refine List.mem_map.2 ⟨f, hf, Prod.ext ?_ hfkey⟩
    exact (of_decide_eq_true hfparent).trans hparent.symm
  rw [List.map_append, List.map_append] at hnodup
  obtain ⟨hleft, -, hright⟩ := List.nodup_append'.1 hnodup
  obtain ⟨-, -, hleft⟩ := List.nodup_append'.1 hleft
  have hbefore : before.filter (fun e => e.parent = a) = [] := by
    refine List.filter_eq_nil_iff.2 fun e he hparent => ?_
    exact hleft (List.mem_map_of_mem he)
      (htwin e (htrue e (by simp [he])) (of_decide_eq_true hparent))
  have hafter : after.filter (fun e => e.parent = a) = [] := by
    refine List.filter_eq_nil_iff.2 fun e he hparent => ?_
    exact hright (List.mem_append_right _ (htwin e (htrue e (by simp [he]))
      (of_decide_eq_true hparent))) (List.mem_map_of_mem he)
  rw [List.filter_append, List.filter_append, hbefore, hafter, List.nil_append, List.append_nil]

end Walk

end YamlQuery

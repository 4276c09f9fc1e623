import YamlQuery.Proofs.Document.Nodes
import YamlQuery.Walk

/-!
# Proofs.Walk.Events — where the events of a walk come from

A walk is the walks of the entries of a mapping, or of the elements of a sequence, joined one after
another (`below_mapping`, `below_sequence`).  So what holds of all walks is shown by induction over
the document (`Value.induct`), with one lemma about `Walk.join`.

`Reaches` says to which nodes a walk gets and how far its path has been used there, `Own` which
events a node gives rise to by itself.  Every event of a walk is an event of one of the nodes it
gets to, and a walk that does not stop meets them all (`mem_events_iff`).
-/

namespace YamlQuery

namespace KeyPath

variable {p : KeyPath} {key : String}

theorem hasNext_iff : p.hasNext ↔ p.remaining ≠ [] := by
  rw [hasNext, decide_eq_true_iff, length, remaining, Ne, List.drop_eq_nil_iff, Nat.not_le]

theorem isMatch_iff : p.isMatch key ↔ ∃ s ss, p.remaining = s :: ss ∧ s.isMatch key := by
  have h : p.current? = p.remaining.head? := by simp [current?, remaining, List.head?_drop]
  rw [isMatch, h]
  cases p.remaining <;> simp

theorem hasNext_of_isMatch (h : p.isMatch key) : p.hasNext := by
  obtain ⟨s, ss, hs, -⟩ := isMatch_iff.1 h
  simp [hasNext_iff, hs]

/-- The path with the cursor further on. -/
def skip (p : KeyPath) (n : Nat) : KeyPath := { p with cursor := p.cursor + n }

theorem advanced_eq_skip (h : p.hasNext) : p.advanced = p.skip 1 := by
  rw [advanced, if_pos h, skip]

theorem remaining_skip (p : KeyPath) (n : Nat) : (p.skip n).remaining = p.remaining.drop n := by
  simp [remaining, skip]

theorem remaining_advanced (p : KeyPath) : p.advanced.remaining = p.remaining.tail := by
  by_cases h : p.hasNext
  · rw [advanced_eq_skip h, remaining_skip, List.drop_one]
  · have hr : p.remaining = [] := by simpa [hasNext_iff] using h
    rw [advanced, if_neg h, hr, List.tail_nil]

end KeyPath

namespace Walk

/-! ### Walks one after another -/

variable {a b : Walk} {ws : List Walk} {e : Event}

theorem stop_andThen : (a.andThen b).stop = none ↔ a.stop = none ∧ b.stop = none := by
  unfold andThen
  split
  · next h => simp [Option.isSome_iff_ne_none.1 h]
  · next h => simp [Option.not_isSome_iff_eq_none.1 h]

theorem events_andThen (h : a.stop = none) : (a.andThen b).events = a.events ++ b.events := by
  simp [andThen, h]

/-- The walks one after another, up to the first that stops. -/
def join (ws : List Walk) : Walk := ws.foldr andThen {}

@[simp] theorem join_nil : join [] = {} := rfl

@[simp] theorem join_cons (w : Walk) (ws : List Walk) : join (w :: ws) = w.andThen (join ws) := rfl

theorem stop_join : (join ws).stop = none ↔ ∀ w ∈ ws, w.stop = none := by
  induction ws with
  | nil => simp
  | cons w ws ih => simp [stop_andThen, ih]

theorem events_join (h : ∀ w ∈ ws, w.stop = none) : (join ws).events = ws.flatMap events := by
  induction ws with
  | nil => rfl
  | cons w ws ih =>
    rw [join_cons, events_andThen (h w List.mem_cons_self),
      ih fun v hv => h v (List.mem_cons_of_mem _ hv), List.flatMap_cons]

/-- A walk that stops has met only some of the events. -/
theorem events_join_sublist : ∀ ws : List Walk, (join ws).events.Sublist (ws.flatMap events)
  | [] => .slnil
  | w :: ws => by
    rw [join_cons, List.flatMap_cons]
    unfold andThen
    split
    · exact List.sublist_append_left _ _
    · exact (List.Sublist.refl _).append (events_join_sublist ws)

theorem events_andThen_subset_left : a.events ⊆ (a.andThen b).events := by
  unfold andThen
  split
  · exact List.Subset.refl _
  · exact List.subset_append_left _ _

/-- The first walk that stops has been met with all its events. -/
theorem exists_first_stop (h : (join ws).stop ≠ none) :
    ∃ w ∈ ws, w.stop ≠ none ∧ w.events ⊆ (join ws).events := by
  induction ws with
  | nil => exact absurd rfl h
  | cons w ws ih =>
    by_cases hw : w.stop = none
    · have hws : (join ws).stop ≠ none := fun hs => h (stop_andThen.2 ⟨hw, hs⟩)
      obtain ⟨v, hv, hstop, hsub⟩ := ih hws
      refine ⟨v, List.mem_cons_of_mem _ hv, hstop, fun e he => ?_⟩
      rw [join_cons, events_andThen hw]
      exact List.mem_append_right _ (hsub he)
    · exact ⟨w, List.mem_cons_self, hw, events_andThen_subset_left⟩

/-- An event has been met with all others of its walk before it. -/
theorem exists_of_mem_events_join (h : e ∈ (join ws).events) :
    ∃ w ∈ ws, e ∈ w.events ∧ w.events ⊆ (join ws).events := by
  induction ws with
  | nil => simp at h
  | cons w ws ih =>
    by_cases he : e ∈ w.events
    · exact ⟨w, List.mem_cons_self, he, events_andThen_subset_left⟩
    · by_cases hw : w.stop = none
      · rw [join_cons, events_andThen hw, List.mem_append] at h
        obtain ⟨v, hv, hev, hsub⟩ := ih (h.resolve_left he)
        refine ⟨v, List.mem_cons_of_mem _ hv, hev, fun f hf => ?_⟩
        rw [join_cons, events_andThen hw]
        exact List.mem_append_right _ (hsub hf)
      · rw [join_cons, andThen, if_pos (Option.isSome_iff_ne_none.2 hw)] at h
        exact absurd h he

/-! ### The walks of entries and elements -/

variable (strict : Bool) (path : KeyPath) (parent : Address) (trail : List String)

/-- The walk of one entry of a mapping. -/
def entry (e : String × Value) : Walk :=
  if !path.isMatch e.1 then missKey path parent trail e.1
  else
    let site : Site := ⟨parent, e.1, e.2, path, trail ++ [e.1]⟩
    if e.2.isContainer && path.advanced.hasNext then
      (single (.partly site)).andThen
        (below strict path.advanced (parent.child (.key e.1)) (trail ++ [e.1]) e.2)
    else { events := [.fully site], matched := true }

/-- The walk of one element of a sequence. -/
def element (x : Value × Nat) : Walk :=
  if x.1.isMapping then below strict path (parent.child (.index x.2)) trail x.1
  else missItem strict path (parent.child (.index x.2)) trail x.1

theorem entries_eq_join (es : List (String × Value)) :
    entries strict path parent trail es = join (es.map (entry strict path parent trail)) := by
  induction es with
  | nil => rfl
  | cons e es ih => simp only [entries, ih, List.map_cons, join_cons]; rfl

theorem elements_eq_join (items : List Value) (n : Nat) :
    elements strict path parent trail n items =
      join ((items.zipIdx n).map (element strict path parent trail)) := by
  induction items generalizing n with
  | nil => rfl
  | cons v vs ih => simp only [elements, ih, List.zipIdx_cons, List.map_cons, join_cons]; rfl

theorem below_mapping {es : List (String × Value)} (h : es ≠ []) :
    below strict path parent trail (.mapping es) =
      join (es.map (entry strict path parent trail)) := by
  obtain ⟨e, es, rfl⟩ := List.exists_cons_of_ne_nil h
  exact entries_eq_join ..

theorem below_sequence (items : List Value) :
    below strict path parent trail (.sequence items) =
      join (items.zipIdx.map (element strict path parent trail)) :=
  elements_eq_join ..

theorem below_scalar {v : Value} (h : v.isScalar) : below strict path parent trail v = {} := by
  cases v <;> first | rfl | cases h

variable {path} {k : String} {v : Value}

theorem entry_differs (hk : path.isMatch k = false) :
    entry strict path parent trail (k, v) = missKey path parent trail k := by
  simp [entry, hk]

theorem entry_leads (hk : path.isMatch k) (hc : v.isContainer) (hn : path.advanced.hasNext) :
    entry strict path parent trail (k, v) =
      (single (.partly ⟨parent, k, v, path, trail ++ [k]⟩)).andThen
        (below strict path.advanced (parent.child (.key k)) (trail ++ [k]) v) := by
  simp [entry, hk, hc, hn]

theorem entry_ends (hk : path.isMatch k) (hn : ¬ (v.isContainer ∧ path.advanced.hasNext)) :
    entry strict path parent trail (k, v) =
      { events := [.fully ⟨parent, k, v, path, trail ++ [k]⟩], matched := true } := by
  have hb : (v.isContainer && path.advanced.hasNext) = false := by simpa using hn
  simp [entry, hk, hb]

theorem element_mapping {i : Nat} (hv : v.isMapping) :
    element strict path parent trail (v, i) =
      below strict path (parent.child (.index i)) trail v := by
  simp [element, hv]

theorem element_other {i : Nat} (hv : v.isMapping = false) :
    element strict path parent trail (v, i) =
      missItem strict path (parent.child (.index i)) trail v := by
  simp [element, hv]

/-- What comes of an entry: its key does not match, or the search goes on below it, or ends there. -/
inductive AtEntry (path : KeyPath) (k : String) (v : Value) : Prop
  | differs (hk : path.isMatch k = false)
  | leads (hk : path.isMatch k) (hc : v.isContainer) (hn : path.advanced.hasNext)
  | ends (hk : path.isMatch k) (hn : ¬ (v.isContainer ∧ path.advanced.hasNext))

theorem atEntry (path : KeyPath) (k : String) (v : Value) : AtEntry path k v := by
  cases hk : path.isMatch k with
  | false => exact .differs hk
  | true =>
    by_cases hn : v.isContainer ∧ path.advanced.hasNext
    · exact .leads hk hn.1 hn.2
    · exact .ends hk hn

variable {strict parent trail}

/-- What a walk meets at an entry: a key that does not match, a key where the search goes on, or a
key where it ends. -/
theorem mem_events_entry :
    e ∈ (entry strict path parent trail (k, v)).events ↔
      (path.isMatch k = false ∧ e = .miss ⟨parent, some k, path, trail⟩) ∨
      (path.isMatch k ∧ v.isContainer ∧ path.advanced.hasNext ∧
        (e = .partly ⟨parent, k, v, path, trail ++ [k]⟩ ∨
          e ∈ (below strict path.advanced (parent.child (.key k)) (trail ++ [k]) v).events)) ∨
      (path.isMatch k ∧ ¬ (v.isContainer ∧ path.advanced.hasNext) ∧
        e = .fully ⟨parent, k, v, path, trail ++ [k]⟩) := by
  cases atEntry path k v with
  | differs hk => simp [entry_differs strict parent trail hk, hk, missKey, single]
  | leads hk hc hn =>
    rw [entry_leads strict parent trail hk hc hn, events_andThen rfl]
    simp [hk, hc, hn, single]
  | ends hk hn =>
    rw [entry_ends strict parent trail hk hn]
    simp [hk, hn, ← and_assoc]

/-- What holds of the walks of single events, and of two walks one after another if it holds of
both, holds of all walks. -/
theorem below_induct {M : Walk → Prop} (empty : M {}) (miss : ∀ g, M (single (.miss g)))
    (item : ∀ path place trail v, M (missItem strict path place trail v))
    (partly : ∀ site, M (single (.partly site)))
    (fully : ∀ site, M { events := [.fully site], matched := true })
    (andThen : ∀ a b : Walk, M a → M b → M (a.andThen b)) (v : Value) :
    ∀ {path : KeyPath} {parent : Address} {trail : List String},
      M (below strict path parent trail v) := by
  have hjoin {ws : List Walk} (h : ∀ w ∈ ws, M w) : M (join ws) := by
    induction ws with
    | nil => exact empty
    | cons w ws ih =>
      exact andThen _ _ (h w List.mem_cons_self) (ih fun v hv => h v (List.mem_cons_of_mem w hv))
  induction v using Value.induct with
  | scalar v hv =>
    intro path parent trail
    rw [below_scalar strict path parent trail hv]
    exact empty
  | sequence items ih =>
    intro path parent trail
    rw [below_sequence]
    refine hjoin fun w hw => ?_
    obtain ⟨⟨c, i⟩, hi, rfl⟩ := List.mem_map.1 hw
    cases hc : c.isMapping with
    | true =>
      rw [element_mapping strict parent trail hc]
      exact ih c (List.fst_mem_of_mem_zipIdx hi)
    | false =>
      rw [element_other strict parent trail hc]
      exact item ..
  | mapping es ih =>
    intro path parent trail
    by_cases hes : es = []
    · subst hes
      exact miss _
    · rw [below_mapping strict path parent trail hes]
      refine hjoin fun w hw => ?_
      obtain ⟨⟨k, c⟩, hm, rfl⟩ := List.mem_map.1 hw
      cases atEntry path k c with
      | differs hk =>
        rw [entry_differs strict parent trail hk]
        exact miss _
      | leads hk hc hn =>
        rw [entry_leads strict parent trail hk hc hn]
        exact andThen _ _ (partly _) (ih (k, c) hm)
      | ends hk hn =>
        rw [entry_ends strict parent trail hk hn]
        exact fully _

/-- Only a strict walk stops. -/
theorem stop_below_lenient {v : Value} : (below false path parent trail v).stop = none := by
  refine below_induct (M := fun w => w.stop = none) ?_ ?_ ?_ ?_ ?_ ?_ v <;> intros <;> try rfl
  case refine_6 a b ha hb => exact stop_andThen.2 ⟨ha, hb⟩

end Walk

/-! ### Nodes and their events -/

/-- The walk below a node gets to another one: its address from here, the path as far as it has not
been used there, and the node. -/
inductive Reaches : KeyPath → Value → Address → KeyPath → Value → Prop
  | here (path : KeyPath) (v : Value) : Reaches path v [] path v
  | entry {path p : KeyPath} {es : List (String × Value)} {k : String} {c w : Value} {a : Address} :
      (k, c) ∈ es → path.isMatch k → c.isContainer → path.advanced.hasNext →
      Reaches path.advanced c a p w → Reaches path (.mapping es) (.key k :: a) p w
  | element {path p : KeyPath} {items : List Value} {i : Nat} {c w : Value} {a : Address} :
      items[i]? = some c → c.isMapping → Reaches path c a p w →
      Reaches path (.sequence items) (.index i :: a) p w

theorem Reaches.trans {path p q : KeyPath} {v w u : Value} {a b : Address}
    (h : Reaches path v a p w) (h' : Reaches p w b q u) : Reaches path v (a ++ b) q u := by
  induction h with
  | here => exact h'
  | entry hm hk hc hn _ ih => exact .entry hm hk hc hn (ih h')
  | element hi hc _ ih => exact .element hi hc (ih h')

/-- The events that a node gives rise to by itself. -/
inductive Own (path : KeyPath) (parent : Address) (trail : List String) : Value → Event → Prop
  | empty : Own path parent trail (.mapping []) (.miss ⟨parent, none, path, trail⟩)
  | differs {es : List (String × Value)} {k : String} {c : Value} :
      (k, c) ∈ es → path.isMatch k = false →
      Own path parent trail (.mapping es) (.miss ⟨parent, some k, path, trail⟩)
  | leads {es : List (String × Value)} {k : String} {c : Value} :
      (k, c) ∈ es → path.isMatch k → c.isContainer → path.advanced.hasNext →
      Own path parent trail (.mapping es) (.partly ⟨parent, k, c, path, trail ++ [k]⟩)
  | ends {es : List (String × Value)} {k : String} {c : Value} :
      (k, c) ∈ es → path.isMatch k → ¬ (c.isContainer ∧ path.advanced.hasNext) →
      Own path parent trail (.mapping es) (.fully ⟨parent, k, c, path, trail ++ [k]⟩)
  | item {items : List Value} {i : Nat} {c : Value} :
      items[i]? = some c → c.isMapping = false →
      Own path parent trail (.sequence items) (.miss ⟨parent.child (.index i), none, path, trail⟩)

/-- An event of a node that the walk below this one gets to. -/
def Found (path : KeyPath) (parent : Address) (trail : List String) (v : Value) (e : Event) : Prop :=
  ∃ a p w, Reaches path v a p w ∧ Own p (parent ++ a) (trail ++ a.keys) w e

section Found

variable {strict : Bool} {path : KeyPath} {parent : Address} {trail : List String} {e : Event}

theorem Found.of_own {v : Value} (h : Own path parent trail v e) : Found path parent trail v e :=
  ⟨[], path, v, .here path v, by simpa [Address.keys] using h⟩

theorem found_entry {es : List (String × Value)} {k : String} {c : Value} (hm : (k, c) ∈ es)
    (hk : path.isMatch k) (hc : c.isContainer) (hn : path.advanced.hasNext)
    (h : Found path.advanced (parent.child (.key k)) (trail ++ [k]) c e) :
    Found path parent trail (.mapping es) e := by
  obtain ⟨a, p, w, hr, ho⟩ := h
  refine ⟨.key k :: a, p, w, .entry hm hk hc hn hr, ?_⟩
  simpa [Address.keys, Address.child] using ho

theorem found_element {items : List Value} {i : Nat} {c : Value} (hi : items[i]? = some c)
    (hc : c.isMapping) (h : Found path (parent.child (.index i)) trail c e) :
    Found path parent trail (.sequence items) e := by
  obtain ⟨a, p, w, hr, ho⟩ := h
  refine ⟨.index i :: a, p, w, .element hi hc hr, ?_⟩
  simpa [Address.keys, Address.child] using ho

/-- Every event of a walk is an event of a node that the walk gets to. -/
theorem found_of_mem_events {v : Value} :
    e ∈ (Walk.below strict path parent trail v).events → Found path parent trail v e := by
  induction v using Value.induct generalizing path parent trail with
  | scalar v hv =>
    rw [Walk.below_scalar strict path parent trail hv]
    simp
  | sequence items ih =>
    rw [Walk.below_sequence]
    intro h
    obtain ⟨w, hw, he, -⟩ := Walk.exists_of_mem_events_join h
    obtain ⟨⟨c, i⟩, hi, rfl⟩ := List.mem_map.1 hw
    have hi : items[i]? = some c := List.mem_zipIdx_iff_getElem?.1 hi
    cases hc : c.isMapping
    · rw [Walk.element_other strict parent trail hc] at he
      obtain rfl : e = _ := List.mem_singleton.1 he
      exact .of_own (.item hi hc)
    · rw [Walk.element_mapping strict parent trail hc] at he
      exact found_element hi hc (ih c (List.mem_of_getElem? hi) he)
  | mapping es ih =>
    by_cases hes : es = []
    · subst hes
      intro h
      obtain rfl : e = _ := List.mem_singleton.1 h
      exact .of_own .empty
    · rw [Walk.below_mapping strict path parent trail hes]
      intro h
      obtain ⟨w, hw, he, -⟩ := Walk.exists_of_mem_events_join h
      obtain ⟨⟨k, c⟩, hm, rfl⟩ := List.mem_map.1 hw
      rcases Walk.mem_events_entry.1 he with ⟨hk, rfl⟩ | ⟨hk, hc, hn, rfl | he⟩ | ⟨hk, hn, rfl⟩
      · exact .of_own (.differs hm hk)
      · exact .of_own (.leads hm hk hc hn)
      · exact found_entry hm hk hc hn (ih (k, c) hm he)
      · exact .of_own (.ends hm hk hn)

/-- A walk below a sequence that does not stop does not stop at its elements. -/
theorem stop_element {items : List Value}
    (h : (Walk.below strict path parent trail (.sequence items)).stop = none) {i : Nat} {c : Value}
    (hi : items[i]? = some c) : (Walk.element strict path parent trail (c, i)).stop = none := by
  rw [Walk.below_sequence, Walk.stop_join] at h
  exact h _ (List.mem_map_of_mem (List.mem_zipIdx_iff_getElem?.2 hi))

theorem stop_entry {es : List (String × Value)}
    (h : (Walk.below strict path parent trail (.mapping es)).stop = none) {e : String × Value}
    (hm : e ∈ es) : (Walk.entry strict path parent trail e).stop = none := by
  rw [Walk.below_mapping strict path parent trail (List.ne_nil_of_mem hm), Walk.stop_join] at h
  exact h _ (List.mem_map_of_mem hm)

theorem mem_events_of_element {items : List Value}
    (h : (Walk.below strict path parent trail (.sequence items)).stop = none) {i : Nat} {c : Value}
    (hi : items[i]? = some c) (he : e ∈ (Walk.element strict path parent trail (c, i)).events) :
    e ∈ (Walk.below strict path parent trail (.sequence items)).events := by
  rw [Walk.below_sequence] at h ⊢
  rw [Walk.events_join (Walk.stop_join.1 h), List.mem_flatMap]
  exact ⟨_, List.mem_map_of_mem (List.mem_zipIdx_iff_getElem?.2 hi), he⟩

theorem mem_events_of_entry {es : List (String × Value)}
    (h : (Walk.below strict path parent trail (.mapping es)).stop = none) {f : String × Value}
    (hm : f ∈ es) (he : e ∈ (Walk.entry strict path parent trail f).events) :
    e ∈ (Walk.below strict path parent trail (.mapping es)).events := by
  rw [Walk.below_mapping strict path parent trail (List.ne_nil_of_mem hm)] at h ⊢
  rw [Walk.events_join (Walk.stop_join.1 h), List.mem_flatMap]
  exact ⟨_, List.mem_map_of_mem hm, he⟩

/-- A walk that does not stop meets the events of its first node. -/
theorem mem_events_of_own {v : Value} (h : (Walk.below strict path parent trail v).stop = none)
    (ho : Own path parent trail v e) : e ∈ (Walk.below strict path parent trail v).events := by
  cases ho with
  | empty => exact List.mem_singleton.2 rfl
  | differs hm hk => exact mem_events_of_entry h hm (Walk.mem_events_entry.2 (.inl ⟨hk, rfl⟩))
  | leads hm hk hc hn =>
    exact mem_events_of_entry h hm
      (Walk.mem_events_entry.2 (.inr (.inl ⟨hk, hc, hn, .inl rfl⟩)))
  | ends hm hk hn =>
    exact mem_events_of_entry h hm (Walk.mem_events_entry.2 (.inr (.inr ⟨hk, hn, rfl⟩)))
  | item hi hc =>
    refine mem_events_of_element h hi ?_
    rw [Walk.element_other strict parent trail hc]
    exact List.mem_singleton.2 rfl

/-- A walk that does not stop does not stop below any node it gets to. -/
theorem stop_of_reaches {v w : Value} {a : Address} {p : KeyPath} (hr : Reaches path v a p w) :
    (Walk.below strict path parent trail v).stop = none →
      (Walk.below strict p (parent ++ a) (trail ++ a.keys) w).stop = none := by
  induction hr generalizing parent trail with
  | here path v =>
    intro h
    simpa [Address.keys] using h
  | entry hm hk hc hn hr ih =>
    intro h
    have hs := stop_entry h hm
    rw [Walk.entry_leads strict parent trail hk hc hn] at hs
    simpa [Address.keys, Address.child] using ih (Walk.stop_andThen.1 hs).2
  | element hi hc hr ih =>
    intro h
    have hs := stop_element h hi
    rw [Walk.element_mapping strict parent trail hc] at hs
    simpa [Address.keys, Address.child] using ih hs

/-- A strict walk that does not stop finds only mappings in the sequences it gets to. -/
theorem isMapping_of_reaches {doc : Value} (h : (doc.walk true path).stop = none) {a : Address}
    {p : KeyPath} {items : List Value} (hr : Reaches path doc a p (.sequence items)) {i : Nat}
    {c : Value} (hi : items[i]? = some c) : c.isMapping := by
  have hs := stop_element (stop_of_reaches hr h) hi
  cases hc : c.isMapping with
  | true => rfl
  | false =>
    rw [Walk.element_other true _ _ hc] at hs
    simp [Walk.missItem] at hs

/-- A walk that does not stop meets every event of every node it gets to. -/
theorem mem_events_of_reaches {v w : Value} {a : Address} {p : KeyPath} (hr : Reaches path v a p w) :
    (Walk.below strict path parent trail v).stop = none →
      Own p (parent ++ a) (trail ++ a.keys) w e →
        e ∈ (Walk.below strict path parent trail v).events := by
  induction hr generalizing parent trail with
  | here path v =>
    intro h ho
    exact mem_events_of_own h (by simpa [Address.keys] using ho)
  | @entry path p es k c w a hm hk hc hn hr ih =>
    intro h ho
    have hs : (Walk.below strict path.advanced (parent.child (.key k)) (trail ++ [k]) c).stop =
        none := by
      have hs := stop_entry h hm
      rw [Walk.entry_leads strict parent trail hk hc hn] at hs
      exact (Walk.stop_andThen.1 hs).2
    refine mem_events_of_entry h hm (Walk.mem_events_entry.2 (.inr (.inl ⟨hk, hc, hn, .inr ?_⟩)))
    exact ih hs (by simpa [Address.keys, Address.child] using ho)
  | @element path p items i c w a hi hc hr ih =>
    intro h ho
    have hs := stop_element h hi
    rw [Walk.element_mapping strict parent trail hc] at hs
    refine mem_events_of_element h hi ?_
    rw [Walk.element_mapping strict parent trail hc]
    exact ih hs (by simpa [Address.keys, Address.child] using ho)

/-- The events of a walk that does not stop are those of the nodes it gets to. -/
theorem mem_events_iff {doc : Value} (h : (doc.walk strict path).stop = none) :
    e ∈ (doc.walk strict path).events ↔
      ∃ a p w, Reaches path doc a p w ∧ Own p a a.keys w e := by
  constructor
  · intro he
    obtain ⟨a, p, w, hr, ho⟩ := found_of_mem_events he
    exact ⟨a, p, w, hr, by simpa [Address.root] using ho⟩
  · rintro ⟨a, p, w, hr, ho⟩
    exact mem_events_of_reaches hr h (by simpa [Address.root] using ho)

end Found

end YamlQuery

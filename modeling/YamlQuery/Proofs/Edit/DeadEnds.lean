import Mathlib.Data.List.Nodup
import YamlQuery.Edit.Insert
import YamlQuery.Proofs.Walk.Matches

/-!
# Proofs.Edit.DeadEnds — the places of a walk where no key matches

A mapping is `Value.Barren` if the walk visits it and none of its keys matches there.  A walk that is
not strict passes over the elements of sequences that are no mappings, and notes them down like such
a mapping; `Value.Skips` names them by addresses alone.  Both are the dead ends of the walk
(`Value.DeadEnd`), and none of them lies above another, or above or below a key where the walk ends.

What a walk notes down, the levels where keys match and the places without a match, comes to the dead
ends (`Walk.mem_misses_not_level_iff`).
-/

namespace YamlQuery

/-! ### Mappings without a key that matches -/

/-- A mapping that the walk visits and of whose keys none matches there. -/
def Value.Barren (doc : Value) (path : KeyPath) (a : Address) : Prop :=
  ∃ es, doc.Visits path a es ∧ ∀ k ∈ Entries.keys es, (path.skip a.keys.length).isMatch k = false

/-- A mapping that the walk visits and of whose keys one matches there. -/
def Value.Fertile (doc : Value) (path : KeyPath) (a : Address) : Prop :=
  ∃ es, doc.Visits path a es ∧ ∃ k ∈ Entries.keys es, (path.skip a.keys.length).isMatch k

/-- The path leads nowhere below a barren mapping. -/
theorem Value.Barren.eq_of_prefix {doc v : Value} {path : KeyPath} {a b : Address}
    (h : doc.Barren path a) (hb : path.Along (Address.keys b)) (hv : doc.get? b = some v)
    (hab : a <+: b) : a = b := by
  obtain ⟨es, hes, hbarren⟩ := h
  obtain ⟨b, rfl⟩ := hab
  cases b with
  | nil => simp
  | cons s b =>
    rw [Value.get?_append, hes.node, Option.bind_some, Value.get?_cons] at hv
    obtain ⟨c, hc, -⟩ := Option.bind_eq_some_iff.1 hv
    obtain ⟨fs, k, hfs, rfl, hk⟩ | ⟨_, _, h, -⟩ := Value.child?_eq_some_iff.1 hc
    · cases hfs
      rw [Address.keys_append] at hb
      have hkey := (KeyPath.along_append.1 hb).2
      have hmatch := (KeyPath.along_cons.1 hkey).1
      rw [hbarren k (Entries.mem_keys.2 ⟨c, Entries.mem_of_get? hk⟩)] at hmatch
      cases hmatch
    · cases h

/-! ### Elements that are passed over -/

/-- An element of a sequence that the walk comes to and passes over, since it is no mapping. -/
structure Value.Skips (doc : Value) (path : KeyPath) (a : Address) : Prop where
  element : ∃ b i, a = Address.child b (.index i)
  node : ∃ v, doc.get? a = some v ∧ v.isMapping = false
  sparse : a.Sparse
  along : path.Along a.keys
  more : a.keys.length < path.remaining.length

namespace Address

theorem child_key_ne_child_index {a b : Address} {k : String} {i : Nat} :
    a.child (.key k) ≠ b.child (.index i) := by
  intro h
  have hlast := (List.append_inj' h rfl).2
  simp at hlast

theorem Sparse.of_append {a b : Address} (h : Sparse (a ++ b)) : a.Sparse :=
  List.IsChain.left_of_append h

/-- A key may come behind anything. -/
theorem Sparse.child_key {a : Address} (h : a.Sparse) (k : String) : (a.child (.key k)).Sparse := by
  refine List.isChain_append.2 ⟨h, List.IsChain.singleton _, ?_⟩
  rintro s - t ht ⟨-, hkey⟩
  obtain rfl : Step.key k = t := by simpa using ht
  cases hkey

/-- No index comes right behind an index. -/
theorem Sparse.not_index_index {a b : Address} {i j : Nat} :
    ¬ Sparse (a.child (.index i) ++ .index j :: b) := by
  intro h
  rw [child, List.append_assoc] at h
  exact (List.isChain_cons_cons.1 (List.IsChain.right_of_append h)).1 ⟨rfl, rfl⟩

end Address

/-- The walk gets to a sequence by a key, or it is the document. -/
theorem Reaches.sparse_child {path p : KeyPath} {v w : Value} {a : Address}
    (h : Reaches path v a p w) (hw : w.isMapping = false) (i : Nat) :
    (a.child (.index i)).Sparse := by
  induction h with
  | here => exact List.IsChain.singleton _
  | entry _ _ _ _ _ ih =>
    refine List.isChain_cons.2 ⟨?_, ih hw⟩
    rintro t - ⟨hkey, -⟩
    cases hkey
  | element _ hc hr ih =>
    cases hr with
    | here => rw [hw] at hc; cases hc
    | entry => exact List.isChain_cons_cons.2 ⟨by simp [Step.isIndex], ih hw⟩
    | element => cases hc

namespace Value

variable {doc v : Value} {path : KeyPath} {a b : Address}

/-- The elements that are passed over are those of the sequences that the walk gets to. -/
theorem skips_iff (hd : doc.Distinct) (hp : path.hasNext) :
    doc.Skips path a ↔ ∃ b p items i c, Reaches path doc b p (.sequence items) ∧
      items[i]? = some c ∧ c.isMapping = false ∧ a = b.child (.index i) := by
  constructor
  · rintro ⟨⟨b, i, rfl⟩, ⟨c, hc, hm⟩, hs, hal, hmore⟩
    rw [get?_child] at hc
    obtain ⟨u, hu, hi⟩ := Option.bind_eq_some_iff.1 hc
    obtain ⟨_, _, _, h, -⟩ | ⟨items, j, rfl, hj, hi⟩ := child?_eq_some_iff.1 hi
    · cases h
    · cases hj
      rw [Address.keys_child_index] at hal hmore
      exact ⟨b, _, items, i, c,
        .of_get? rfl hu hs.of_append (.inr ⟨i, hs⟩) hal hmore, hi, hm, rfl⟩
  · rintro ⟨b, p, items, i, c, hr, hi, hm, rfl⟩
    refine ⟨⟨b, i, rfl⟩, ⟨c, ?_, hm⟩, hr.sparse_child rfl i, ?_, ?_⟩
    · rw [get?_child, hr.get? hd]
      exact hi
    · rw [Address.keys_child_index]
      exact hr.along
    · rw [Address.keys_child_index]
      exact hr.more hp

theorem Skips.hasNext (h : doc.Skips path a) : path.hasNext :=
  KeyPath.hasNext_iff.2 (List.length_pos_iff.1 (Nat.zero_lt_of_lt h.more))

/-- A strict walk that does not stop has passed over nothing. -/
theorem not_skips_of_strict (hd : doc.Distinct) (h : (doc.walk true path).stop = none) :
    ¬ doc.Skips path a := by
  intro ha
  obtain ⟨b, p, items, i, c, hr, hi, hm, -⟩ := (skips_iff hd ha.hasNext).1 ha
  rw [isMapping_of_reaches h hr hi] at hm
  cases hm

/-! ### Dead ends -/

/-- A place of the walk where no key matches: a mapping without such a key, or an element of a
sequence that is passed over. -/
def DeadEnd (doc : Value) (path : KeyPath) (a : Address) : Prop :=
  doc.Barren path a ∨ doc.Skips path a

namespace DeadEnd

theorem sparse (h : doc.DeadEnd path a) : a.Sparse := by
  rcases h with ⟨es, hv, -⟩ | h
  · exact hv.sparse
  · exact h.sparse

theorem along (h : doc.DeadEnd path a) : path.Along a.keys := by
  rcases h with ⟨es, hv, -⟩ | h
  · exact hv.along
  · exact h.along

theorem more (h : doc.DeadEnd path a) : a.keys.length < path.remaining.length := by
  rcases h with ⟨es, hv, -⟩ | h
  · exact hv.more
  · exact h.more

theorem exists_get? (h : doc.DeadEnd path a) : ∃ v, doc.get? a = some v := by
  rcases h with ⟨es, hv, -⟩ | h
  · exact ⟨_, hv.node⟩
  · obtain ⟨v, hv, -⟩ := h.node
    exact ⟨v, hv⟩

/-- The path leads nowhere below a dead end. -/
theorem eq_of_prefix (h : doc.DeadEnd path a) (hs : b.Sparse) (hal : path.Along b.keys)
    (hv : doc.get? b = some v) (hab : a <+: b) : a = b := by
  rcases h with h | h
  · exact h.eq_of_prefix hal hv hab
  · obtain ⟨c, rfl⟩ := hab
    cases c with
    | nil => simp
    | cons s c =>
      obtain ⟨u, hu, hm⟩ := h.node
      obtain ⟨d, i, rfl⟩ := h.element
      rw [get?_append, hu, Option.bind_some, get?_cons] at hv
      obtain ⟨w, hw, -⟩ := Option.bind_eq_some_iff.1 hv
      obtain ⟨es, k, rfl, -, -⟩ | ⟨items, j, rfl, rfl, -⟩ := child?_eq_some_iff.1 hw
      · cases hm
      · exact absurd hs Address.Sparse.not_index_index

theorem apart (ha : doc.DeadEnd path a) (hb : doc.DeadEnd path b) (hne : a ≠ b) : a.Apart b := by
  obtain ⟨v, hv⟩ := ha.exists_get?
  obtain ⟨w, hw⟩ := hb.exists_get?
  exact ⟨fun hab => hne (ha.eq_of_prefix hb.sparse hb.along hw hab),
    fun hba => hne (hb.eq_of_prefix ha.sparse ha.along hv hba).symm⟩

/-- Distinct dead ends do not lie above each other. -/
theorem pairwise_apart {as : List Address} (h : as.Nodup) (has : ∀ a ∈ as, doc.DeadEnd path a) :
    as.Pairwise Address.Apart := by
  refine h.pairwise_of_forall_ne ?_
  intro a ha b hb hne
  exact (has a ha).apart (has b hb) hne

end DeadEnd

theorem Ends.sparse_address {t : Target} (h : doc.Ends path t) : t.address.Sparse :=
  h.sparse.child_key t.key

/-- A node at or below a key where the walk ends uses up the path, or it is a scalar at the key. -/
theorem Ends.eq_of_prefix {t : Target} (h : doc.Ends path t) (hv : doc.get? a = some v)
    (hmore : a.keys.length < path.remaining.length) (hta : t.address <+: a) :
    t.address = a ∧ v.isScalar := by
  obtain ⟨b, rfl⟩ := hta
  obtain ⟨-, -, u, hu, hlast⟩ := ends_iff.1 h
  rw [get?_append, hu, Option.bind_some] at hv
  rcases hlast with hlen | hscalar
  · rw [Address.keys_append, t.keys_address, List.length_append] at hmore
    omega
  · obtain rfl := eq_nil_of_isScalar hscalar hv
    obtain rfl : u = v := by simpa using hv
    exact ⟨(List.append_nil _).symm, hscalar⟩

theorem Ends.not_prefix {t : Target} (h : doc.Ends path t) (ha : doc.DeadEnd path a) :
    ¬ t.address <+: a := by
  intro hta
  obtain ⟨v, hv⟩ := ha.exists_get?
  obtain ⟨heq, hscalar⟩ := h.eq_of_prefix hv ha.more hta
  rcases ha with ⟨es, hvisits, -⟩ | hskips
  · rw [hvisits.node] at hv
    cases hv
    cases hscalar
  · obtain ⟨b, i, hb⟩ := hskips.element
    exact Address.child_key_ne_child_index (heq.trans hb)

/-- A dead end lies neither above nor below a key where the walk ends. -/
theorem Ends.apart_deadEnd {t : Target} (h : doc.Ends path t) (ha : doc.DeadEnd path a) :
    t.address.Apart a := by
  refine ⟨h.not_prefix ha, fun hat => h.not_prefix ha ?_⟩
  obtain ⟨v, hv⟩ := h.exists_get?
  have heq := ha.eq_of_prefix h.sparse_address (t.keys_address ▸ h.along) hv hat
  exact heq ▸ List.prefix_rfl

end Value

/-! ### What a walk notes down -/

namespace Event

/-- The address and the cursor where a key matches. -/
def level? : Event → Option (Address × Nat)
  | .partly site | .fully site => some (site.parent, site.path.cursor)
  | .miss _ => none

/-- The place where nothing matches. -/
def missing? : Event → Option Missing
  | .miss gap => some ⟨gap.parent, gap.path⟩
  | _ => none

end Event

namespace Walk

def levels (w : Walk) : List (Address × Nat) := w.events.filterMap Event.level?

def misses (w : Walk) : List Missing := w.events.filterMap Event.missing?

variable {strict : Bool} {path : KeyPath} {doc : Value} {m : Missing}

/-- The keys that match do so in a mapping that the walk visits. -/
theorem mem_levels_iff (hd : doc.Distinct) (hp : path.hasNext)
    (h : (doc.walk strict path).stop = none) {l : Address × Nat} :
    l ∈ (doc.walk strict path).levels ↔
      doc.Fertile path l.1 ∧ path.cursor + (Address.keys l.1).length = l.2 := by
  obtain ⟨a, n⟩ := l
  rw [levels, List.mem_filterMap]
  dsimp only
  constructor
  · rintro ⟨e, he, hl⟩
    obtain ⟨b, p, w, hr, ho⟩ := (mem_events_iff h).1 he
    have hpath := hr.path_eq
    cases ho with
    | leads hmem hk | ends hmem hk =>
      cases hl
      refine ⟨⟨_, (Value.visits_iff hd hp).2 ⟨_, hr⟩, _, Entries.mem_keys.2 ⟨_, hmem⟩, ?_⟩, ?_⟩
      · rwa [← hpath]
      · rw [hpath]
        rfl
    | empty | differs | item => cases hl
  · rintro ⟨⟨es, hv, k, hk, hmatch⟩, rfl⟩
    obtain ⟨v, hmem⟩ := Entries.mem_keys.1 hk
    by_cases hn : v.isContainer ∧ (path.skip (Address.keys a).length).advanced.hasNext
    · exact ⟨_, (mem_events_iff h).2 ⟨_, _, _, hv.reaches, .leads hmem hmatch hn.1 hn.2⟩, rfl⟩
    · exact ⟨_, (mem_events_iff h).2 ⟨_, _, _, hv.reaches, .ends hmem hmatch hn⟩, rfl⟩

/-- The places without a match are the elements that are passed over, and the mappings that are
empty or have a key that does not match. -/
theorem mem_misses_iff (hd : doc.Distinct) (hp : path.hasNext)
    (h : (doc.walk strict path).stop = none) :
    m ∈ (doc.walk strict path).misses ↔ m.path = path.skip (Address.keys m.parent).length ∧
      (doc.Skips path m.parent ∨ ∃ es, doc.Visits path m.parent es ∧
        (es = [] ∨ ∃ k ∈ Entries.keys es, m.path.isMatch k = false)) := by
  obtain ⟨a, q⟩ := m
  rw [misses, List.mem_filterMap]
  dsimp only
  constructor
  · rintro ⟨e, he, hm⟩
    obtain ⟨b, p, w, hr, ho⟩ := (mem_events_iff h).1 he
    have hpath := hr.path_eq
    cases ho with
    | empty =>
      cases hm
      exact ⟨hpath, .inr ⟨[], (Value.visits_iff hd hp).2 ⟨_, hr⟩, .inl rfl⟩⟩
    | differs hmem hk =>
      cases hm
      exact ⟨hpath, .inr ⟨_, (Value.visits_iff hd hp).2 ⟨_, hr⟩,
        .inr ⟨_, Entries.mem_keys.2 ⟨_, hmem⟩, hk⟩⟩⟩
    | item hi hc =>
      cases hm
      refine ⟨?_, .inl ((Value.skips_iff hd hp).2 ⟨_, _, _, _, _, hr, hi, hc, rfl⟩)⟩
      rw [Address.keys_child_index]
      exact hpath
    | leads | ends => cases hm
  · rintro ⟨rfl, ha | ⟨es, hv, hes⟩⟩
    · obtain ⟨b, p, items, i, c, hr, hi, hc, rfl⟩ := (Value.skips_iff hd hp).1 ha
      rw [Address.keys_child_index, ← hr.path_eq]
      exact ⟨_, (mem_events_iff h).2 ⟨_, _, _, hr, .item hi hc⟩, rfl⟩
    · rcases hes with rfl | ⟨k, hk, hmatch⟩
      · exact ⟨_, (mem_events_iff h).2 ⟨_, _, _, hv.reaches, .empty⟩, rfl⟩
      · obtain ⟨v, hmem⟩ := Entries.mem_keys.1 hk
        exact ⟨_, (mem_events_iff h).2 ⟨_, _, _, hv.reaches, .differs hmem hmatch⟩, rfl⟩

/-- The places without a match where no key has matched are the dead ends. -/
theorem mem_misses_not_level_iff (hd : doc.Distinct) (hp : path.hasNext)
    (h : (doc.walk strict path).stop = none) :
    m ∈ (doc.walk strict path).misses ∧
        (m.parent, m.path.cursor) ∉ (doc.walk strict path).levels ↔
      doc.DeadEnd path m.parent ∧ m.path = path.skip (Address.keys m.parent).length := by
  rw [mem_misses_iff hd hp h, mem_levels_iff hd hp h]
  constructor
  · rintro ⟨⟨hpath, hm⟩, hl⟩
    refine ⟨?_, hpath⟩
    rcases hm with hm | ⟨es, hv, -⟩
    · exact .inr hm
    · refine .inl ⟨es, hv, fun k hk => ?_⟩
      by_contra hmatch
      rw [Bool.not_eq_false] at hmatch
      exact hl ⟨⟨es, hv, k, hk, hmatch⟩, by rw [hpath]; rfl⟩
  · rintro ⟨⟨es, hv, hbarren⟩ | hm, hpath⟩
    · refine ⟨⟨hpath, .inr ⟨es, hv, ?_⟩⟩, ?_⟩
      · cases es with
        | nil => exact .inl rfl
        | cons e es =>
          have hkey : e.1 ∈ Entries.keys (e :: es) := List.mem_cons_self
          exact .inr ⟨e.1, hkey, hpath ▸ hbarren e.1 hkey⟩
      · rintro ⟨⟨fs, hv', k, hk, hmatch⟩, -⟩
        obtain rfl : fs = es := by simpa [hv.node] using hv'.node.symm
        rw [hbarren k hk] at hmatch
        cases hmatch
    · refine ⟨⟨hpath, .inl hm⟩, ?_⟩
      rintro ⟨⟨es, hv, -⟩, -⟩
      obtain ⟨v, hnode, hv'⟩ := hm.node
      obtain rfl : v = .mapping es := by simpa [hv.node] using hnode.symm
      cases hv'

end Walk

end YamlQuery

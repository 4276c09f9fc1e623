import Mathlib.Data.List.Chain
import Mathlib.Data.List.Forall2
import YamlQuery.Edit.Visitor
import YamlQuery.Proofs.Walk.Events

/-!
# Proofs.Walk.Matches — the keys that a path leads to

`Value.Visits` and `Value.Ends` say by addresses alone which mappings a walk visits and at which
keys it ends: the keys on the way match the segments of the path one by one, and an index only leads
to a mapping in a sequence.  `Precedes` is the order of the document.

A walk that does not stop ends at exactly these keys, each once and in the order of the document
(`Visitor.ends_of_run`).
-/

namespace YamlQuery

/-! ### Addresses along a path -/

def Step.isIndex : Step → Bool
  | .index _ => true
  | .key _ => false

/-- No index comes right after another one: every index leads to something with keys. -/
def Address.Sparse (a : Address) : Prop := a.IsChain fun s t => ¬ (s.isIndex ∧ t.isIndex)

/-- The keys match the segments from the cursor on, one by one. -/
def KeyPath.Along (path : KeyPath) (keys : List String) : Prop :=
  List.Forall₂ (fun s k => s.isMatch k) (path.remaining.take keys.length) keys

namespace KeyPath

variable {path : KeyPath} {k : String} {ks ls : List String}

theorem along_nil : path.Along [] := by simp [Along]

theorem along_cons : path.Along (k :: ks) ↔ path.isMatch k ∧ path.advanced.Along ks := by
  rw [isMatch_iff]
  unfold Along
  rw [remaining_advanced]
  cases path.remaining with
  | nil => simp
  | cons s ss => simp [List.forall₂_cons]

theorem Along.length_le (h : path.Along ks) : ks.length ≤ path.remaining.length := by
  have := List.Forall₂.length_eq h
  rw [List.length_take] at this
  omega

theorem along_append :
    ∀ {ks : List String} {path : KeyPath},
      path.Along (ks ++ ls) ↔ path.Along ks ∧ (path.skip ks.length).Along ls
  | [], path => by simp [along_nil, skip]
  | k :: ks, path => by
    rw [List.cons_append, along_cons, along_cons, along_append, and_assoc]
    refine and_congr_right fun hk => ?_
    rw [advanced_eq_skip (hasNext_of_isMatch hk), skip, skip, skip, List.length_cons,
      Nat.add_assoc, Nat.add_comm 1]

end KeyPath

@[simp] theorem Address.keys_key (k : String) (a : Address) :
    Address.keys (.key k :: a) = k :: a.keys := rfl

@[simp] theorem Address.keys_index (i : Nat) (a : Address) :
    Address.keys (.index i :: a) = a.keys := rfl

theorem Address.keys_append (a b : Address) : Address.keys (a ++ b) = a.keys ++ b.keys :=
  List.filterMap_append

theorem Address.keys_child_index (a : Address) (i : Nat) :
    Address.keys (a.child (.index i)) = a.keys := by
  rw [child, keys_append]
  exact List.append_nil _

theorem Address.Sparse.tail {s : Step} {a : Address} (h : Sparse (s :: a)) : a.Sparse :=
  List.IsChain.tail h

/-- The walk along the path visits a mapping at the address. -/
structure Value.Visits (doc : Value) (path : KeyPath) (a : Address) (es : Entries Value) :
    Prop where
  node : doc.get? a = some (.mapping es)
  sparse : a.Sparse
  along : path.Along a.keys
  more : a.keys.length < path.remaining.length

namespace Reaches

variable {path p : KeyPath} {v w : Value} {a : Address}

theorem get? (h : Reaches path v a p w) (hd : v.Distinct) : v.get? a = some w := by
  induction h with
  | here => simp
  | entry hm _ _ _ _ ih =>
    rw [Value.get?_cons, Value.child?, (Entries.get?_eq_some_iff hd.1).2 hm, Option.bind_some]
    exact ih (Value.distinctEntries_iff.1 hd.2 _ hm)
  | element hi _ _ ih =>
    rw [Value.get?_cons, Value.child?, hi, Option.bind_some]
    exact ih (Value.distinctItems_iff.1 hd _ (List.mem_of_getElem? hi))

theorem along (h : Reaches path v a p w) : path.Along a.keys := by
  induction h with
  | here => exact KeyPath.along_nil
  | entry _ hk _ _ _ ih => exact KeyPath.along_cons.2 ⟨hk, ih⟩
  | element _ _ _ ih => exact ih

theorem path_eq (h : Reaches path v a p w) : p = path.skip a.keys.length := by
  induction h with
  | here => rfl
  | entry _ hk _ _ _ ih =>
    rw [ih, KeyPath.advanced_eq_skip (KeyPath.hasNext_of_isMatch hk), Address.keys_key]
    simp only [KeyPath.skip, List.length_cons, Nat.add_assoc, Nat.add_comm 1]
  | element _ _ _ ih => exact ih

theorem more (h : Reaches path v a p w) (hp : path.hasNext) :
    a.keys.length < path.remaining.length := by
  induction h with
  | here => exact List.length_pos_iff.2 (KeyPath.hasNext_iff.1 hp)
  | entry _ _ _ hn _ ih =>
    have := ih hn
    rw [KeyPath.remaining_advanced, List.length_tail] at this
    rw [Address.keys_key, List.length_cons]
    omega
  | element _ _ _ ih => exact ih hp

theorem sparse (h : Reaches path v a p w) : a.Sparse := by
  induction h with
  | here => exact List.IsChain.nil
  | @entry _ _ _ _ _ _ a _ _ _ _ _ ih =>
    cases a with
    | nil => exact List.IsChain.singleton _
    | cons s a => exact List.isChain_cons_cons.2 ⟨by simp [Step.isIndex], ih⟩
  | @element _ _ _ _ c _ a _ hc hr ih =>
    cases hr with
    | here => exact List.IsChain.singleton _
    | entry => exact List.isChain_cons_cons.2 ⟨by simp [Step.isIndex], ih⟩
    | element => cases hc

end Reaches

theorem Value.isContainer_of_child? {v c : Value} {s : Step} (h : v.child? s = some c) :
    v.isContainer := by
  obtain ⟨es, k, rfl, -, -⟩ | ⟨items, i, rfl, -, -⟩ := child?_eq_some_iff.1 h <;> rfl

theorem Value.isContainer_of_get? {v u : Value} {a : Address} (h : v.get? a = some u)
    (hu : u.isContainer) : v.isContainer := by
  cases a with
  | nil =>
    obtain rfl : v = u := by simpa using h
    exact hu
  | cons s a =>
    obtain ⟨c, hc, -⟩ := Option.bind_eq_some_iff.1 ((get?_cons v s a).symm.trans h)
    exact isContainer_of_child? hc

/-- There is nothing below a scalar. -/
theorem Value.eq_nil_of_isScalar {v u : Value} {a : Address} (hv : v.isScalar)
    (h : v.get? a = some u) : a = [] := by
  cases a with
  | nil => rfl
  | cons s a =>
    rw [get?_cons] at h
    obtain ⟨c, hc, -⟩ := Option.bind_eq_some_iff.1 h
    simp [isScalar, isContainer_of_child? hc] at hv

/-- The walk gets to every container that the keys on the way lead to, unless that is a sequence
right in a sequence. -/
theorem Reaches.of_get? {u : Value} (hu : u.isContainer) :
    ∀ {a : Address} {path : KeyPath} {doc : Value}, doc.get? a = some u → a.Sparse →
      (u.isMapping ∨ ∃ i, (a.child (.index i)).Sparse) → path.Along a.keys →
        a.keys.length < path.remaining.length →
          Reaches path doc a (path.skip (Address.keys a).length) u
  | [], path, doc, h, _, _, _, _ => by
    obtain rfl : doc = u := by simpa using h
    exact .here path _
  | s :: a, path, doc, h, hsparse, hlast, hal, hmore => by
    obtain ⟨c, hc, hnode⟩ := Option.bind_eq_some_iff.1 ((Value.get?_cons doc s a).symm.trans h)
    have htail : u.isMapping ∨ ∃ i, (Address.child a (.index i)).Sparse :=
      hlast.imp_right fun ⟨i, hi⟩ => ⟨i, Address.Sparse.tail hi⟩
    obtain ⟨fs, k, rfl, rfl, hk⟩ | ⟨items, i, rfl, rfl, hi⟩ := Value.child?_eq_some_iff.1 hc
    · obtain ⟨hm, ha⟩ := KeyPath.along_cons.1 hal
      have hrest : (Address.keys a).length < path.advanced.remaining.length := by
        rw [Address.keys_key, List.length_cons] at hmore
        rw [KeyPath.remaining_advanced, List.length_tail]
        omega
      have hn : path.advanced.hasNext :=
        KeyPath.hasNext_iff.2 (List.length_pos_iff.1 (Nat.zero_lt_of_lt hrest))
      have hskip : path.skip (Address.keys (.key k :: a)).length =
          path.advanced.skip (Address.keys a).length := by
        rw [KeyPath.advanced_eq_skip (KeyPath.hasNext_of_isMatch hm)]
        simp only [Address.keys_key, KeyPath.skip, List.length_cons, Nat.add_assoc, Nat.add_comm 1]
      rw [hskip]
      exact .entry (Entries.mem_of_get? hk) hm (Value.isContainer_of_get? hnode hu) hn
        (of_get? hu hnode hsparse.tail htail ha hrest)
    · have hmap : c.isMapping := by
        cases a with
        | nil =>
          obtain rfl : c = u := by simpa using hnode
          rcases hlast with hm | ⟨j, hj⟩
          · exact hm
          · exact absurd ⟨rfl, rfl⟩ (List.isChain_cons_cons.1 hj).1
        | cons t b =>
          rw [Value.get?_cons] at hnode
          obtain ⟨d, hd, -⟩ := Option.bind_eq_some_iff.1 hnode
          obtain ⟨fs, k, rfl, -, -⟩ | ⟨_, j, -, rfl, -⟩ := Value.child?_eq_some_iff.1 hd
          · rfl
          · exact absurd ⟨rfl, rfl⟩ (List.isChain_cons_cons.1 hsparse).1
      exact .element hi hmap (of_get? hu hnode hsparse.tail htail hal hmore)

/-- The walk gets to every mapping that `Visits` names. -/
theorem Value.Visits.reaches {a : Address} {path : KeyPath} {doc : Value} {es : Entries Value}
    (h : doc.Visits path a es) : Reaches path doc a (path.skip a.keys.length) (.mapping es) :=
  .of_get? rfl h.node h.sparse (.inl rfl) h.along h.more

theorem Value.visits_iff {doc : Value} {path : KeyPath} {a : Address} {es : Entries Value}
    (hd : doc.Distinct) (hp : path.hasNext) :
    doc.Visits path a es ↔ ∃ p, Reaches path doc a p (.mapping es) :=
  ⟨fun h => ⟨_, h.reaches⟩, fun ⟨_, h⟩ => ⟨h.get? hd, h.sparse, h.along, h.more hp⟩⟩

/-! ### The keys at which a walk ends -/

namespace Target

/-- The address of the value. -/
def address (t : Target) : Address := t.parent.child (.key t.key)

/-- The keys on the way to the value, its own included. -/
def keys (t : Target) : List String := t.parent.keys ++ [t.key]

theorem keys_address (t : Target) : Address.keys t.address = t.keys := Address.keys_append _ _

end Target

/-- The path leads to an entry: the keys on the way match its segments one by one, and either they
use them all or the value is a scalar, below which there is nothing to search. -/
structure Value.Ends (doc : Value) (path : KeyPath) (t : Target) : Prop where
  sparse : t.parent.Sparse
  along : path.Along t.keys
  entry : ∃ es v, doc.get? t.parent = some (.mapping es) ∧ Entries.get? t.key es = some v ∧
    (t.keys.length = path.remaining.length ∨ v.isScalar)

namespace Value

variable {doc : Value} {path : KeyPath}

theorem Visits.hasNext {a : Address} {es : Entries Value} (h : doc.Visits path a es) :
    path.hasNext :=
  KeyPath.hasNext_iff.2 (List.length_pos_iff.1 (Nat.zero_lt_of_lt h.more))

theorem Ends.hasNext {t : Target} (h : doc.Ends path t) : path.hasNext := by
  have := h.along.length_le
  rw [Target.keys, List.length_append, List.length_singleton] at this
  exact KeyPath.hasNext_iff.2 (List.length_pos_iff.1 (by omega))

/-- What a path leads to, by the value alone. -/
theorem ends_iff {t : Target} : doc.Ends path t ↔ t.parent.Sparse ∧ path.Along t.keys ∧
    ∃ v, doc.get? t.address = some v ∧ (t.keys.length = path.remaining.length ∨ v.isScalar) := by
  constructor
  · rintro ⟨hs, hal, es, v, hes, hv, hlast⟩
    refine ⟨hs, hal, v, ?_, hlast⟩
    rw [Target.address, get?_child, hes]
    exact hv
  · rintro ⟨hs, hal, v, hv, hlast⟩
    rw [Target.address, get?_child] at hv
    obtain ⟨u, hu, hv⟩ := Option.bind_eq_some_iff.1 hv
    obtain ⟨es, k, rfl, hk, hget⟩ | ⟨_, _, _, hk, -⟩ := child?_eq_some_iff.1 hv
    · cases hk
      exact ⟨hs, hal, es, v, hu, hget, hlast⟩
    · cases hk

theorem Ends.exists_get? {t : Target} (h : doc.Ends path t) : ∃ v, doc.get? t.address = some v := by
  obtain ⟨-, -, v, hv, -⟩ := ends_iff.1 h
  exact ⟨v, hv⟩

end Value

namespace Event

/-- The entry of a key that matches fully. -/
def end? : Event → Option Target
  | .fully site => some (.ofSite site)
  | _ => none

end Event

namespace Walk

/-- The entries of the keys that match fully, in the order in which the walk meets them. -/
def ends (w : Walk) : List Target := w.events.filterMap Event.end?

theorem mem_ends {w : Walk} {t : Target} :
    t ∈ w.ends ↔ ∃ site, .fully site ∈ w.events ∧ Target.ofSite site = t := by
  simp only [ends, List.mem_filterMap]
  constructor
  · rintro ⟨e, he, ht⟩
    cases e with
    | fully site => exact ⟨site, he, Option.some.inj ht⟩
    | partly | miss => cases ht
  · rintro ⟨site, he, rfl⟩
    exact ⟨_, he, rfl⟩

@[simp] theorem ends_missKey (path : KeyPath) (parent : Address) (trail : List String)
    (k : String) : (missKey path parent trail k).ends = [] := rfl

@[simp] theorem ends_missMapping (path : KeyPath) (parent : Address) (trail : List String) :
    (missMapping path parent trail).ends = [] := rfl

@[simp] theorem ends_missItem (strict : Bool) (path : KeyPath) (place : Address)
    (trail : List String) (item : Value) : (missItem strict path place trail item).ends = [] := rfl

@[simp] theorem ends_andThen_partly (site : Site) (w : Walk) :
    ((single (.partly site)).andThen w).ends = w.ends := rfl

theorem ends_join_sublist (ws : List Walk) : (join ws).ends.Sublist (ws.flatMap ends) := by
  have h := (events_join_sublist ws).filterMap Event.end?
  rwa [List.filterMap_flatMap] at h

/-- A walk has matched if it has ended at some key. -/
theorem matched_andThen {a b : Walk} (ha : a.matched = true ↔ a.ends ≠ [])
    (hb : b.matched = true ↔ b.ends ≠ []) :
    (a.andThen b).matched = true ↔ (a.andThen b).ends ≠ [] := by
  unfold andThen
  split
  · exact ha
  · simp only [ends, List.filterMap_append, Bool.or_eq_true, ne_eq, List.append_eq_nil_iff,
      not_and_or] at *
    rw [ha, hb]

theorem matched_iff {strict : Bool} {path : KeyPath} {parent : Address} {trail : List String}
    {v : Value} :
    (below strict path parent trail v).matched = true ↔
      (below strict path parent trail v).ends ≠ [] := by
  refine below_induct (M := fun w => w.matched = true ↔ w.ends ≠ []) ?_ ?_ ?_ ?_ ?_ ?_ v
  case refine_6 => exact fun a b ha hb => matched_andThen ha hb
  all_goals
    intros
    simp [single, missItem, ends, Event.end?]

theorem matched_walk (strict : Bool) (path : KeyPath) (doc : Value) :
    (doc.walk strict path).matched = decide (0 < (doc.walk strict path).ends.length) := by
  have hmatched : (doc.walk strict path).matched = true ↔ (doc.walk strict path).ends ≠ [] :=
    matched_iff
  rw [Bool.eq_iff_iff, hmatched, decide_eq_true_iff, List.length_pos_iff]

end Walk

/-- **Exactly the keys that the path leads to.** -/
theorem mem_ends_iff {strict : Bool} {path : KeyPath} {doc : Value} {t : Target}
    (hd : doc.Distinct) (hp : path.hasNext) (h : (doc.walk strict path).stop = none) :
    t ∈ (doc.walk strict path).ends ↔ doc.Ends path t := by
  rw [Walk.mem_ends]
  constructor
  · rintro ⟨site, he, rfl⟩
    obtain ⟨a, p, w, hr, ho⟩ := (mem_events_iff h).1 he
    cases ho with
    | @ends es k c hm hk hn =>
      have hv : doc.Visits path a es := (Value.visits_iff hd hp).2 ⟨p, hr⟩
      obtain rfl := hr.path_eq
      have hal : path.Along (a.keys ++ [k]) :=
        KeyPath.along_append.2 ⟨hr.along, KeyPath.along_cons.2 ⟨hk, KeyPath.along_nil⟩⟩
      have hes : Entries.Distinct es := (hd.get? hv.node).1
      refine ⟨hr.sparse, hal, es, c, hv.node, (Entries.get?_eq_some_iff hes).2 hm, ?_⟩
      rw [not_and_or] at hn
      rcases hn with hn | hn
      · exact .inr (by simpa [Value.isScalar] using hn)
      · left
        have hle := hal.length_le
        rw [KeyPath.hasNext_iff, KeyPath.remaining_advanced, KeyPath.remaining_skip, not_not,
          ← List.length_eq_zero_iff, List.length_tail, List.length_drop] at hn
        show (a.keys ++ [k]).length = _
        rw [List.length_append, List.length_singleton] at hle ⊢
        omega
  · obtain ⟨a, k⟩ := t
    rintro ⟨hs, hal, es, v, hnode, hv, hlast⟩
    change path.Along (a.keys ++ [k]) at hal
    change (a.keys ++ [k]).length = _ ∨ _ at hlast
    obtain ⟨ha, hk⟩ := KeyPath.along_append.1 hal
    have hk := (KeyPath.along_cons.1 hk).1
    have hmore : a.keys.length < path.remaining.length := by
      have := hal.length_le
      rw [List.length_append, List.length_singleton] at this
      omega
    have hr : Reaches path doc a (path.skip a.keys.length) (.mapping es) :=
      (Value.Visits.mk hnode hs ha hmore).reaches
    refine ⟨_, (mem_events_iff h).2 ⟨a, _, _, hr, .ends (Entries.mem_of_get? hv) hk ?_⟩, rfl⟩
    rintro ⟨hc, hn⟩
    rcases hlast with hlen | hsc
    · rw [KeyPath.hasNext_iff, KeyPath.remaining_advanced, KeyPath.remaining_skip, Ne,
        ← List.length_eq_zero_iff, List.length_tail, List.length_drop] at hn
      rw [List.length_append, List.length_singleton] at hlen
      omega
    · simp [Value.isScalar, hc] at hsc

/-- A key that a walk has found to match is in the document with its value, also if the walk stops
later. -/
theorem get?_of_site {strict : Bool} {path : KeyPath} {doc : Value} {site : Site}
    (hd : doc.Distinct) (h : .partly site ∈ (doc.walk strict path).events ∨
      .fully site ∈ (doc.walk strict path).events) :
    doc.get? (Target.ofSite site).address = some site.value := by
  have hchild {a : Address} {es : Entries Value} {k : String} {c : Value}
      (hget : doc.get? a = some (.mapping es)) (hm : (k, c) ∈ es) :
      doc.get? (a.child (.key k)) = some c := by
    rw [Value.get?_child, hget]
    exact (Entries.get?_eq_some_iff (hd.get? hget).1).2 hm
  rcases h with h | h
  · obtain ⟨a, p, w, hr, ho⟩ := found_of_mem_events h
    cases ho with
    | leads hm => exact hchild (hr.get? hd) hm
  · obtain ⟨a, p, w, hr, ho⟩ := found_of_mem_events h
    cases ho with
    | ends hm => exact hchild (hr.get? hd) hm

theorem exists_get?_of_site {strict : Bool} {path : KeyPath} {doc : Value} {site : Site}
    (hd : doc.Distinct) (h : .partly site ∈ (doc.walk strict path).events ∨
      .fully site ∈ (doc.walk strict path).events) :
    ∃ v, doc.get? (site.parent.child (.key site.key)) = some v := ⟨_, get?_of_site hd h⟩

theorem exists_get?_of_mem_ends {strict : Bool} {path : KeyPath} {doc : Value} {t : Target}
    (hd : doc.Distinct) (h : t ∈ (doc.walk strict path).ends) :
    ∃ v, doc.get? t.address = some v := by
  obtain ⟨site, he, rfl⟩ := Walk.mem_ends.1 h
  exact exists_get?_of_site hd (.inr he)

theorem isSome_get?_of_mem_ends {strict : Bool} {path : KeyPath} {doc : Value} {t : Target}
    (hd : doc.Distinct) (h : t ∈ (doc.walk strict path).ends) : (doc.get? t.address).isSome :=
  Option.isSome_iff_exists.2 (exists_get?_of_mem_ends hd h)

/-- A path that no key matches leads nowhere. -/
theorem ends_of_isMatch_eq_false {strict : Bool} {path : KeyPath} (h : ∀ k, path.isMatch k = false)
    (doc : Value) : (doc.walk strict path).ends = [] := by
  refine List.eq_nil_iff_forall_not_mem.2 fun t ht => ?_
  obtain ⟨site, he, rfl⟩ := Walk.mem_ends.1 ht
  obtain ⟨a, p, w, hr, ho⟩ := found_of_mem_events he
  have hal := hr.along
  have hpath := hr.path_eq
  cases ho with
  | @ends es k c hm hk hn =>
    cases hkeys : Address.keys a with
    | nil =>
      rw [hpath, hkeys] at hk
      exact absurd hk (by simp [KeyPath.skip, h k])
    | cons l ls =>
      rw [hkeys] at hal
      have := (KeyPath.along_cons.1 hal).1
      simp [h l] at this

/-! ### The order of the document -/

/-- In a document one address comes before another, neither of them above the other: from some node
on, the first goes to an earlier key of a mapping or to an earlier element of a sequence. -/
inductive Precedes : Value → Address → Address → Prop
  | keys {es : Entries Value} {k l : String} {a b : Address} :
      [k, l].Sublist es.keys → Precedes (.mapping es) (.key k :: a) (.key l :: b)
  | indices {items : List Value} {i j : Nat} {a b : Address} :
      i < j → Precedes (.sequence items) (.index i :: a) (.index j :: b)
  | child {v c : Value} {s : Step} {a b : Address} :
      v.child? s = some c → Precedes c a b → Precedes v (s :: a) (s :: b)

theorem Precedes.apart {v : Value} {a b : Address} (h : Precedes v a b) (hd : v.Distinct) :
    a.Apart b := by
  induction h with
  | keys hkl =>
    have hne := List.pairwise_pair.1 ((List.Sublist.nodup hkl) hd.1)
    constructor <;> intro hp
    · exact hne (Step.key.inj (List.cons_prefix_cons.1 hp).1)
    · exact hne (Step.key.inj (List.cons_prefix_cons.1 hp).1).symm
  | indices hij =>
    constructor <;> intro hp
    · exact absurd (Step.index.inj (List.cons_prefix_cons.1 hp).1) (by omega)
    · exact absurd (Step.index.inj (List.cons_prefix_cons.1 hp).1) (by omega)
  | child hc _ ih =>
    obtain ⟨h1, h2⟩ := ih (hd.child? hc)
    exact ⟨fun hp => h1 (List.cons_prefix_cons.1 hp).2, fun hp => h2 (List.cons_prefix_cons.1 hp).2⟩

namespace Walk

variable {strict : Bool} {path : KeyPath} {parent : Address} {trail : List String}

/-- What a walk below an address ends at lies below the address. -/
theorem address_of_mem_ends {v : Value} {t : Target}
    (h : t ∈ (below strict path parent trail v).ends) : ∃ a, t.address = parent ++ a := by
  obtain ⟨site, he, rfl⟩ := mem_ends.1 h
  obtain ⟨a, p, w, -, ho⟩ := found_of_mem_events he
  cases ho with
  | @ends _ k => exact ⟨a ++ [.key k], by simp [Target.address, Target.ofSite, Address.child]⟩

/-- The elements of a sequence come in the order of their indices. -/
theorem pairwise_zipIdx (items : List Value) : items.zipIdx.Pairwise fun x y => x.2 < y.2 := by
  rw [← List.pairwise_map (f := Prod.snd), List.zipIdx_map_snd]
  exact List.pairwise_lt_range'

theorem address_of_mem_ends_entry {k : String} {c : Value} {t : Target}
    (h : t ∈ (entry strict path parent trail (k, c)).ends) :
    ∃ a, t.address = parent ++ .key k :: a := by
  obtain ⟨site, he, rfl⟩ := mem_ends.1 h
  rcases mem_events_entry.1 he with ⟨-, he⟩ | ⟨-, -, -, he | he⟩ | ⟨-, -, he⟩
  · cases he
  · cases he
  · obtain ⟨a, ha⟩ := address_of_mem_ends (mem_ends.2 ⟨site, he, rfl⟩)
    exact ⟨a, by simpa [Address.child] using ha⟩
  · cases he
    exact ⟨[], rfl⟩

theorem address_of_mem_ends_element {i : Nat} {c : Value} {t : Target}
    (h : t ∈ (element strict path parent trail (c, i)).ends) :
    ∃ a, t.address = parent ++ .index i :: a := by
  cases hc : c.isMapping
  · rw [element_other strict parent trail hc, ends_missItem] at h
    cases h
  · rw [element_mapping strict parent trail hc] at h
    obtain ⟨a, ha⟩ := address_of_mem_ends h
    exact ⟨a, by simpa [Address.child] using ha⟩

/-- **In the order of the document.**  The keys at which a walk ends follow each other in it. -/
theorem pairwise_ends {v : Value} (hd : v.Distinct) :
    (below strict path parent trail v).ends.Pairwise fun t u =>
      ∃ a b, t.address = parent ++ a ∧ u.address = parent ++ b ∧ Precedes v a b := by
  induction v using Value.induct generalizing path parent trail with
  | scalar v hv =>
    rw [below_scalar strict path parent trail hv]
    exact .nil
  | sequence items ih =>
    rw [below_sequence]
    refine List.Pairwise.sublist (ends_join_sublist _) ?_
    rw [List.flatMap_map, List.pairwise_flatMap]
    constructor
    · rintro ⟨c, i⟩ hi
      have hi : items[i]? = some c := List.mem_zipIdx_iff_getElem?.1 hi
      cases hc : c.isMapping
      · rw [element_other strict parent trail hc, ends_missItem]
        exact .nil
      · rw [element_mapping strict parent trail hc]
        have hcd := Value.distinctItems_iff.1 hd c (List.mem_of_getElem? hi)
        refine (ih c (List.mem_of_getElem? hi) hcd).imp ?_
        rintro t u ⟨a, b, ht, hu, hab⟩
        exact ⟨.index i :: a, .index i :: b, by simpa [Address.child] using ht,
          by simpa [Address.child] using hu, .child hi hab⟩
    · refine (pairwise_zipIdx items).imp ?_
      rintro ⟨c, i⟩ ⟨d, j⟩ hij t ht u hu
      obtain ⟨a, ha⟩ := address_of_mem_ends_element ht
      obtain ⟨b, hb⟩ := address_of_mem_ends_element hu
      exact ⟨_, _, ha, hb, .indices hij⟩
  | mapping es ih =>
    by_cases hes : es = []
    · subst hes
      exact .nil
    · rw [below_mapping strict path parent trail hes]
      refine List.Pairwise.sublist (ends_join_sublist _) ?_
      rw [List.flatMap_map, List.pairwise_flatMap]
      constructor
      · rintro ⟨k, c⟩ hm
        cases atEntry path k c with
        | differs hk =>
          rw [entry_differs strict parent trail hk, ends_missKey]
          exact .nil
        | leads hk hc hn =>
          rw [entry_leads strict parent trail hk hc hn, ends_andThen_partly]
          have hcd := Value.distinctEntries_iff.1 hd.2 _ hm
          have hget := (Entries.get?_eq_some_iff hd.1).2 hm
          refine (ih (k, c) hm hcd).imp ?_
          rintro t u ⟨a, b, ht, hu, hab⟩
          exact ⟨.key k :: a, .key k :: b, by simpa [Address.child] using ht,
            by simpa [Address.child] using hu, .child hget hab⟩
        | ends hk hn =>
          rw [entry_ends strict parent trail hk hn]
          exact List.pairwise_singleton _ _
      · rw [List.pairwise_iff_forall_sublist]
        rintro ⟨k, c⟩ ⟨l, d⟩ hsub t ht u hu
        obtain ⟨a, ha⟩ := address_of_mem_ends_entry ht
        obtain ⟨b, hb⟩ := address_of_mem_ends_entry hu
        exact ⟨_, _, ha, hb, .keys (hsub.map Prod.fst)⟩

theorem pairwise_apart_ends {doc : Value} (hd : doc.Distinct) :
    (doc.walk strict path).ends.Pairwise fun t u => t.address.Apart u.address := by
  refine (pairwise_ends hd).imp ?_
  rintro t u ⟨a, b, ht, hu, hab⟩
  rw [ht, hu]
  exact hab.apart hd

end Walk

end YamlQuery

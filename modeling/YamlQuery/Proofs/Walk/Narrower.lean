import YamlQuery.Proofs.Pattern.Bare
import YamlQuery.Proofs.Walk.Stops

/-!
# Proofs.Walk.Narrower — paths that match less

A path is narrower than another one if each of its segments matches only keys that the segment of the
other path at its place matches.  A walk along it gets only to nodes that the walk along the other
path gets to, so it stops nowhere where that one does not (`Walk.stop_of_narrows`).

The narrowest paths spell out keys (`KeyPath.Spells`): in a document without sequences such a path
leads to one entry at most (`Value.Ends.eq_of_spells`).
-/

namespace YamlQuery

/-! ### Narrower paths -/

namespace KeyPath

/-- The path is no longer than another one, and each of its segments matches only keys that the
segment of the other path at its place matches. -/
def Narrows (p q : KeyPath) : Prop :=
  List.Forall₂ (fun s t : Segment => ∀ k, s.isMatch k → t.isMatch k) p.remaining
    (q.remaining.take p.remaining.length)

variable {p q : KeyPath} {k : String} {ks keys : List String}

theorem Narrows.advanced (h : p.Narrows q) (hk : p.isMatch k) :
    q.isMatch k ∧ p.advanced.Narrows q.advanced := by
  obtain ⟨s, ss, hp, hs⟩ := isMatch_iff.1 hk
  rw [Narrows, hp] at h
  cases hq : q.remaining with
  | nil =>
    rw [hq] at h
    cases h
  | cons t ts =>
    rw [hq, List.length_cons, List.take_succ_cons, List.forall₂_cons] at h
    refine ⟨isMatch_iff.2 ⟨t, ts, hq, h.1 k hs⟩, ?_⟩
    rw [Narrows, remaining_advanced, remaining_advanced, hp, hq]
    exact h.2

theorem Narrows.hasNext (h : p.Narrows q) (hp : p.hasNext) : q.hasNext := by
  rw [hasNext_iff] at hp ⊢
  intro hq
  rw [Narrows, hq, List.take_nil, List.forall₂_nil_right_iff] at h
  exact hp h

/-- A path of keys that match another path is narrower than that path. -/
theorem Spells.narrows (h : Spells p.remaining keys) (hq : q.Along keys) : p.Narrows q := by
  have hlength : p.remaining.length = keys.length := List.Forall₂.length_eq h
  rw [Narrows, hlength]
  unfold Along at hq
  generalize p.remaining = ss at h
  clear hlength
  generalize q.remaining.take keys.length = ts at hq
  induction h generalizing ts with
  | nil =>
    cases hq
    exact .nil
  | cons hs _ ih =>
    cases hq with
    | cons ht hq => exact .cons (fun k hk => (hs k).1 hk ▸ ht) (ih _ hq)

/-- The keys along a path of keys are the first of these. -/
theorem Spells.along_iff :
    ∀ {ks keys : List String} {p : KeyPath}, Spells p.remaining keys → (p.Along ks ↔ ks <+: keys)
  | [], _, _, _ => by simp [along_nil]
  | k :: ks, [], p, h => by
    have hnil : p.remaining = [] := List.forall₂_nil_right_iff.1 h
    simp [along_cons, isMatch_iff, hnil]
  | k :: ks, l :: keys, p, h => by
    obtain ⟨s, ss, hs, hss, hp⟩ := List.forall₂_cons_right_iff.1 h
    have hrest : Spells p.advanced.remaining keys := by
      rw [remaining_advanced, hp]
      exact hss
    have hk : p.isMatch k ↔ k = l := by
      rw [isMatch_iff, hp, ← hs k]
      simp
    rw [along_cons, hk, Spells.along_iff hrest, List.cons_prefix_cons]

end KeyPath

/-! ### Walks along narrower paths -/

theorem Reaches.of_narrows {p q p' : KeyPath} {v w : Value} {a : Address}
    (hr : Reaches p v a p' w) (h : p.Narrows q) : ∃ q', Reaches q v a q' w := by
  induction hr generalizing q with
  | here => exact ⟨q, .here q _⟩
  | entry hm hk hc hn _ ih =>
    obtain ⟨hq, hnext⟩ := h.advanced hk
    obtain ⟨q', hr⟩ := ih hnext
    exact ⟨q', .entry hm hq hc (hnext.hasNext hn) hr⟩
  | element hi hc _ ih =>
    obtain ⟨q', hr⟩ := ih h
    exact ⟨q', .element hi hc hr⟩

/-- A narrower path does not lead to anything that stops a walk, if the other path does not. -/
theorem Walk.stop_of_narrows {strict : Bool} {p q : KeyPath} {doc : Value} (h : p.Narrows q)
    (hq : (doc.walk strict q).stop = none) : (doc.walk strict p).stop = none := by
  cases strict with
  | false => exact stop_below_lenient
  | true =>
    by_contra hp
    obtain ⟨a, p', items, i, c, hr, hi, hc, -⟩ := exists_item_of_stop hp
    obtain ⟨q', hr⟩ := hr.of_narrows h
    rw [isMapping_of_reaches hq hr hi] at hc
    cases hc

/-! ### Documents without sequences -/

namespace Value

/-- There is no sequence in the document. -/
def HasNoSequence : Value → Prop := Each fun v => v.isSequence = false

/-- Without sequences there are only keys on the way to a node. -/
theorem HasNoSequence.eq_keys {v u : Value} {a : Address} (h : v.HasNoSequence)
    (hu : v.get? a = some u) : a = a.keys.map .key := by
  induction a generalizing v with
  | nil => rfl
  | cons s a ih =>
    rw [get?_cons] at hu
    obtain ⟨c, hc, hbelow⟩ := Option.bind_eq_some_iff.1 hu
    obtain ⟨es, k, rfl, rfl, hk⟩ | ⟨items, i, rfl, rfl, -⟩ := child?_eq_some_iff.1 hc
    · have hchild : c.HasNoSequence := (each_mapping.1 h).2 _ (Entries.mem_of_get? hk)
      rw [Address.keys_key, List.map_cons, ← ih hchild hbelow]
    · cases (each_sequence.1 h).1

/-- Without sequences, a path that spells out the keys of an entry leads to no other one. -/
theorem Ends.eq_of_spells {doc v : Value} {path : KeyPath} {t u : Target}
    (h : doc.HasNoSequence) (hpath : KeyPath.Spells path.remaining t.keys)
    (ht : doc.get? t.address = some v) (hu : doc.Ends path u) : u.address = t.address := by
  obtain ⟨-, halong, w, hw, hlast⟩ := ends_iff.1 hu
  have hprefix : u.keys <+: t.keys := (KeyPath.Spells.along_iff hpath).1 halong
  have hkeys (x : Target) {y : Value} (hx : doc.get? x.address = some y) :
      x.address = x.keys.map .key := by
    rw [← Target.keys_address]
    exact h.eq_keys hx
  rcases hlast with hlength | hscalar
  · have hsame : u.keys = t.keys :=
      hprefix.eq_of_length (hlength.trans (List.Forall₂.length_eq hpath))
    rw [hkeys u hw, hkeys t ht, hsame]
  · obtain ⟨b, hb⟩ := hprefix.map Step.key
    rw [← hkeys u hw, ← hkeys t ht] at hb
    rw [← hb, get?_append, hw, Option.bind_some] at ht
    rw [← hb, eq_nil_of_isScalar hscalar ht, List.append_nil]

end Value

end YamlQuery

import YamlQuery.Proofs.Document.Entries
import YamlQuery.Proofs.Walk.Matches

/-!
# Proofs.Document.Planting — a value put at the end of some keys

Keys can be followed through a document as long as only mappings are in the way
(`Value.Passable`); nothing needs to be there.  `Value.plant` puts a value where they lead and makes
the mappings that are missing on the way.  Then the keys lead to the value (`Value.get?_plant`), all
keys of the document are where they were (`Value.exists_keys_plant`), and nothing is different off
the way (`Value.get?_plant_of_apart`).
-/

namespace YamlQuery.Value

variable {v u data : Value} {k : String} {ks ls keys : List String} {a : Address}

/-! ### Children by key -/

theorem isMapping_setChild (v : Value) (s : Step) (c : Value) :
    (v.setChild s c).isMapping = v.isMapping := by
  cases v <;> cases s <;> rfl

theorem child?_setChild_key (h : v.isMapping) (k : String) (c : Value) :
    (v.setChild (.key k) c).child? (.key k) = some c := by
  cases v with
  | mapping es => exact Entries.get?_put_self k c es
  | _ => cases h

/-- The value of a key, or an empty mapping. -/
def childOr (v : Value) (k : String) : Value := (v.child? (.key k)).getD (.mapping [])

theorem childOr_of_child? (h : v.child? (.key k) = some u) : v.childOr k = u := by
  rw [childOr, h, Option.getD_some]

/-! ### Following keys -/

/-- Following the keys meets nothing but mappings before the last of them, as far as they lead. -/
def Passable : Value → List String → Prop
  | _, [] => True
  | v, k :: ks => v.isMapping ∧ ∀ c ∈ v.child? (.key k), c.Passable ks

instance decPassable : (keys : List String) → (v : Value) → Decidable (v.Passable keys)
  | [], _ => inferInstanceAs (Decidable True)
  | k :: ks, v =>
    have := decPassable ks
    inferInstanceAs (Decidable (v.isMapping ∧ ∀ c ∈ v.child? (.key k), c.Passable ks))

theorem passable_empty : ∀ keys : List String, (mapping []).Passable keys
  | [] => trivial
  | _ :: _ => ⟨rfl, fun _ hc => by cases hc⟩

theorem Passable.isMapping (h : v.Passable keys) (hne : keys ≠ []) : v.isMapping := by
  obtain ⟨k, ks, rfl⟩ := List.exists_cons_of_ne_nil hne
  exact h.1

theorem Passable.childOr (h : v.Passable (k :: ks)) : (v.childOr k).Passable ks := by
  rw [Value.childOr]
  cases hc : v.child? (.key k) with
  | none => exact passable_empty ks
  | some c => exact h.2 c hc

/-- On the way along passable keys there are only mappings, and no sequence is gone through. -/
theorem Passable.of_get? (h : v.Passable keys) (hu : v.get? a = some u) (hkeys : a.keys <+: keys)
    (hlt : a.keys.length < keys.length) : a = a.keys.map .key ∧ u.isMapping := by
  induction a generalizing v keys with
  | nil =>
    obtain rfl := Option.some.inj ((get?_root v).symm.trans hu)
    obtain ⟨k, ks, rfl⟩ := List.exists_cons_of_length_pos (Nat.zero_lt_of_lt hlt)
    exact ⟨rfl, h.1⟩
  | cons s a ih =>
    obtain ⟨k, ks, rfl⟩ := List.exists_cons_of_length_pos (Nat.zero_lt_of_lt hlt)
    rw [get?_cons] at hu
    obtain ⟨c, hc, hbelow⟩ := Option.bind_eq_some_iff.1 hu
    obtain ⟨es, l, -, rfl, -⟩ | ⟨items, i, rfl, -, -⟩ := child?_eq_some_iff.1 hc
    · rw [Address.keys_key] at hkeys hlt ⊢
      obtain ⟨rfl, hrest⟩ := List.cons_prefix_cons.1 hkeys
      obtain ⟨hpure, hmapping⟩ := ih (h.2 c hc) hbelow hrest (Nat.lt_of_succ_lt_succ hlt)
      exact ⟨by rw [List.map_cons, ← hpure], hmapping⟩
    · cases h.1

/-- Where passable keys lead nowhere, there is a mapping without the next of them. -/
theorem Passable.exists_break : ∀ {keys : List String} {v : Value}, v.Passable keys →
    v.get? (keys.map .key) = none → ∃ ks k ls es, keys = ks ++ k :: ls ∧
      v.get? (ks.map .key) = some (.mapping es) ∧ k ∉ Entries.keys es
  | [], v, _, hnone => by
    rw [List.map_nil, get?_root] at hnone
    cases hnone
  | k :: ks, v, h, hnone => by
    rw [List.map_cons, get?_cons] at hnone
    cases hc : v.child? (.key k) with
    | none =>
      cases v with
      | mapping es => exact ⟨[], k, ks, es, rfl, rfl, (Entries.get?_eq_none_iff k es).1 hc⟩
      | _ => cases h.1
    | some c =>
      rw [hc, Option.bind_some] at hnone
      obtain ⟨ms, l, ls, es, rfl, hes, hl⟩ := exists_break (h.2 c hc) hnone
      refine ⟨k :: ms, l, ls, es, rfl, ?_, hl⟩
      rw [List.map_cons, get?_cons, hc]
      exact hes

/-! ### Planting -/

/-- The document with other data where the keys lead, and with the mappings that are missing on the
way. -/
def plant : Value → List String → Value → Value
  | _, [], data => data
  | v, k :: ks, data => v.setChild (.key k) ((v.childOr k).plant ks data)

theorem child?_plant (h : v.isMapping) : (v.plant (k :: ks) data).child? (.key k) =
    some ((v.childOr k).plant ks data) := child?_setChild_key h k _

theorem child?_plant_of_ne {s : Step} (h : .key k ≠ s) :
    (v.plant (k :: ks) data).child? s = v.child? s := child?_setChild_of_ne h v _

/-- **The keys lead to the new data.** -/
theorem get?_plant : ∀ {keys : List String} {v : Value}, v.Passable keys →
    (v.plant keys data).get? (keys.map .key) = some data
  | [], _, _ => get?_root data
  | k :: ks, v, h => by
    rw [List.map_cons, get?_cons, child?_plant h.1, Option.bind_some]
    exact get?_plant h.childOr

/-- **Off the way nothing is different.** -/
theorem get?_plant_of_apart : ∀ {keys : List String} {v : Value} {a : Address}, v.Passable keys →
    Address.Apart a (keys.map .key) → (v.plant keys data).get? a = v.get? a
  | [], _, a, _, ha => absurd List.nil_prefix ha.2
  | k :: ks, v, [], _, ha => absurd List.nil_prefix ha.1
  | k :: ks, v, s :: a, h, ha => by
    rw [get?_cons, get?_cons]
    by_cases hs : Step.key k = s
    · subst hs
      have hrest : Address.Apart a (ks.map .key) :=
        ⟨fun hp => ha.1 (List.cons_prefix_cons.2 ⟨rfl, hp⟩),
          fun hp => ha.2 (List.cons_prefix_cons.2 ⟨rfl, hp⟩)⟩
      rw [child?_plant h.1, Option.bind_some, get?_plant_of_apart h.childOr hrest]
      cases hc : v.child? (.key k) with
      | some c => rw [childOr_of_child? hc, Option.bind_some]
      | none =>
        -- in the mapping that is made there is nothing but what the keys lead to
        rw [childOr, hc, Option.getD_none, Option.bind_none]
        cases a with
        | nil => exact absurd List.nil_prefix hrest.1
        | cons t a => cases t <;> rfl
    · rw [child?_plant_of_ne hs]

/-- **All keys are where they were**, but for those below the old data. -/
theorem exists_keys_plant : ∀ {keys : List String} {v : Value} {a : Address} {es : Entries Value},
    v.get? a = some (.mapping es) → ¬ keys.map .key <+: a →
      ∃ fs, (v.plant keys data).get? a = some (.mapping fs) ∧ Entries.keys es <+: Entries.keys fs
  | [], _, _, _, _, ha => absurd List.nil_prefix ha
  | k :: ks, v, [], es, hes, _ => by
    obtain rfl := Option.some.inj ((get?_root v).symm.trans hes)
    exact ⟨_, get?_root _, Entries.keys_prefix_put k _ es⟩
  | k :: ks, v, s :: a, es, hes, ha => by
    rw [get?_cons] at hes ⊢
    obtain ⟨c, hc, hbelow⟩ := Option.bind_eq_some_iff.1 hes
    by_cases hs : Step.key k = s
    · subst hs
      have hmapping : v.isMapping := by
        obtain ⟨fs, l, rfl, -, -⟩ | ⟨_, _, -, h, -⟩ := child?_eq_some_iff.1 hc
        · rfl
        · cases h
      rw [child?_plant hmapping, Option.bind_some, childOr_of_child? hc]
      exact exists_keys_plant hbelow fun hp => ha (List.cons_prefix_cons.2 ⟨rfl, hp⟩)
    · rw [child?_plant_of_ne hs, hc]
      exact ⟨es, hbelow, List.prefix_rfl⟩

theorem Passable.plant : ∀ {keys : List String} {v : Value}, v.Passable keys →
    (v.plant keys data).Passable keys
  | [], _, _ => trivial
  | k :: ks, v, h => by
    refine ⟨(isMapping_setChild v _ _).trans h.1, fun c hc => ?_⟩
    rw [child?_plant h.1] at hc
    obtain rfl := Option.some.inj hc
    exact h.childOr.plant

/-- Planting a second time changes nothing. -/
theorem plant_plant : ∀ {keys : List String} {v : Value}, v.Passable keys →
    (v.plant keys data).plant keys data = v.plant keys data
  | [], _, _ => rfl
  | k :: ks, v, h => by
    have hchild : (v.plant (k :: ks) data).child? (.key k) = some ((v.childOr k).plant ks data) :=
      child?_plant h.1
    rw [plant, childOr_of_child? hchild, plant_plant h.childOr]
    exact setChild_of_child? hchild

theorem Distinct.plant (hdata : data.Distinct) : ∀ {keys : List String} {v : Value}, v.Distinct →
    (v.plant keys data).Distinct
  | [], _, _ => hdata
  | k :: ks, v, h => by
    have hchild : (v.childOr k).Distinct := by
      rw [childOr]
      cases hc : v.child? (.key k) with
      | none => exact ⟨List.nodup_nil, trivial⟩
      | some c => exact h.child? hc
    exact h.setChild (Distinct.plant hdata hchild)

/-- Planting below a node that is there is a change of this node. -/
theorem modify?_eq_plant {f : Value → Value} : ∀ {ks : List String} {v : Value},
    v.get? (ks.map .key) = some u → f u = u.plant ls data →
      v.modify? f (ks.map .key) = some (v.plant (ks ++ ls) data)
  | [], v, hu, hf => by
    obtain rfl := Option.some.inj ((get?_root v).symm.trans hu)
    rw [List.map_nil, modify?_root, hf, List.nil_append]
  | k :: ks, v, hu, hf => by
    rw [List.map_cons, get?_cons] at hu
    obtain ⟨c, hc, hu⟩ := Option.bind_eq_some_iff.1 hu
    rw [List.map_cons, modify?_cons, hc, Option.bind_some, modify?_eq_plant hu hf, Option.map_some,
      List.cons_append, plant, childOr_of_child? hc]

end YamlQuery.Value

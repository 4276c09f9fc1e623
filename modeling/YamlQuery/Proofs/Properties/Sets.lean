import YamlQuery.Properties.Sets
import YamlQuery.Proofs.Document.Entries

/-!
# Proofs.Properties.Sets — the set that is looked up first

The set `batch` comes first (`PropertySets.OwnFirst`), and the operations on sets keep it there.  So a
property has the value it has in this set, and if it has none there, the value of the sets behind it
(`PropertySets.get?_eq`).  Setting and restoring a property change the first set alone.
-/

namespace YamlQuery

namespace PropertySets

/-- The set `batch` is there and comes first. -/
def OwnFirst (s : PropertySets) : Prop := s.names.head? = some own

/-- The properties of the sets behind the first. -/
def others (s : PropertySets) : Lookup := .ofSets (Entries.values s.sets.tail)

variable {s : PropertySets} {name : String}

theorem OwnFirst.exists_sets (h : s.OwnFirst) : ∃ rest, s.sets = (own, s.ownSet) :: rest := by
  obtain ⟨_ | ⟨⟨k, ps⟩, rest⟩⟩ := s
  · cases h
  · cases Option.some.inj h
    exact ⟨rest, by rw [ownSet, Entries.get?, if_pos (show "batch" = own from rfl)]; rfl⟩

theorem ownFirst_default : OwnFirst {} := rfl

/-! ### Adding sets -/

theorem insert_insert (name : String) (ps qs : Properties) (s : PropertySets) :
    (s.insert name ps).insert name qs = s.insert name qs := by
  rw [insert, insert, insert, Entries.put_put]

theorem ownSet_insert_own (s : PropertySets) (ps : Properties) :
    (s.insert own ps).ownSet = ps := by
  rw [ownSet, insert, Entries.get?_put_self]
  rfl

theorem ownSet_insert_of_ne (h : name ≠ own) (s : PropertySets) (ps : Properties) :
    (s.insert name ps).ownSet = s.ownSet := by
  rw [ownSet, insert, Entries.get?_put, if_neg h.symm, ownSet]

theorem sets_insert_own (h : s.OwnFirst) (ps : Properties) :
    (s.insert own ps).sets = (own, ps) :: s.sets.tail := by
  obtain ⟨rest, hsets⟩ := h.exists_sets
  rw [insert, hsets, Entries.put, if_pos rfl]
  rfl

theorem sets_insert_of_ne (h : s.OwnFirst) (hname : name ≠ own) (ps : Properties) :
    (s.insert name ps).sets = (own, s.ownSet) :: Entries.put name ps s.sets.tail := by
  obtain ⟨rest, hsets⟩ := h.exists_sets
  rw [insert, hsets, Entries.put, if_neg hname.symm]
  rfl

/-- Any set may be added or replaced. -/
theorem OwnFirst.insert (h : s.OwnFirst) (name : String) (ps : Properties) :
    (s.insert name ps).OwnFirst := by
  by_cases hname : name = own
  · subst hname
    rw [OwnFirst, names, sets_insert_own h]
    rfl
  · rw [OwnFirst, names, sets_insert_of_ne h hname]
    rfl

theorem insert_ownSet (h : s.OwnFirst) : s.insert own s.ownSet = s := by
  have hsets : (s.insert own s.ownSet).sets = s.sets := by
    obtain ⟨rest, hrest⟩ := h.exists_sets
    rw [sets_insert_own h, hrest]
    rfl
  cases s
  exact congrArg PropertySets.mk hsets

/-! ### Lookup -/

theorem get?_eq (h : s.OwnFirst) (n : String) : s.get? n = (s.ownSet.get? n).or (s.others n) := by
  obtain ⟨rest, hsets⟩ := h.exists_sets
  have htail : s.sets.tail = rest := by rw [hsets]; rfl
  rw [get?, lookup, others, htail, hsets]
  change List.findSome? _ (s.ownSet :: Entries.values rest) = _
  rw [List.findSome?_cons]
  cases s.ownSet.get? n <;> rfl

theorem get?_of_own (h : s.OwnFirst) {n v : String} (hv : s.ownSet.get? n = some v) :
    s.get? n = some v := by
  rw [get?_eq h, hv, Option.some_or]

theorem get?_eq_none_iff (h : s.OwnFirst) {n : String} :
    s.get? n = none ↔ s.ownSet.get? n = none ∧ s.others n = none := by
  rw [get?_eq h, Option.or_eq_none_iff]

theorem others_insert_own (h : s.OwnFirst) (ps : Properties) :
    (s.insert own ps).others = s.others := by
  rw [others, sets_insert_own h]
  rfl

/-- No set behind the first has a property if the one that is added does not bring it. -/
theorem others_insert_of_ne (h : s.OwnFirst) (hname : name ≠ own) {n : String}
    (hs : s.others n = none) (hps : ps.get? n = none) : (s.insert name ps).others n = none := by
  rw [others, sets_insert_of_ne h hname]
  refine List.findSome?_eq_none_iff.2 fun qs hqs => ?_
  obtain ⟨e, he, rfl⟩ := List.mem_map.1 hqs
  obtain rfl | he := Entries.mem_of_mem_put he
  · exact hps
  · exact List.findSome?_eq_none_iff.1 hs _ (List.mem_map.2 ⟨e, he, rfl⟩)

/-! ### Restoring -/

theorem restore_eq (key : String) (value : Option String) (s : PropertySets) :
    s.restore key value = s.insert own (Entries.assign key value s.ownSet) := by
  cases value <;> rfl

end PropertySets

end YamlQuery

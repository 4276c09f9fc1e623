import YamlQuery.Proofs.Properties.Sets

/-!
# Proofs.Properties.Calls — sets of properties after any calls

Whatever calls change the sets, `batch` is the first of them and the others keep the order in which
they were added first (`Follows`).  So a property has the value that the first set with it gives, and
no set can hide one that is set in `batch` (`priority_of_calls`).
-/

namespace YamlQuery.PropertySets

/-- A call that changes sets of properties. -/
inductive Call
  | insert (name : String) (ps : Properties) (distinct : ps.Distinct)
  | set (key value : String)
  | unset (key : String)
  | restore (key : String) (value : Option String)

namespace Call

def apply : Call → PropertySets → PropertySets
  | insert name ps _, s => s.insert name ps
  | set key value, s => s.set key value
  | unset key, s => s.unset key
  | restore key value, s => s.restore key value

/-- The name of the set that a call adds or replaces. -/
def name? : Call → Option String
  | insert name _ _ => some name
  | _ => none

/-- The property of the set `batch` that a call changes, and the value that it is to have. -/
def edit? : Call → Option (String × Option String)
  | insert _ _ _ => none
  | set key value => some (key, some value)
  | unset key => some (key, none)
  | restore key value => some (key, value)

end Call

/-- The sets after some calls, from the one set there is at first. -/
def after (calls : List Call) : PropertySets := calls.foldl (fun s c => c.apply s) {}

variable {s : PropertySets} {calls : List Call} {c : Call} {key : String} {value : Option String}

/-! ### One call -/

theorem Call.apply_of_edit (h : c.edit? = some (key, value)) (s : PropertySets) :
    c.apply s = s.insert own (Entries.assign key value s.ownSet) := by
  cases c with
  | insert => cases h
  | set | unset =>
    cases h
    rfl
  | restore =>
    cases h
    exact restore_eq key value s

theorem Call.exists_edit (h : c.name? = none) : ∃ key value, c.edit? = some (key, value) := by
  cases c with
  | insert => cases h
  | set | unset | restore => exact ⟨_, _, rfl⟩

theorem names_insert_own (h : s.OwnFirst) (ps : Properties) : (s.insert own ps).names = s.names := by
  obtain ⟨rest, hsets⟩ := h.exists_sets
  have hmem : own ∈ s.sets.keys := by
    rw [hsets]
    exact List.mem_cons_self
  exact Entries.keys_put_of_mem hmem ps

/-! ### Any calls -/

/-- The sets are in the order in which the calls added them, behind the set `batch`. -/
structure Follows (calls : List Call) (s : PropertySets) : Prop where
  names : s.names = (own :: calls.filterMap Call.name?).eraseDups
  distinct : s.ownSet.Distinct

theorem Follows.ownFirst (h : Follows calls s) : s.OwnFirst := by
  unfold OwnFirst
  rw [h.names, List.eraseDups_cons]
  rfl

theorem Follows.apply (h : Follows calls s) (c : Call) : Follows (calls ++ [c]) (c.apply s) := by
  cases hname : c.name? with
  | none =>
    obtain ⟨key, value, hedit⟩ := Call.exists_edit hname
    rw [Call.apply_of_edit hedit]
    refine ⟨?_, ?_⟩
    · rw [names_insert_own h.ownFirst, h.names]
      simp [hname]
    · rw [ownSet_insert_own]
      exact h.distinct.assign key value
  | some name =>
    cases c with
    | set | unset | restore => cases hname
    | insert name ps hps =>
      refine ⟨?_, ?_⟩
      · rw [List.filterMap_append, ← List.cons_append]
        exact Entries.keys_put_eq_eraseDups h.names name ps
      · by_cases hown : name = own
        · rw [Call.apply, hown, ownSet_insert_own]
          exact hps
        · rw [Call.apply, ownSet_insert_of_ne hown]
          exact h.distinct

theorem follows_after (calls : List Call) : Follows calls (after calls) := by
  induction calls using List.reverseRecOn with
  | nil => exact ⟨rfl, List.nodup_nil⟩
  | append_singleton calls c ih =>
    have hafter : after (calls ++ [c]) = c.apply (after calls) := by
      simp [after, List.foldl_append]
    rw [hafter]
    exact ih.apply c

/-- The first set with a property gives its value. -/
theorem get?_eq_some_iff_exists {name value : String} : s.get? name = some value ↔
    ∃ before set ps behind, s.sets = before ++ (set, ps) :: behind ∧
      Entries.get? name ps = some value ∧ ∀ e ∈ before, Entries.get? name e.2 = none := by
  have hfirst : s.get? name = s.sets.findSome? fun e => Entries.get? name e.2 := by
    show List.findSome? _ (s.sets.map (·.2)) = _
    rw [List.findSome?_map]
    rfl
  rw [hfirst, List.findSome?_eq_some_iff]
  constructor
  · rintro ⟨before, ⟨set, ps⟩, behind, h⟩
    exact ⟨before, set, ps, behind, h⟩
  · rintro ⟨before, set, ps, behind, h⟩
    exact ⟨before, (set, ps), behind, h⟩

/-- **The set `batch` comes first.**  After any calls the sets are `batch` and the others in the order
in which they were added first, and a property is looked up in this order.  Setting, removing and
restoring a property changes this one of the set `batch` alone. -/
theorem priority_of_calls (calls : List Call) :
    let s := after calls
    s.names = ("batch" :: calls.filterMap Call.name?).eraseDups ∧
    (∀ name value, s.get? name = some value ↔
      ∃ before set ps behind, s.sets = before ++ (set, ps) :: behind ∧
        Entries.get? name ps = some value ∧ ∀ e ∈ before, Entries.get? name e.2 = none) ∧
    (∀ (c : Call) key value, c.edit? = some (key, value) →
      (c.apply s).names = s.names ∧ (c.apply s).sets.tail = s.sets.tail ∧
      (c.apply s).ownSet.get? key = value ∧
      (c.apply s).ownSet.filter (·.1 ≠ key) = s.ownSet.filter (·.1 ≠ key)) ∧
    (∀ key value, (s.set key value).get? key = some value) ∧
    ∀ name ps, (s.insert name ps).sets.get? name = some ps ∧
      ∀ other ≠ name, (s.insert name ps).sets.get? other = s.sets.get? other := by
  intro s
  have h : Follows calls s := follows_after calls
  have hown := h.ownFirst
  refine ⟨h.names, fun _ _ => get?_eq_some_iff_exists, fun c key value hedit => ?_,
    fun key value => ?_, fun name ps => ⟨Entries.get?_put_self name ps s.sets, fun other hne => ?_⟩⟩
  · rw [Call.apply_of_edit hedit, ownSet_insert_own]
    refine ⟨names_insert_own hown _, ?_, Entries.get?_assign_self h.distinct key value,
      Entries.filter_assign key value s.ownSet⟩
    rw [sets_insert_own hown]
    rfl
  · refine get?_of_own (hown.insert own _) ?_
    rw [ownSet_insert_own]
    exact Entries.get?_put_self key value s.ownSet
  · show Entries.get? other (Entries.put name ps s.sets) = _
    rw [Entries.get?_put, if_neg hne]

/-- The set `batch` is replaced behind others and a set by the same name; a property of it goes, and
one comes that another set has too. -/
theorem priority_of_calls_replaced :
    let ps : Properties := [("x", "1"), ("y", "2")]
    let calls : List Call := [.insert "conf" ps (by decide), .set "x" "3", .insert "other" [] (by decide),
      .insert "batch" [("z", "4")] (by decide), .insert "conf" [("y", "5"), ("z", "6")] (by decide)]
    let s := after calls
    s.names = ["batch", "conf", "other"] ∧ s.get? "x" = none ∧ s.get? "y" = some "5" ∧
      s.get? "z" = some "4" ∧ Call.edit? (.unset "z") = some ("z", none) ∧
      (s.unset "z").names = s.names ∧ (s.unset "z").get? "z" = some "6" ∧
      (s.set "y" "7").get? "y" = some "7" ∧ (s.insert "conf" []).sets.get? "other" = some [] := by
  intro ps calls s
  obtain ⟨hnames, hget, hedit, hset, hinsert⟩ := priority_of_calls calls
  obtain ⟨hkept, -, -, -⟩ := hedit (.unset "z") "z" none rfl
  have hother := (hinsert "conf" []).2 "other" (by decide)
  have hconf : ∃ before set ps behind, s.sets = before ++ (set, ps) :: behind ∧
      Entries.get? "y" ps = some "5" ∧ ∀ e ∈ before, Entries.get? "y" e.2 = none :=
    ⟨[("batch", [("z", "4")])], "conf", [("y", "5"), ("z", "6")], [("other", [])], rfl, rfl, by decide⟩
  exact ⟨hnames.trans (by decide), rfl, (hget "y" "5").2 hconf, rfl, rfl, hkept, rfl, hset "y" "7",
    hother⟩

end YamlQuery.PropertySets

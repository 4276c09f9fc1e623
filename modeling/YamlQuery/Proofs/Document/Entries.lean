import Mathlib.Data.List.Induction
import YamlQuery.Proofs.Document.Nodes

/-!
# Proofs.Document.Entries — changes of a map one after another

Putting and erasing at two keys come out the same in both orders, as long as the order of the
entries does not tell them apart.  Pairs put one after another leave each key at the place of its
first pair with the value of its last (`keys_ofList`, `get?_ofList`).  `assign` gives a key a value or takes it away, as it is done to
bring back what was there before; `putIf` leaves the key alone when there is no value.
-/

namespace YamlQuery.Entries

variable {α : Type} {k k' : String} {v w : α}

@[simp] theorem put_put : ∀ (k : String) (v w : α) (es : Entries α),
    put k w (put k v es) = put k w es
  | k, v, w, [] => by simp [put]
  | k, v, w, (k₁, v₁) :: es => by
    by_cases h : k₁ = k
    · simp [put, h]
    · simp [put, h, put_put k v w es]

/-- A key that is there keeps its place. -/
theorem put_comm (hne : k ≠ k') : ∀ {es : Entries α}, k ∈ es.keys →
    put k v (put k' w es) = put k' w (put k v es)
  | [], h => by simp [keys] at h
  | (k₁, v₁) :: es, h => by
    by_cases h₁ : k₁ = k
    · subst h₁
      simp [put, hne]
    · have hes : k ∈ keys es := by
        simpa [keys, Ne.symm h₁] using h
      by_cases h₂ : k₁ = k'
      · subst h₂
        simp [put, h₁]
      · simp [put, h₁, h₂, put_comm hne hes]

theorem erase_of_not_mem : ∀ {es : Entries α}, k ∉ es.keys → erase k es = es
  | [], _ => rfl
  | (k₁, v₁) :: es, h => by
    simp only [keys, List.map_cons, List.mem_cons, not_or] at h
    rw [erase, if_neg (Ne.symm h.1), erase_of_not_mem h.2]

theorem erase_put_of_not_mem : ∀ {es : Entries α}, k ∉ es.keys → erase k (put k v es) = es
  | [], _ => by simp [put, erase]
  | (k₁, v₁) :: es, h => by
    simp only [keys, List.map_cons, List.mem_cons, not_or] at h
    rw [put, if_neg (Ne.symm h.1), erase, if_neg (Ne.symm h.1), erase_put_of_not_mem h.2]

theorem erase_put_comm (hne : k ≠ k') : ∀ es : Entries α,
    erase k (put k' w es) = put k' w (erase k es)
  | [] => by simp [put, erase, hne.symm]
  | (k₁, v₁) :: es => by
    by_cases h₁ : k₁ = k
    · subst h₁
      simp [put, erase, hne]
    · by_cases h₂ : k₁ = k'
      · subst h₂
        simp [put, erase, h₁]
      · simp [put, erase, h₁, h₂, erase_put_comm hne es]

theorem get?_erase_of_ne (hne : k ≠ k') : ∀ es : Entries α, get? k (erase k' es) = get? k es
  | [] => rfl
  | (k₁, v₁) :: es => by
    by_cases h₁ : k₁ = k'
    · subst h₁
      simp [erase, get?, hne.symm]
    · by_cases h₂ : k₁ = k
      · subst h₂
        simp [erase, get?, hne]
      · simp [erase, get?, h₁, h₂, get?_erase_of_ne hne es]

theorem get?_erase_self : ∀ {es : Entries α}, es.Distinct → get? k (erase k es) = none
  | [], _ => rfl
  | (k₁, v₁) :: es, h => by
    obtain ⟨hnot, hes⟩ := distinct_cons.1 h
    by_cases h₁ : k₁ = k
    · subst h₁
      rw [erase, if_pos rfl, get?_eq_none_iff]
      exact hnot
    · rw [erase, if_neg h₁, get?, if_neg h₁, get?_erase_self hes]

/-! ### The other entries -/

/-- A value comes in the place of the old one, or behind all entries if there is none. -/
theorem exists_put (k : String) (v : α) (es : Entries α) :
    (∃ before old behind, es = before ++ (k, old) :: behind ∧
      put k v es = before ++ (k, v) :: behind) ∨ k ∉ es.keys ∧ put k v es = es ++ [(k, v)] := by
  by_cases h : k ∈ es.keys
  · refine .inl ?_
    induction es with
    | nil => simp [keys] at h
    | cons e es ih =>
      obtain ⟨k', old⟩ := e
      by_cases hk : k' = k
      · exact ⟨[], old, es, by rw [hk]; rfl, by rw [put, if_pos hk, hk]; rfl⟩
      · have hes : k ∈ keys es := by simpa [keys, Ne.symm hk] using h
        obtain ⟨before, old', behind, rfl, hput⟩ := ih hes
        exact ⟨(k', old) :: before, old', behind, rfl, by rw [put, if_neg hk, hput]; rfl⟩
  · exact .inr ⟨h, put_of_not_mem h v⟩

theorem filter_put (k : String) (v : α) (es : Entries α) :
    (put k v es).filter (·.1 ≠ k) = es.filter (·.1 ≠ k) := by
  induction es with
  | nil => simp [put]
  | cons e es ih => by_cases h : e.1 = k <;> simp_all [put]

theorem filter_erase (k : String) (es : Entries α) :
    (erase k es).filter (·.1 ≠ k) = es.filter (·.1 ≠ k) := by
  induction es with
  | nil => rfl
  | cons e es ih => by_cases h : e.1 = k <;> simp_all [erase]

/-! ### The order of the keys -/

theorem keys_prefix_put (k : String) (v : α) (es : Entries α) : es.keys <+: (put k v es).keys := by
  by_cases h : k ∈ es.keys
  · exact ⟨[], by rw [keys_put_of_mem h, List.append_nil]⟩
  · rw [put_of_not_mem h, keys, keys, List.map_append]
    exact List.prefix_append _ _

/-- A key that goes does not come before others that stay. -/
theorem prefix_keys_erase : ∀ {es : Entries α} {ks : List String},
    ks <+: es.keys → k ∉ ks → ks <+: (erase k es).keys
  | [], _, h, _ => h
  | (k₁, v₁) :: es, [], _, _ => List.nil_prefix
  | (k₁, v₁) :: es, k₂ :: ks, h, hk => by
    obtain ⟨rfl, hks⟩ := List.cons_prefix_cons.1 h
    obtain ⟨hne, hk⟩ := not_or.1 (mt List.mem_cons.2 hk)
    rw [erase, if_neg (Ne.symm hne)]
    exact List.cons_prefix_cons.2 ⟨rfl, prefix_keys_erase hks hk⟩

/-! ### Values that may be there -/

/-- The map with a value for a key, or without the key. -/
def assign (key : String) (value : Option α) (es : Entries α) : Entries α :=
  match value with
  | some v => put key v es
  | none => erase key es

/-- The map with a value for a key, if there is one. -/
def putIf (key : String) (value : Option α) (es : Entries α) : Entries α :=
  match value with
  | some v => put key v es
  | none => es

variable {es : Entries α} {value : Option α}

theorem Distinct.assign (h : es.Distinct) (key : String) (value : Option α) :
    (assign key value es).Distinct := by
  cases value with
  | some v => exact h.put key v
  | none => exact h.erase key

theorem Distinct.putIf (h : es.Distinct) (key : String) (value : Option α) :
    (putIf key value es).Distinct := by
  cases value with
  | some v => exact h.put key v
  | none => exact h

theorem get?_assign_self (h : es.Distinct) (key : String) (value : Option α) :
    get? key (assign key value es) = value := by
  cases value with
  | some v => exact get?_put_self key v es
  | none => exact get?_erase_self h

theorem filter_assign (key : String) (value : Option α) (es : Entries α) :
    (assign key value es).filter (·.1 ≠ key) = es.filter (·.1 ≠ key) := by
  cases value with
  | some v => exact filter_put key v es
  | none => exact filter_erase key es

theorem get?_assign_of_ne (hne : k ≠ k') (value : Option α) (es : Entries α) :
    get? k (assign k' value es) = get? k es := by
  cases value with
  | some v => rw [assign, get?_put, if_neg hne]
  | none => exact get?_erase_of_ne hne es

theorem get?_putIf_self (key : String) (value : Option α) (es : Entries α) :
    get? key (putIf key value es) = value.or (get? key es) := by
  cases value with
  | some v => exact get?_put_self key v es
  | none => rfl

theorem get?_putIf_of_ne (hne : k ≠ k') (value : Option α) (es : Entries α) :
    get? k (putIf k' value es) = get? k es := by
  cases value with
  | some v => rw [putIf, get?_put, if_neg hne]
  | none => rfl

/-- A key that is not there need not be taken away. -/
theorem assign_eq_putIf (h : value = none → get? k es = none) :
    assign k value es = putIf k value es := by
  cases value with
  | some v => rfl
  | none => exact erase_of_not_mem ((get?_eq_none_iff k es).1 (h rfl))

theorem mem_keys_putIf (key : String) (v : α) (es : Entries α) :
    key ∈ (putIf key (some v) es).keys :=
  mem_keys.2 ⟨v, mem_of_get? (get?_put_self key v es)⟩

theorem putIf_putIf (key : String) (v w : Option α) (es : Entries α) :
    putIf key w (putIf key v es) = putIf key (w.or v) es := by
  cases w with
  | some w => cases v <;> simp [putIf]
  | none => rfl

theorem assign_putIf (h : value = none → get? k es = none) (v : Option α) :
    assign k value (putIf k v es) = putIf k value es := by
  cases v with
  | none => exact assign_eq_putIf h
  | some v =>
    cases value with
    | some w => exact put_put k v w es
    | none => exact erase_put_of_not_mem ((get?_eq_none_iff k es).1 (h rfl))

theorem assign_putIf_comm (hne : k ≠ k') {w : Option α}
    (h : value = none ∨ w = none ∨ k ∈ es.keys) :
    assign k value (putIf k' w es) = putIf k' w (assign k value es) := by
  cases w with
  | none => rfl
  | some w =>
    cases value with
    | none => exact erase_put_comm hne es
    | some v => exact put_comm hne ((h.resolve_left nofun).resolve_left nofun)

/-- Of values for two keys nothing is left when both keys get new ones, or lose theirs if they had
none before. -/
theorem assign_assign_putIf {v v' w w' : Option α} (hne : k ≠ k')
    (hv : v = none → get? k es = none) (hv' : v' = none → get? k' es = none)
    (h : w = none → v = none ∨ w' = none) :
    assign k' v' (assign k v (putIf k' w' (putIf k w es))) = putIf k' v' (putIf k v es) := by
  have hmem : v = none ∨ w' = none ∨ k ∈ (putIf k w es).keys := by
    cases w with
    | none => exact (h rfl).imp_right .inl
    | some w => exact .inr (.inr (mem_keys_putIf k w es))
  rw [assign_putIf_comm hne hmem, assign_putIf hv, assign_putIf]
  rw [get?_putIf_of_ne hne.symm]
  exact hv'

theorem putIf_eq_self (h : value = none ∨ get? k es = value) : putIf k value es = es := by
  cases value with
  | some v => exact put_of_get? (h.resolve_left nofun)
  | none => rfl

/-! ### Pairs put one after another -/

theorem ofList_concat (pairs : List (String × α)) (e : String × α) :
    ofList (pairs ++ [e]) = put e.1 e.2 (ofList pairs) := by
  rw [ofList, ofList, List.foldl_append]
  rfl

/-- A key that is put comes behind the keys that were put before, unless it is one of them. -/
theorem keys_put_eq_eraseDups {es : Entries α} {ks : List String} (h : es.keys = ks.eraseDups)
    (key : String) (v : α) : (put key v es).keys = (ks ++ [key]).eraseDups := by
  have hmem : key ∈ es.keys ↔ key ∈ ks := by rw [h, List.mem_eraseDups]
  rw [List.eraseDups_append, ← h]
  by_cases hkey : key ∈ ks
  · have hnone : List.removeAll [key] ks = [] := by simpa [List.removeAll] using hkey
    rw [keys_put_of_mem (hmem.2 hkey), hnone, List.eraseDups_nil, List.append_nil]
  · have hsome : List.removeAll [key] ks = [key] := by simpa [List.removeAll] using hkey
    rw [put_of_not_mem (mt hmem.1 hkey), keys, List.map_append, List.map_singleton, hsome]
    rfl

/-- A key has the place of the first pair with it. -/
theorem keys_ofList (pairs : List (String × α)) :
    (ofList pairs).keys = (pairs.map (·.1)).eraseDups := by
  induction pairs using List.reverseRecOn with
  | nil => rfl
  | append_singleton pairs e ih =>
    rw [ofList_concat, List.map_append, List.map_singleton]
    exact keys_put_eq_eraseDups ih e.1 e.2

/-- A key has the value of the last pair with it. -/
theorem get?_ofList (key : String) (pairs : List (String × α)) :
    get? key (ofList pairs) = get? key pairs.reverse := by
  induction pairs using List.reverseRecOn with
  | nil => rfl
  | append_singleton pairs e ih =>
    rw [ofList_concat, get?_put, ih, List.reverse_concat, get?]
    simp only [eq_comm]

theorem ofList_eq_self_iff {pairs : List (String × α)} :
    ofList pairs = pairs ↔ (pairs.map (·.1)).Nodup :=
  ⟨fun h => h ▸ distinct_ofList pairs, ofList_eq_self⟩

end YamlQuery.Entries

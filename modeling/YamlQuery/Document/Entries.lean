/-!
# Document.Entries — maps that keep the order of first insertion

A map from texts to values is the list of its entries in the order in which their keys came in.
`put` overwrites in place and appends a new key; `erase` keeps the order of the others.  `Distinct`
says that no key occurs twice; `put`, `erase` and `ofList` keep or establish it.
-/

namespace YamlQuery

/-- The entries of a map, in the order of their first insertion. -/
abbrev Entries (α : Type) := List (String × α)

namespace Entries

variable {α : Type}

/-- The value of a key. -/
def get? (key : String) : Entries α → Option α
  | [] => none
  | (k, v) :: es => if k = key then some v else get? key es

/-- The keys in order. -/
def keys (es : Entries α) : List String := es.map (·.1)

/-- The values in order. -/
def values (es : Entries α) : List α := es.map (·.2)

/-- Sets the value of a key: in its place if the key is there, else behind all entries. -/
def put (key : String) (value : α) : Entries α → Entries α
  | [] => [(key, value)]
  | (k, v) :: es => if k = key then (k, value) :: es else (k, v) :: put key value es

/-- The map without a key. -/
def erase (key : String) : Entries α → Entries α
  | [] => []
  | (k, v) :: es => if k = key then es else (k, v) :: erase key es

/-- The map that pairs give when they are put one after another: the last value of a key wins, at
the place of the first. -/
def ofList (pairs : List (String × α)) : Entries α :=
  pairs.foldl (fun es e => put e.1 e.2 es) []

/-- No key occurs twice. -/
def Distinct (es : Entries α) : Prop := es.keys.Nodup

instance (es : Entries α) : Decidable es.Distinct := inferInstanceAs (Decidable (List.Nodup _))

/-! ### Lookup -/

@[simp] theorem get?_nil (key : String) : get? key ([] : Entries α) = none := rfl

theorem get?_put (key k : String) (v : α) (es : Entries α) :
    get? k (put key v es) = if k = key then some v else get? k es := by
  induction es with
  | nil => by_cases h : key = k <;> simp [put, get?, h, eq_comm]
  | cons e es ih => grind [put, get?]

theorem get?_put_self (key : String) (v : α) (es : Entries α) :
    get? key (put key v es) = some v := by
  simp [get?_put]

theorem get?_eq_none_iff (key : String) (es : Entries α) : get? key es = none ↔ key ∉ es.keys := by
  induction es with
  | nil => simp [keys]
  | cons e es ih =>
    simp only [get?, keys, List.map_cons, List.mem_cons, not_or]
    by_cases h : e.1 = key
    · simp [h]
    · simp only [h, if_false, ih, keys]
      simp [Ne.symm h]

/-! ### Keys -/

theorem keys_put_of_mem {key : String} {es : Entries α} (h : key ∈ es.keys) (v : α) :
    (put key v es).keys = es.keys := by
  induction es with
  | nil => simp [keys] at h
  | cons e es ih =>
    by_cases he : e.1 = key
    · simp [put, he, keys]
    · have : key ∈ keys es := by simpa [keys, Ne.symm he] using h
      simpa [put, he, keys] using ih this

theorem put_of_not_mem {key : String} {es : Entries α} (h : key ∉ es.keys) (v : α) :
    put key v es = es ++ [(key, v)] := by
  induction es with
  | nil => rfl
  | cons e es ih =>
    simp only [keys, List.map_cons, List.mem_cons, not_or] at h
    simp [put, Ne.symm h.1, ih h.2]

theorem keys_erase_sublist (key : String) (es : Entries α) :
    (erase key es).keys.Sublist es.keys := by
  induction es with
  | nil => exact .slnil
  | cons e es ih =>
    by_cases he : e.1 = key
    · simp [erase, he, keys]
    · simpa [erase, he, keys] using ih

theorem Distinct.put {es : Entries α} (h : es.Distinct) (key : String) (v : α) :
    (put key v es).Distinct := by
  by_cases hk : key ∈ es.keys
  · simpa [Distinct, keys_put_of_mem hk] using h
  · rw [put_of_not_mem hk]
    simp only [Distinct, keys, List.map_append, List.map_cons, List.map_nil]
    refine List.nodup_append.2 ⟨h, by simp, ?_⟩
    simp only [List.mem_singleton, forall_eq]
    rintro a ha rfl
    exact hk ha

theorem Distinct.erase {es : Entries α} (h : es.Distinct) (key : String) :
    (erase key es).Distinct :=
  h.sublist (keys_erase_sublist key es)

theorem distinct_ofList (pairs : List (String × α)) : (ofList pairs).Distinct := by
  suffices ∀ es : Entries α, es.Distinct →
      (pairs.foldl (fun es e => Entries.put e.1 e.2 es) es).Distinct from
    this [] List.nodup_nil
  induction pairs with
  | nil => exact fun _ h => h
  | cons p ps ih => exact fun es h => ih _ (h.put p.1 p.2)

/-- Pairs with distinct keys are their own map. -/
theorem ofList_eq_self {es : Entries α} (h : es.Distinct) : ofList es = es := by
  suffices ∀ (front : Entries α) (es : List (String × α)), Distinct (front ++ es) →
      es.foldl (fun es e => Entries.put e.1 e.2 es) front = front ++ es by
    simpa [ofList] using this [] es h
  intro front es
  induction es generalizing front with
  | nil => simp
  | cons e es ih =>
    intro h
    have hk : e.1 ∉ front.keys := by
      simp only [Distinct, keys, List.map_append, List.map_cons] at h
      intro hm
      exact (List.nodup_append.1 h).2.2 _ hm _ (by simp) rfl
    rw [List.foldl_cons, put_of_not_mem hk, ih _ (by simpa using h)]
    simp

end Entries

end YamlQuery

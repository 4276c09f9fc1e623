import Mathlib.Tactic.NthRewrite
import YamlQuery.Json.Basic
import YamlQuery.Yaml.Basic

/-!
# Proofs.Document.Parts — YAML and JSON values part by part

`induct` is the induction over values with the parts of a container as members of its list.  `Each`
says that a value and all values in it have a property; `mapNumbers` changes the numbers of a value.
-/

namespace YamlQuery

theorem map_eq_self_iff {α : Type} {g : α → α} {l : List α} :
    l.map g = l ↔ ∀ a ∈ l, g a = a := by
  nth_rewrite 2 [← List.map_id l]
  exact List.map_inj_left

theorem map_snd_eq_self_iff {κ α : Type} {g : α → α} {l : List (κ × α)} :
    (l.map fun e => (e.1, g e.2)) = l ↔ ∀ e ∈ l, g e.2 = e.2 := by
  rw [map_eq_self_iff]
  simp [Prod.ext_iff]

/-! ### YAML values -/

/-- A property that passes from the parts of a value to the value holds of every value. -/
@[elab_as_elim]
theorem Yaml.induct {P : Yaml → Prop} (null : P .null) (boolean : ∀ b, P (.boolean b))
    (number : ∀ n, P (.number n)) (string : ∀ s, P (.string s))
    (sequence : ∀ items, (∀ v ∈ items, P v) → P (.sequence items))
    (mapping : ∀ entries, (∀ e ∈ entries, P e.1 ∧ P e.2) → P (.mapping entries))
    (tagged : ∀ t v, P v → P (.tagged t v)) (y : Yaml) : P y := by
  refine @Yaml.rec P (fun items => ∀ v ∈ items, P v) (fun es => ∀ e ∈ es, P e.1 ∧ P e.2)
    (fun e => P e.1 ∧ P e.2) null boolean number string sequence mapping tagged (by simp) ?_
    (by simp) ?_ (fun _ _ h h' => ⟨h, h'⟩) y
  · intro v vs hv hvs w hw
    rcases List.mem_cons.1 hw with rfl | hw
    · exact hv
    · exact hvs w hw
  · intro e es he hes f hf
    rcases List.mem_cons.1 hf with rfl | hf
    · exact he
    · exact hes f hf

namespace Yaml

variable {P Q : Yaml → Prop} {items : List Yaml} {entries : List (Yaml × Yaml)}

mutual

/-- The value and all values in it, keys aside, have a property. -/
def Each (P : Yaml → Prop) : Yaml → Prop
  | .sequence items => P (.sequence items) ∧ EachItem P items
  | .mapping entries => P (.mapping entries) ∧ EachEntry P entries
  | .tagged t v => P (.tagged t v) ∧ Each P v
  | v => P v

def EachItem (P : Yaml → Prop) : List Yaml → Prop
  | [] => True
  | v :: vs => Each P v ∧ EachItem P vs

def EachEntry (P : Yaml → Prop) : List (Yaml × Yaml) → Prop
  | [] => True
  | (_, v) :: es => Each P v ∧ EachEntry P es

end

theorem eachItem_iff : EachItem P items ↔ ∀ v ∈ items, v.Each P := by
  induction items with
  | nil => simp [EachItem]
  | cons v vs ih => simp [EachItem, ih]

theorem eachEntry_iff : EachEntry P entries ↔ ∀ e ∈ entries, e.2.Each P := by
  induction entries with
  | nil => simp [EachEntry]
  | cons e es ih => simp [EachEntry, ih]

theorem each_sequence :
    (sequence items).Each P ↔ P (.sequence items) ∧ ∀ v ∈ items, v.Each P := by
  rw [Each, eachItem_iff]

theorem each_mapping :
    (mapping entries).Each P ↔ P (.mapping entries) ∧ ∀ e ∈ entries, e.2.Each P := by
  rw [Each, eachEntry_iff]

theorem Each.self {y : Yaml} (h : y.Each P) : P y := by
  cases y with
  | sequence | mapping | tagged => exact h.1
  | null | boolean | number | string => exact h

theorem Each.mono {y : Yaml} (h : y.Each P) (hPQ : ∀ v, P v → Q v) : y.Each Q := by
  induction y using Yaml.induct with
  | null | boolean | number | string => exact hPQ _ h
  | tagged t v ih => exact ⟨hPQ _ h.1, ih h.2⟩
  | sequence items ih =>
    rw [each_sequence] at h ⊢
    exact ⟨hPQ _ h.1, fun v hv => ih v hv (h.2 v hv)⟩
  | mapping entries ih =>
    rw [each_mapping] at h ⊢
    exact ⟨hPQ _ h.1, fun e he => (ih e he).2 (h.2 e he)⟩

theorem distinctItems_iff : DistinctItems items ↔ ∀ v ∈ items, v.Distinct := by
  induction items with
  | nil => simp [DistinctItems]
  | cons v vs ih => simp [DistinctItems, ih]

theorem distinctEntries_iff :
    DistinctEntries entries ↔ ∀ e ∈ entries, e.1.Distinct ∧ e.2.Distinct := by
  induction entries with
  | nil => simp [DistinctEntries]
  | cons e es ih => simp [DistinctEntries, ih, and_assoc]

/-! ### Numbers of YAML values -/

variable {f : Numeral → Numeral}

/-- Each number of the value, those in keys aside, has a property. -/
def EachNumber (P : Numeral → Prop) : Yaml → Prop :=
  Each fun
    | .number n => P n
    | _ => True

mutual

/-- The value with other numbers, those in keys aside. -/
def mapNumbers (f : Numeral → Numeral) : Yaml → Yaml
  | .number n => .number (f n)
  | .sequence items => .sequence (mapNumbersItems f items)
  | .mapping entries => .mapping (mapNumbersEntries f entries)
  | .tagged t v => .tagged t (mapNumbers f v)
  | v => v

def mapNumbersItems (f : Numeral → Numeral) : List Yaml → List Yaml
  | [] => []
  | v :: vs => mapNumbers f v :: mapNumbersItems f vs

def mapNumbersEntries (f : Numeral → Numeral) : List (Yaml × Yaml) → List (Yaml × Yaml)
  | [] => []
  | (k, v) :: es => (k, mapNumbers f v) :: mapNumbersEntries f es

end

theorem mapNumbersItems_eq (items : List Yaml) :
    mapNumbersItems f items = items.map (mapNumbers f) := by
  induction items with
  | nil => rfl
  | cons v vs ih => rw [mapNumbersItems, ih, List.map_cons]

theorem mapNumbersEntries_eq (entries : List (Yaml × Yaml)) :
    mapNumbersEntries f entries = entries.map fun e => (e.1, e.2.mapNumbers f) := by
  induction entries with
  | nil => rfl
  | cons e es ih => rw [mapNumbersEntries, ih, List.map_cons]

theorem mapNumbers_eq_self_iff {y : Yaml} :
    y.mapNumbers f = y ↔ y.EachNumber fun n => f n = n := by
  induction y using Yaml.induct with
  | null | boolean | string | number => simp [mapNumbers, EachNumber, Each]
  | tagged t v ih =>
    rw [mapNumbers, EachNumber, Each, tagged.injEq, and_iff_right rfl, and_iff_right trivial, ih,
      EachNumber]
  | sequence items ih =>
    rw [mapNumbers, EachNumber, each_sequence, and_iff_right trivial, mapNumbersItems_eq,
      sequence.injEq, map_eq_self_iff]
    exact forall₂_congr ih
  | mapping entries ih =>
    rw [mapNumbers, EachNumber, each_mapping, and_iff_right trivial, mapNumbersEntries_eq,
      mapping.injEq, map_snd_eq_self_iff]
    exact forall₂_congr fun e he => (ih e he).2

end Yaml

/-! ### JSON values -/

namespace Json

/-- A property that passes from the parts of a value to the value holds of every value. -/
@[elab_as_elim]
theorem induct {P : Json → Prop} (null : P .null) (boolean : ∀ b, P (.boolean b))
    (number : ∀ n, P (.number n)) (string : ∀ s, P (.string s))
    (array : ∀ items, (∀ v ∈ items, P v) → P (.array items))
    (object : ∀ members, (∀ m ∈ members, P m.2) → P (.object members)) (j : Json) : P j := by
  refine @Json.rec P (fun items => ∀ v ∈ items, P v) (fun ms => ∀ m ∈ ms, P m.2)
    (fun m => P m.2) null boolean number string array object (by simp) ?_ (by simp) ?_
    (fun _ _ h => h) j
  · intro v vs hv hvs w hw
    rcases List.mem_cons.1 hw with rfl | hw
    · exact hv
    · exact hvs w hw
  · intro m ms hm hms n hn
    rcases List.mem_cons.1 hn with rfl | hn
    · exact hm
    · exact hms n hn

variable {P : Json → Prop} {items : List Json} {members : List (String × Json)}

mutual

/-- The value and all values in it have a property. -/
def Each (P : Json → Prop) : Json → Prop
  | .array items => P (.array items) ∧ EachItem P items
  | .object members => P (.object members) ∧ EachMember P members
  | v => P v

def EachItem (P : Json → Prop) : List Json → Prop
  | [] => True
  | v :: vs => Each P v ∧ EachItem P vs

def EachMember (P : Json → Prop) : List (String × Json) → Prop
  | [] => True
  | (_, v) :: ms => Each P v ∧ EachMember P ms

end

theorem eachItem_iff : EachItem P items ↔ ∀ v ∈ items, v.Each P := by
  induction items with
  | nil => simp [EachItem]
  | cons v vs ih => simp [EachItem, ih]

theorem eachMember_iff : EachMember P members ↔ ∀ m ∈ members, m.2.Each P := by
  induction members with
  | nil => simp [EachMember]
  | cons m ms ih => simp [EachMember, ih]

theorem each_array : (array items).Each P ↔ P (.array items) ∧ ∀ v ∈ items, v.Each P := by
  rw [Each, eachItem_iff]

theorem each_object :
    (object members).Each P ↔ P (.object members) ∧ ∀ m ∈ members, m.2.Each P := by
  rw [Each, eachMember_iff]

/-- No object in the value has a key twice. -/
def Distinct : Json → Prop :=
  Each fun
    | .object members => (members.map (·.1)).Nodup
    | _ => True

/-- Each number of the value has a property. -/
def EachNumber (P : Numeral → Prop) : Json → Prop :=
  Each fun
    | .number n => P n
    | _ => True

mutual

/-- The value with other numbers. -/
def mapNumbers (f : Numeral → Numeral) : Json → Json
  | .number n => .number (f n)
  | .array items => .array (mapNumbersItems f items)
  | .object members => .object (mapNumbersMembers f members)
  | v => v

def mapNumbersItems (f : Numeral → Numeral) : List Json → List Json
  | [] => []
  | v :: vs => mapNumbers f v :: mapNumbersItems f vs

def mapNumbersMembers (f : Numeral → Numeral) : List (String × Json) → List (String × Json)
  | [] => []
  | (k, v) :: ms => (k, mapNumbers f v) :: mapNumbersMembers f ms

end

variable {f : Numeral → Numeral}

theorem mapNumbersItems_eq (items : List Json) :
    mapNumbersItems f items = items.map (mapNumbers f) := by
  induction items with
  | nil => rfl
  | cons v vs ih => rw [mapNumbersItems, ih, List.map_cons]

theorem mapNumbersMembers_eq (members : List (String × Json)) :
    mapNumbersMembers f members = members.map fun m => (m.1, m.2.mapNumbers f) := by
  induction members with
  | nil => rfl
  | cons m ms ih => rw [mapNumbersMembers, ih, List.map_cons]

theorem mapNumbers_eq_self_iff {j : Json} :
    j.mapNumbers f = j ↔ j.EachNumber fun n => f n = n := by
  induction j using Json.induct with
  | null | boolean | string | number => simp [mapNumbers, EachNumber, Each]
  | array items ih =>
    rw [mapNumbers, EachNumber, each_array, and_iff_right trivial, mapNumbersItems_eq,
      array.injEq, map_eq_self_iff]
    exact forall₂_congr ih
  | object members ih =>
    rw [mapNumbers, EachNumber, each_object, and_iff_right trivial, mapNumbersMembers_eq,
      object.injEq, map_snd_eq_self_iff]
    exact forall₂_congr ih

end Json

end YamlQuery

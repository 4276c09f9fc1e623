import YamlQuery.Proofs.Document.Numerals
import YamlQuery.Proofs.Document.Nodes

/-!
# Proofs.Document.Values — documents that come back from YAML and JSON values

A document comes back from its YAML value as it was, and from its JSON value exactly if its doubles
are finite (`decode_encode`).  `depth` counts the containers around the innermost node.
-/

namespace YamlQuery

namespace Number

/-- Not an infinity, and not not-a-number. -/
def IsFinite : Number → Prop
  | .integer _ => True
  | .double x => x.isFinite

instance : DecidablePred IsFinite
  | .integer _ => inferInstanceAs (Decidable True)
  | .double x => inferInstanceAs (Decidable (x.isFinite = true))

def IsInteger : Number → Prop
  | .integer _ => True
  | .double _ => False

instance : DecidablePred IsInteger
  | .integer _ => inferInstanceAs (Decidable True)
  | .double _ => inferInstanceAs (Decidable False)

theorem IsInteger.isFinite {n : Number} (h : n.IsInteger) : n.IsFinite := by
  cases n with
  | integer i => trivial
  | double x => exact h.elim

theorem ofNumeral_ofInt64 (i : Int64) : ofNumeral (.integer (.ofInt64 i)) = .integer i := by
  have hlt : i.toInt < 0x8000000000000000 := i.toInt_lt
  simp [ofNumeral, WideInt.toInt64?, WideInt.ofInt64, hlt]

theorem ofNumeral_toNumeral (n : Number) : ofNumeral n.toNumeral = n := by
  cases n with
  | integer i => exact ofNumeral_ofInt64 i
  | double x => rfl

end Number

/-- Entries with the keys of a map are their own map. -/
theorem Entries.ofList_map_snd {α β : Type} {es : Entries α} (h : es.Distinct) (f : α → β) :
    ofList (es.map fun e => (e.1, f e.2)) = es.map fun e => (e.1, f e.2) := by
  rw [ofList_eq_self_iff, List.map_map]
  exact h

namespace Value

variable {items : List Value} {entries : List (String × Value)}

/-! ### Numbers of documents -/

/-- Each number of the document has a property. -/
def EachNumber (P : Number → Prop) : Value → Prop :=
  Each fun
    | .number n => P n
    | _ => True

theorem eachNumber_sequence {P : Number → Prop} :
    (sequence items).EachNumber P ↔ ∀ v ∈ items, v.EachNumber P :=
  each_sequence.trans (and_iff_right trivial)

theorem eachNumber_mapping {P : Number → Prop} :
    (mapping entries).EachNumber P ↔ ∀ e ∈ entries, e.2.EachNumber P :=
  each_mapping.trans (and_iff_right trivial)

theorem EachNumber.mono {P Q : Number → Prop} {v : Value} (h : v.EachNumber P)
    (hPQ : ∀ n, P n → Q n) : v.EachNumber Q :=
  Each.mono h fun u hu => by
    cases u with
    | number n => exact hPQ n hu
    | null | boolean | string | sequence | mapping => trivial

/-! ### Texts of documents -/

/-- Each key of the document has a property. -/
def EachKey (P : String → Prop) : Value → Prop :=
  Each fun
    | .mapping entries => ∀ e ∈ entries, P e.1
    | _ => True

/-- Each string and each key of the document has a property. -/
def EachText (P : String → Prop) : Value → Prop :=
  Each fun
    | .string s => P s
    | .mapping entries => ∀ e ∈ entries, P e.1
    | _ => True

theorem eachKey_sequence {P : String → Prop} :
    (sequence items).EachKey P ↔ ∀ v ∈ items, v.EachKey P :=
  each_sequence.trans (and_iff_right trivial)

theorem eachKey_mapping {P : String → Prop} :
    (mapping entries).EachKey P ↔ (∀ e ∈ entries, P e.1) ∧ ∀ e ∈ entries, e.2.EachKey P :=
  each_mapping

theorem eachText_sequence {P : String → Prop} :
    (sequence items).EachText P ↔ ∀ v ∈ items, v.EachText P :=
  each_sequence.trans (and_iff_right trivial)

theorem eachText_mapping {P : String → Prop} :
    (mapping entries).EachText P ↔ (∀ e ∈ entries, P e.1) ∧ ∀ e ∈ entries, e.2.EachText P :=
  each_mapping

/-! ### From YAML and JSON values -/

theorem ofYaml_toYaml {v : Value} (hd : v.Distinct) : ofYaml v.toYaml = v := by
  induction v using Value.induct with
  | scalar v hv =>
    cases v with
    | sequence | mapping => cases hv
    | number n => rw [toYaml, ofYaml, Number.ofNumeral_toNumeral]
    | null | boolean | string => rfl
  | sequence items ih =>
    have hitems := distinctItems_iff.1 hd
    rw [toYaml, ofYaml, toYamlItems_eq, ofYamlItems_eq, List.map_map, sequence.injEq,
      map_eq_self_iff]
    exact fun v hv => ih v hv (hitems v hv)
  | mapping entries ih =>
    have hentries := distinctEntries_iff.1 hd.2
    have hback : ofYamlEntries (toYamlEntries entries) =
        entries.map fun e => (e.1, ofYaml e.2.toYaml) := by
      rw [toYamlEntries_eq, ofYamlEntries_eq, List.map_map]
      rfl
    rw [toYaml, ofYaml, hback, Entries.ofList_map_snd hd.1 fun v => ofYaml v.toYaml,
      mapping.injEq, map_snd_eq_self_iff (g := fun v => ofYaml v.toYaml)]
    exact fun e he => ih e he (hentries e he)

/-- JSON keeps a document exactly if its doubles are finite: others become null. -/
theorem ofJson_toJson_eq_self_iff {v : Value} (hd : v.Distinct) :
    ofJson v.toJson = v ↔ v.EachNumber Number.IsFinite := by
  induction v using Value.induct with
  | scalar v hv =>
    cases v with
    | sequence | mapping => cases hv
    | number n =>
      cases n with
      | integer i => simp [toJson, ofJson, Number.ofNumeral_ofInt64, EachNumber, Each,
          Number.IsFinite]
      | double x =>
        by_cases hx : x.isFinite <;>
          simp [toJson, hx, ofJson, Number.ofNumeral, EachNumber, Each, Number.IsFinite]
    | null | boolean | string => simp [toJson, ofJson, EachNumber, Each]
  | sequence items ih =>
    have hitems := distinctItems_iff.1 hd
    rw [toJson, ofJson, toJsonItems_eq, ofJsonItems_eq, List.map_map, sequence.injEq,
      map_eq_self_iff, eachNumber_sequence]
    exact forall₂_congr fun v hv => ih v hv (hitems v hv)
  | mapping entries ih =>
    have hentries := distinctEntries_iff.1 hd.2
    have hback : ofJsonMembers (toJsonMembers entries) =
        entries.map fun e => (e.1, ofJson e.2.toJson) := by
      rw [toJsonMembers_eq, ofJsonMembers_eq, List.map_map]
      rfl
    rw [toJson, ofJson, hback, Entries.ofList_map_snd hd.1 fun v => ofJson v.toJson,
      mapping.injEq, map_snd_eq_self_iff (g := fun v => ofJson v.toJson), eachNumber_mapping]
    exact forall₂_congr fun e he => ih e he (hentries e he)

/-- **A document comes back from its YAML value, and from its JSON value exactly if all its doubles
are finite.**  The entries of each mapping come back in their order, and an integer and a double of
equal value stay different numbers. -/
theorem decode_encode {v : Value} (hd : v.Distinct) :
    ofYaml v.toYaml = v ∧ (ofJson v.toJson = v ↔ v.EachNumber Number.IsFinite) :=
  ⟨ofYaml_toYaml hd, ofJson_toJson_eq_self_iff hd⟩

theorem decode_encode_orders :
    let v : Value := .mapping [("zeta", .sequence [.number (.integer 1),
        .number (.double (.ofInt 1)), .string "1"]),
      ("alpha", .mapping [("b", .null), ("a", .number (.integer (-9223372036854775808)))])]
    v.Distinct ∧ v.EachNumber Number.IsFinite ∧ ofYaml v.toYaml = v ∧ ofJson v.toJson = v := by
  intro v
  have hd : v.Distinct := by decide
  have hfinite : v.EachNumber Number.IsFinite := by
    simp only [v, EachNumber, Each, EachEntry, EachItem]
    decide
  exact ⟨hd, hfinite, (decode_encode hd).1, (decode_encode hd).2.2 hfinite⟩

/-! ### Depth -/

mutual

/-- How many containers lie one in another. -/
def depth : Value → Nat
  | .sequence items => depthItems items + 1
  | .mapping entries => depthEntries entries + 1
  | _ => 0

def depthItems : List Value → Nat
  | [] => 0
  | v :: vs => max (depth v) (depthItems vs)

def depthEntries : List (String × Value) → Nat
  | [] => 0
  | (_, v) :: es => max (depth v) (depthEntries es)

end

theorem depthItems_le_iff {n : Nat} : depthItems items ≤ n ↔ ∀ v ∈ items, v.depth ≤ n := by
  induction items with
  | nil => simp [depthItems]
  | cons v vs ih => simp [depthItems, ih]

theorem depthEntries_le_iff {n : Nat} :
    depthEntries entries ≤ n ↔ ∀ e ∈ entries, e.2.depth ≤ n := by
  induction entries with
  | nil => simp [depthEntries]
  | cons e es ih => simp [depthEntries, ih]

end Value

end YamlQuery

import YamlQuery.Proofs.Document.Keys
import YamlQuery.Proofs.Double.Rounding

/-!
# Proofs.Document.Numerals — values that come back from a document

A document holds the integers of 64 bits with a sign, and doubles.  What a text holds beyond that
range comes back as a double (`Numeral.narrowed`), and a value comes back with its numbers narrowed
and nothing else changed (`toYaml_ofYaml`, `toJson_ofJson`).
-/

namespace YamlQuery

/-! ### Numbers -/

/-- The greatest unsigned integer of 64 bits. -/
def WideInt.greatest : WideInt := ⟨0xFFFFFFFFFFFFFFFF, by decide, by decide⟩

namespace Numeral

/-- The number that comes back from a document. -/
def narrowed : Numeral → Numeral
  | .integer i => if i.toInt < 0x8000000000000000 then .integer i else .double (.ofInt i.toInt)
  | .double x => .double x

/-- A double, or an integer of the signed 64-bit range. -/
def IsNarrow : Numeral → Prop
  | .integer i => i.toInt < 0x8000000000000000
  | .double _ => True

instance : DecidablePred IsNarrow
  | .integer i => inferInstanceAs (Decidable (i.toInt < 0x8000000000000000))
  | .double _ => inferInstanceAs (Decidable True)

theorem narrowed_eq_self_iff {n : Numeral} : n.narrowed = n ↔ n.IsNarrow := by
  cases n with
  | integer i =>
    rw [narrowed, IsNarrow]
    split <;> simp_all
  | double x => simp [narrowed, IsNarrow]

/-- The number may become another one: the greatest integer becomes `2 ^ 64`. -/
theorem narrowed_greatest :
    (Numeral.integer .greatest).narrowed = .double ⟨0x43F0000000000000⟩ := by
  decide +kernel

/-- Not an infinity, and not not-a-number. -/
def IsFinite : Numeral → Prop
  | .integer _ => True
  | .double x => x.isFinite

instance : DecidablePred IsFinite
  | .integer _ => inferInstanceAs (Decidable True)
  | .double x => inferInstanceAs (Decidable (x.isFinite = true))

end Numeral

theorem WideInt.ofInt64_ofInt {i : WideInt} (h : i.toInt < 0x8000000000000000) :
    WideInt.ofInt64 (Int64.ofInt i.toInt) = i := by
  have hlower := i.lower
  have hback : (Int64.ofInt i.toInt).toInt = i.toInt := Int64.toInt_ofInt_of_le hlower h
  rw [WideInt.ofInt64]
  simp only [hback]

theorem Number.toNumeral_ofNumeral (n : Numeral) : (ofNumeral n).toNumeral = n.narrowed := by
  cases n with
  | integer i =>
    by_cases h : i.toInt < 0x8000000000000000
    · simp [ofNumeral, WideInt.toInt64?, h, toNumeral, Numeral.narrowed, WideInt.ofInt64_ofInt]
    · simp [ofNumeral, WideInt.toInt64?, h, toNumeral, Numeral.narrowed]
  | double x => rfl

/-- An integer beyond the signed range becomes a multiple of 2048 at most 1024 away. -/
theorem Numeral.exists_narrowed {i : WideInt} (h : 0x8000000000000000 ≤ i.toInt) :
    ∃ (x : Double) (m : Nat), (Numeral.integer i).narrowed = .double x ∧
      x.ratio? = some (false, m * 2048, 1) ∧ (m * 2048 - i.toInt).natAbs ≤ 1024 := by
  obtain ⟨n, hn⟩ := Int.eq_ofNat_of_zero_le (show 0 ≤ i.toInt by omega)
  have hupper := i.upper
  have hle := Double.two_mul_roundDiv_le n (show 0 < 2048 by decide)
  have hge := Double.two_mul_le_roundDiv n (show 0 < 2048 by decide)
  have hnarrowed : (Numeral.integer i).narrowed = .double (.ofInt i.toInt) := if_neg (by omega)
  refine ⟨.ofInt i.toInt, Double.roundDiv n 2048, hnarrowed, ?_, ?_⟩
  · rw [hn]
    exact Double.ratio?_ofInt (by omega) (by omega)
  · omega

theorem Numeral.IsFinite.narrowed {n : Numeral} (h : n.IsFinite) : n.narrowed.IsFinite := by
  cases n with
  | double x => exact h
  | integer i =>
    by_cases hi : i.toInt < 0x8000000000000000
    · rw [Numeral.narrowed, if_pos hi]
      exact h
    · obtain ⟨x, m, hx, hratio, -⟩ := exists_narrowed (Int.not_lt.1 hi)
      rw [hx, IsFinite, Double.isFinite_iff, hratio]
      rfl

/-! ### YAML values -/

namespace Yaml

/-- All keys are strings, and there are no tags. -/
def IsTextual : Yaml → Prop :=
  Each fun
    | .mapping entries => ∀ e ∈ entries, e.1.IsString
    | .tagged .. => False
    | _ => True

theorem IsTextual.hasEvenKeys {y : Yaml} (h : y.IsTextual) : y.HasEvenKeys :=
  Each.mono h fun v hv => by
    cases v with
    | mapping => exact .inl hv
    | null | boolean | number | string | sequence | tagged => trivial

end Yaml

namespace Value

theorem toYamlItems_eq (items : List Value) : toYamlItems items = items.map toYaml := by
  induction items with
  | nil => rfl
  | cons v vs ih => rw [toYamlItems, ih, List.map_cons]

theorem toYamlEntries_eq (entries : List (String × Value)) :
    toYamlEntries entries = entries.map fun e => (.string e.1, toYaml e.2) := by
  induction entries with
  | nil => rfl
  | cons e es ih => rw [toYamlEntries, ih, List.map_cons]

theorem toYaml_entrywise {y : Yaml} (ht : y.IsTextual) :
    (entrywise y).toYaml = y.mapNumbers Numeral.narrowed := by
  induction y using Yaml.induct with
  | null | boolean | string => rfl
  | number n => rw [entrywise, toYaml, Yaml.mapNumbers, Number.toNumeral_ofNumeral]
  | tagged t v ih => exact ht.self.elim
  | sequence items ih =>
    have hitems := (Yaml.each_sequence.1 ht).2
    rw [entrywise, toYaml, Yaml.mapNumbers, entrywiseItems_eq, toYamlItems_eq,
      Yaml.mapNumbersItems_eq, List.map_map, Yaml.sequence.injEq, List.map_inj_left]
    exact fun v hv => ih v hv (hitems v hv)
  | mapping entries ih =>
    obtain ⟨hkeys, hentries⟩ := Yaml.each_mapping.1 ht
    rw [entrywise, toYaml, Yaml.mapNumbers, entrywiseEntries_eq, toYamlEntries_eq,
      Yaml.mapNumbersEntries_eq, List.map_map, Yaml.mapping.injEq, List.map_inj_left]
    intro e he
    obtain ⟨s, hs⟩ := hkeys e he
    simp [hs, keyOf, keyText?, (ih e he).2 (hentries e he)]

/-- A YAML value comes back with its numbers narrowed. -/
theorem toYaml_ofYaml {y : Yaml} (hd : y.Distinct) (ht : y.IsTextual) :
    (ofYaml y).toYaml = y.mapNumbers Numeral.narrowed := by
  rw [(ofYaml_eq_entrywise_iff y).2 (keysApart_of_hasEvenKeys hd ht.hasEvenKeys),
    toYaml_entrywise ht]

end Value

/-! ### JSON values -/

namespace Value

theorem ofJsonItems_eq (items : List Json) : ofJsonItems items = items.map ofJson := by
  induction items with
  | nil => rfl
  | cons v vs ih => rw [ofJsonItems, ih, List.map_cons]

theorem ofJsonMembers_eq (members : List (String × Json)) :
    ofJsonMembers members = members.map fun m => (m.1, ofJson m.2) := by
  induction members with
  | nil => rfl
  | cons m ms ih => rw [ofJsonMembers, ih, List.map_cons]

theorem toJsonItems_eq (items : List Value) : toJsonItems items = items.map toJson := by
  induction items with
  | nil => rfl
  | cons v vs ih => rw [toJsonItems, ih, List.map_cons]

theorem toJsonMembers_eq (entries : List (String × Value)) :
    toJsonMembers entries = entries.map fun e => (e.1, toJson e.2) := by
  induction entries with
  | nil => rfl
  | cons e es ih => rw [toJsonMembers, ih, List.map_cons]

theorem toJson_number {n : Numeral} (hn : n.narrowed.IsFinite) :
    (Value.number (.ofNumeral n)).toJson = .number n.narrowed := by
  rw [← Number.toNumeral_ofNumeral] at hn ⊢
  cases h : Number.ofNumeral n with
  | integer i => rfl
  | double x =>
    rw [h] at hn
    exact if_pos hn

/-- A JSON value comes back with its numbers narrowed. -/
theorem toJson_ofJson {j : Json} (hd : j.Distinct) (hf : j.EachNumber Numeral.IsFinite) :
    (ofJson j).toJson = j.mapNumbers Numeral.narrowed := by
  induction j using Json.induct with
  | null | boolean | string => rfl
  | number n => rw [ofJson, Json.mapNumbers, toJson_number (Numeral.IsFinite.narrowed hf)]
  | array items ih =>
    have hdistinct := (Json.each_array.1 hd).2
    have hfinite := (Json.each_array.1 hf).2
    rw [ofJson, toJson, Json.mapNumbers, ofJsonItems_eq, toJsonItems_eq, Json.mapNumbersItems_eq,
      List.map_map, Json.array.injEq, List.map_inj_left]
    exact fun v hv => ih v hv (hdistinct v hv) (hfinite v hv)
  | object members ih =>
    obtain ⟨hkeys, hdistinct⟩ := Json.each_object.1 hd
    have hfinite := (Json.each_object.1 hf).2
    have hself : Entries.ofList (members.map fun m => (m.1, ofJson m.2)) =
        members.map fun m => (m.1, ofJson m.2) := by
      rw [Entries.ofList_eq_self_iff, List.map_map]
      exact hkeys
    rw [ofJson, ofJsonMembers_eq, hself, toJson, Json.mapNumbers, toJsonMembers_eq,
      Json.mapNumbersMembers_eq, List.map_map, Json.object.injEq, List.map_inj_left]
    intro m hm
    exact congrArg (Prod.mk m.1) (ih m hm (hdistinct m hm) (hfinite m hm))

/-- **A value comes back from a document with its numbers narrowed and nothing else changed**: a
YAML value whose keys are strings and which has no tags, and a JSON value whose doubles are finite.
So it comes back as it was exactly if it has no integer beyond the signed 64-bit range.  Such an
integer comes back as the double that is the nearest multiple of 2048. -/
theorem encode_decode :
    (∀ y : Yaml, y.Distinct → y.IsTextual →
      (ofYaml y).toYaml = y.mapNumbers Numeral.narrowed ∧
      ((ofYaml y).toYaml = y ↔ y.EachNumber Numeral.IsNarrow)) ∧
    (∀ j : Json, j.Distinct → j.EachNumber Numeral.IsFinite →
      (ofJson j).toJson = j.mapNumbers Numeral.narrowed ∧
      ((ofJson j).toJson = j ↔ j.EachNumber Numeral.IsNarrow)) ∧
    (∀ n : Numeral, n.IsNarrow → n.narrowed = n) ∧
    ∀ i : WideInt, 0x8000000000000000 ≤ i.toInt →
      ∃ (x : Double) (m : Nat), (Numeral.integer i).narrowed = .double x ∧
        x.ratio? = some (false, m * 2048, 1) ∧ (m * 2048 - i.toInt).natAbs ≤ 1024 := by
  have hnarrow : (fun n : Numeral => n.narrowed = n) = Numeral.IsNarrow :=
    funext fun n => propext Numeral.narrowed_eq_self_iff
  refine ⟨fun y hd ht => ?_, fun j hd hf => ?_, fun n => Numeral.narrowed_eq_self_iff.2,
    fun i => Numeral.exists_narrowed⟩
  · have hback := toYaml_ofYaml hd ht
    exact ⟨hback, by rw [hback, Yaml.mapNumbers_eq_self_iff, hnarrow]⟩
  · have hback := toJson_ofJson hd hf
    exact ⟨hback, by rw [hback, Json.mapNumbers_eq_self_iff, hnarrow]⟩

theorem encode_decode_identifiers :
    (ofYaml (.mapping [(.string "id", .number (.integer (.ofInt64 9223372036854775807))),
      (.string "next", .sequence [.null])])).toYaml =
      .mapping [(.string "id", .number (.integer (.ofInt64 9223372036854775807))),
        (.string "next", .sequence [.null])] ∧
    (ofJson (.object [("id", .number (.integer .greatest)),
      ("share", .number (.double (.ofRatio false 1 2)))])).toJson =
      .object [("id", .number (.double ⟨0x43F0000000000000⟩)),
        ("share", .number (.double (.ofRatio false 1 2)))] ∧
    (Numeral.integer (.ofInt64 (-9223372036854775808))).narrowed =
      .integer (.ofInt64 (-9223372036854775808)) ∧
    ∃ (x : Double) (m : Nat), (Numeral.integer .greatest).narrowed = .double x ∧
      x.ratio? = some (false, m * 2048, 1) ∧
      (m * 2048 - WideInt.greatest.toInt).natAbs ≤ 1024 := by
  refine ⟨((encode_decode.1 _ ?_ ?_).2).2 ?_, ((encode_decode.2.1 _ ?_ ?_).1).trans ?_,
    encode_decode.2.2.1 _ ?_, encode_decode.2.2.2 _ (by decide)⟩
  · simp [Yaml.Distinct, Yaml.DistinctEntries, Yaml.DistinctItems, Yaml.sameKey]
  · simp [Yaml.IsTextual, Yaml.Each, Yaml.EachEntry, Yaml.EachItem, Yaml.IsString]
  · simp only [Yaml.EachNumber, Yaml.Each, Yaml.EachEntry, Yaml.EachItem]
    decide
  · simp [Json.Distinct, Json.Each, Json.EachMember]
  · simp only [Json.EachNumber, Json.Each, Json.EachMember]
    decide
  · simp only [Json.mapNumbers, Json.mapNumbersMembers, Numeral.narrowed_greatest]
    rfl
  · decide

/-- The greatest unsigned integer comes back as a double, from YAML and from JSON. -/
theorem encode_decode_greatest :
    Yaml.Distinct (.mapping [(.string "id", .number (.integer .greatest))]) ∧
    Yaml.IsTextual (.mapping [(.string "id", .number (.integer .greatest))]) ∧
    (ofYaml (.mapping [(.string "id", .number (.integer .greatest))])).toYaml =
      .mapping [(.string "id", .number (.double ⟨0x43F0000000000000⟩))] ∧
    (ofYaml (.mapping [(.string "id", .number (.integer .greatest))])).toYaml ≠
      .mapping [(.string "id", .number (.integer .greatest))] ∧
    (ofJson (.number (.integer .greatest))).toJson ≠ .number (.integer .greatest) := by
  have hd : Yaml.Distinct (.mapping [(.string "id", .number (.integer .greatest))]) := by
    simp [Yaml.Distinct, Yaml.DistinctEntries]
  have ht : Yaml.IsTextual (.mapping [(.string "id", .number (.integer .greatest))]) := by
    simp [Yaml.IsTextual, Yaml.Each, Yaml.EachEntry, Yaml.IsString]
  have hyaml := toYaml_ofYaml hd ht
  have hjson := toJson_ofJson (j := .number (.integer .greatest)) trivial trivial
  simp only [Yaml.mapNumbers, Yaml.mapNumbersEntries, Json.mapNumbers,
    Numeral.narrowed_greatest] at hyaml hjson
  refine ⟨hd, ht, hyaml, ?_, ?_⟩
  · simp [hyaml]
  · simp [hjson]

end Value

end YamlQuery

import YamlQuery.Document.Yaml
import YamlQuery.Proofs.Document.Entries
import YamlQuery.Proofs.Document.Parts
import YamlQuery.Proofs.Double.Reading

/-!
# Proofs.Document.Keys — keys of YAML as texts

A key of a YAML mapping may be any value, and in a document it is the text of that value
(`Value.keyOf`).  `Value.entrywise` keeps an entry for each entry of the YAML value; a document has
all of them exactly if the keys of each mapping have different texts (`ofYaml_eq_entrywise_iff`).
Strings have, and so have nulls, booleans and numbers (`sameKey_of_keyOf_eq`); but a string may have
the text of a number.
-/

namespace YamlQuery

namespace Yaml

/-! ### Kinds of keys -/

def IsString (k : Yaml) : Prop := ∃ s, k = .string s

/-- A null, a boolean or a number. -/
def IsLiteral : Yaml → Prop
  | .null | .boolean _ | .number _ => True
  | _ => False

/-- The keys of each mapping are strings only, or nulls, booleans and numbers only. -/
def HasEvenKeys : Yaml → Prop :=
  Each fun
    | .mapping entries => (∀ e ∈ entries, e.1.IsString) ∨ ∀ e ∈ entries, e.1.IsLiteral
    | _ => True

end Yaml

namespace Value

/-! ### Entries -/

/-- The key of a document that a key of YAML becomes. -/
def keyOf (k : Yaml) : String := (keyText? k).getD (String.ofList (ofYaml k).compact)

theorem ofYamlItems_eq (items : List Yaml) : ofYamlItems items = items.map ofYaml := by
  induction items with
  | nil => rfl
  | cons v vs ih => rw [ofYamlItems, ih, List.map_cons]

theorem ofYamlEntries_eq (entries : List (Yaml × Yaml)) :
    ofYamlEntries entries = entries.map fun e => (keyOf e.1, ofYaml e.2) := by
  induction entries with
  | nil => rfl
  | cons e es ih => rw [ofYamlEntries, ih, List.map_cons, keyOf]

mutual

/-- The document with an entry for each entry of the value, in the same order, also where keys have
the same text. -/
def entrywise : Yaml → Value
  | .null => .null
  | .boolean b => .boolean b
  | .number n => .number (.ofNumeral n)
  | .string s => .string s
  | .sequence items => .sequence (entrywiseItems items)
  | .mapping entries => .mapping (entrywiseEntries entries)
  | .tagged _ v => entrywise v

def entrywiseItems : List Yaml → List Value
  | [] => []
  | v :: vs => entrywise v :: entrywiseItems vs

def entrywiseEntries : List (Yaml × Yaml) → List (String × Value)
  | [] => []
  | (k, v) :: es => (keyOf k, entrywise v) :: entrywiseEntries es

end

theorem entrywiseItems_eq (items : List Yaml) : entrywiseItems items = items.map entrywise := by
  induction items with
  | nil => rfl
  | cons v vs ih => rw [entrywiseItems, ih, List.map_cons]

theorem entrywiseEntries_eq (entries : List (Yaml × Yaml)) :
    entrywiseEntries entries = entries.map fun e => (keyOf e.1, entrywise e.2) := by
  induction entries with
  | nil => rfl
  | cons e es ih => rw [entrywiseEntries, ih, List.map_cons]

/-- In no mapping of the value do two keys have the same text. -/
def KeysApart : Yaml → Prop :=
  Yaml.Each fun
    | .mapping entries => (entries.map fun e => keyOf e.1).Nodup
    | _ => True

theorem keysApart_sequence {items : List Yaml} :
    KeysApart (.sequence items) ↔ ∀ v ∈ items, KeysApart v :=
  Yaml.each_sequence.trans (and_iff_right trivial)

theorem keysApart_mapping {entries : List (Yaml × Yaml)} : KeysApart (.mapping entries) ↔
    (entries.map fun e => keyOf e.1).Nodup ∧ ∀ e ∈ entries, KeysApart e.2 :=
  Yaml.each_mapping

/-- A value keeps all its entries exactly if the keys of each mapping have different texts. -/
theorem ofYaml_eq_entrywise_iff (y : Yaml) : ofYaml y = entrywise y ↔ KeysApart y := by
  induction y using Yaml.induct with
  | null | boolean | number | string => simp [ofYaml, entrywise, KeysApart, Yaml.Each]
  | tagged t v ih => rw [ofYaml, entrywise, ih, KeysApart, Yaml.Each, and_iff_right trivial]
  | sequence items ih =>
    rw [ofYaml, entrywise, keysApart_sequence, ofYamlItems_eq, entrywiseItems_eq, sequence.injEq,
      List.map_inj_left]
    exact forall₂_congr ih
  | mapping entries ih =>
    have htexts (f : Yaml → Value) : (entries.map fun e => (keyOf e.1, f e.2)).map (·.1) =
        entries.map fun e => keyOf e.1 := by
      rw [List.map_map]
      rfl
    have hitems : (entries.map fun e => (keyOf e.1, ofYaml e.2)) =
        (entries.map fun e => (keyOf e.1, entrywise e.2)) ↔ ∀ e ∈ entries, KeysApart e.2 := by
      rw [List.map_inj_left]
      refine forall₂_congr fun e he => ?_
      rw [Prod.mk.injEq, and_iff_right rfl, (ih e he).2]
    rw [ofYaml, entrywise, keysApart_mapping, ofYamlEntries_eq, entrywiseEntries_eq,
      mapping.injEq, ← hitems, ← htexts ofYaml, ← Entries.ofList_eq_self_iff]
    constructor
    · intro h
      have hdistinct := Entries.distinct_ofList (entries.map fun e => (keyOf e.1, ofYaml e.2))
      rw [h, Entries.Distinct, Entries.keys, htexts, ← htexts ofYaml] at hdistinct
      have hself := Entries.ofList_eq_self_iff.2 hdistinct
      exact ⟨hself, hself ▸ h⟩
    · rintro ⟨hself, h⟩
      exact hself.trans h

/-! ### Texts of keys -/

theorem toList_keyOf_number (n : Numeral) : (keyOf (.number n)).toList =
    match n with
    | .integer i => Text.decimalInt i.toInt
    | .double x => Double.Layout.yaml.write x := by
  cases n <;> simp [keyOf, keyText?]

theorem sameKey_of_keyOf_number_eq {m n : Numeral} (h : keyOf (.number m) = keyOf (.number n)) :
    m.sameKey n := by
  have htexts := congrArg String.toList h
  rw [toList_keyOf_number, toList_keyOf_number] at htexts
  cases m with
  | integer i =>
    cases n with
    | integer j =>
      have hij := Double.decimalInt_injective htexts
      cases i
      cases j
      simpa [Numeral.sameKey] using hij
    | double y => exact absurd htexts (Double.decimalInt_ne_write _ y)
  | double x =>
    cases n with
    | integer j => exact absurd htexts.symm (Double.decimalInt_ne_write _ x)
    | double y => exact Double.sameKey_of_write_eq htexts

/-- The text of a number starts as no word does. -/
theorem exists_cons_keyOf_number (n : Numeral) :
    ∃ c s, (keyOf (.number n)).toList = c :: s ∧ (c.isDigit ∨ c = '-' ∨ c = '.') := by
  rw [toList_keyOf_number]
  cases n with
  | integer i => exact Double.exists_cons_decimalInt i.toInt
  | double x => exact Double.exists_cons_write x

theorem keyOf_number_ne_null (n : Numeral) : keyOf (.number n) ≠ keyOf .null := by
  intro h
  obtain ⟨c, s, hcons, hc⟩ := exists_cons_keyOf_number n
  rw [h] at hcons
  cases hcons
  exact absurd hc (by decide)

theorem keyOf_number_ne_boolean (n : Numeral) (b : Bool) :
    keyOf (.number n) ≠ keyOf (.boolean b) := by
  intro h
  obtain ⟨c, s, hcons, hc⟩ := exists_cons_keyOf_number n
  rw [h] at hcons
  cases b with
  | true =>
    cases hcons
    exact absurd hc (by decide)
  | false =>
    cases hcons
    exact absurd hc (by decide)

/-- Strings with the same text are one key, and so are nulls, booleans and numbers. -/
theorem sameKey_of_keyOf_eq {k l : Yaml} (h : keyOf k = keyOf l)
    (hkinds : k.IsString ∧ l.IsString ∨ k.IsLiteral ∧ l.IsLiteral) : k.sameKey l := by
  rcases hkinds with ⟨⟨s, rfl⟩, ⟨t, rfl⟩⟩ | ⟨hk, hl⟩
  · exact decide_eq_true h
  · cases k with
    | null =>
      cases l with
      | null => rfl
      | boolean b => cases b <;> exact absurd h (by decide)
      | number n => exact absurd h.symm (keyOf_number_ne_null n)
      | string | sequence | mapping | tagged => exact hl.elim
    | boolean b =>
      cases l with
      | null => cases b <;> exact absurd h (by decide)
      | boolean c => cases b <;> cases c <;> first | rfl | exact absurd h (by decide)
      | number n => exact absurd h.symm (keyOf_number_ne_boolean n b)
      | string | sequence | mapping | tagged => exact hl.elim
    | number m =>
      cases l with
      | null => exact absurd h (keyOf_number_ne_null m)
      | boolean b => exact absurd h (keyOf_number_ne_boolean m b)
      | number n => exact sameKey_of_keyOf_number_eq h
      | string | sequence | mapping | tagged => exact hl.elim
    | string | sequence | mapping | tagged => exact hk.elim

theorem keysApart_of_hasEvenKeys {y : Yaml} (hd : y.Distinct) (heven : y.HasEvenKeys) :
    KeysApart y := by
  induction y using Yaml.induct with
  | null | boolean | number | string => trivial
  | tagged t v ih =>
    rw [Yaml.Distinct] at hd
    exact ⟨trivial, ih hd heven.2⟩
  | sequence items ih =>
    rw [Yaml.Distinct, Yaml.distinctItems_iff] at hd
    rw [Yaml.HasEvenKeys, Yaml.each_sequence] at heven
    rw [keysApart_sequence]
    exact fun v hv => ih v hv (hd v hv) (heven.2 v hv)
  | mapping entries ih =>
    rw [Yaml.Distinct, Yaml.distinctEntries_iff] at hd
    rw [Yaml.HasEvenKeys, Yaml.each_mapping] at heven
    rw [keysApart_mapping]
    refine ⟨List.pairwise_map.2 (hd.1.imp_of_mem fun ha hb hab heq => ?_),
      fun e he => (ih e he).2 (hd.2 e he).2 (heven.2 e he)⟩
    have hsame := sameKey_of_keyOf_eq heq
      (heven.1.imp (fun h => ⟨h _ ha, h _ hb⟩) fun h => ⟨h _ ha, h _ hb⟩)
    rw [hab] at hsame
    cases hsame

/-- **What a document has of the entries of YAML.**  It has an entry for each of them, in their
order and with their values, exactly if no two keys of a mapping have the same text; and so it has
if the keys of each mapping are strings only, or nulls, booleans and numbers only.  Of keys with the
same text it has one, at the place of the first and with the value of the last. -/
theorem entries_of_ofYaml (y : Yaml) :
    (ofYaml y = entrywise y ↔ KeysApart y) ∧
    (y.Distinct → y.HasEvenKeys → ofYaml y = entrywise y) ∧
    ∀ entries : List (Yaml × Yaml), y = .mapping entries → ∃ es : Entries Value,
      ofYaml y = .mapping es ∧
      es.keys = (entries.map fun e => keyOf e.1).eraseDups ∧
      ∀ key, es.get? key =
        Entries.get? key (entries.reverse.map fun e => (keyOf e.1, ofYaml e.2)) := by
  refine ⟨ofYaml_eq_entrywise_iff y, fun hd heven => ?_, ?_⟩
  · exact (ofYaml_eq_entrywise_iff y).2 (keysApart_of_hasEvenKeys hd heven)
  · rintro entries rfl
    refine ⟨_, by rw [ofYaml, ofYamlEntries_eq], ?_, fun key => ?_⟩
    · rw [Entries.keys_ofList, List.map_map]
      rfl
    · rw [Entries.get?_ofList, List.map_reverse]

theorem entries_of_ofYaml_even :
    ofYaml (.mapping [(.number (.integer (.ofInt64 1)), .string "a"),
      (.number (.double (.ofInt 1)), .mapping [(.string "true", .null), (.string "", .null)]),
      (.boolean true, .string "b")]) =
    .mapping [("1", .string "a"), ("1.0", .mapping [("true", .null), ("", .null)]),
      ("true", .string "b")] := by
  refine ((entries_of_ofYaml _).2.1 ?_ ?_).trans ?_
  · simp [Yaml.Distinct, Yaml.DistinctEntries, Yaml.sameKey, Numeral.sameKey]
  · simp [Yaml.HasEvenKeys, Yaml.Each, Yaml.EachEntry, Yaml.IsString, Yaml.IsLiteral]
  · decide +kernel

/-- A number and a string are two keys of YAML, but may be one key of a document. -/
theorem ofYaml_ne_entrywise :
    Yaml.Distinct (.mapping [(.number (.integer (.ofInt64 1)), .string "a"),
      (.string "1", .string "b")]) ∧
    ofYaml (.mapping [(.number (.integer (.ofInt64 1)), .string "a"),
      (.string "1", .string "b")]) = .mapping [("1", .string "b")] ∧
    ofYaml (.mapping [(.number (.integer (.ofInt64 1)), .string "a"),
      (.string "1", .string "b")]) ≠ entrywise (.mapping
        [(.number (.integer (.ofInt64 1)), .string "a"), (.string "1", .string "b")]) := by
  refine ⟨?_, ?_, ?_⟩
  · simp [Yaml.Distinct, Yaml.DistinctEntries, Yaml.sameKey]
  · decide +kernel
  · decide +kernel

end Value

end YamlQuery

import YamlQuery.Document.Yaml
import YamlQuery.Proofs.Yaml.Nodes

/-!
# Proofs.Yaml.Documents — JSON texts as YAML

Read as YAML, the JSON text of a document without doubles is the document again, if the text has
only characters that YAML allows and the keys are short (`readYaml?_writeJson`).
-/

namespace YamlQuery

namespace Json

theorem itemNodes_eq (items : List Json) : itemNodes items = items.map node := by
  induction items with
  | nil => rfl
  | cons j items ih => rw [itemNodes, ih, List.map_cons]

theorem memberNodes_eq (members : List (String × Json)) :
    memberNodes members = members.map fun m => (.scalar none false m.1, m.2.node) := by
  induction members with
  | nil => rfl
  | cons m members ih => rw [memberNodes, ih, List.map_cons]

end Json

namespace Yaml

variable {anchors : List (Nat × Node)} {depth jumps : Nat}

/-! ### The values of nodes -/

theorem run_mapM {α β : Type} {f : α → Resolver β} {g : α → β} {xs : List α}
    (h : ∀ x ∈ xs, (f x).run jumps = some (g x, jumps)) :
    (xs.mapM f).run jumps = some (xs.map g, jumps) := by
  induction xs with
  | nil => rfl
  | cons x xs ih =>
    obtain ⟨hx, hxs⟩ := List.forall_mem_cons.1 h
    simp [hx, ih hxs]

theorem run_value_scalar (depth : Nat) (plain : Bool) (text : String) (jumps : Nat) :
    (value anchors depth false (.scalar none plain text)).run jumps =
      (scalar? none false plain text).map fun v => (v, jumps) := by
  rw [value]
  simp [follow, localTag?]
  cases scalar? none false plain text <;> rfl

theorem run_value_sequence {items : List Value}
    (h : ∀ v ∈ items, (value anchors depth false v.toJson.node).run jumps =
      some (v.toYaml, jumps)) :
    (value anchors (depth + 1) false (Value.sequence items).toJson.node).run jumps =
      some ((Value.sequence items).toYaml, jumps) := by
  have hitems := run_mapM h
  rw [Value.toJson, Value.toJsonItems_eq, Json.node, Json.itemNodes_eq, List.map_map, Value.toYaml,
    Value.toYamlItems_eq, value]
  simp [follow, localTag?, Function.comp_def, hitems]

theorem hasRepeatedKey_eq_false_iff {entries : List (Yaml × Yaml)} :
    hasRepeatedKey entries = false ↔ entries.Pairwise fun a b => b.1.sameKey a.1 = false := by
  induction entries with
  | nil => simp [hasRepeatedKey]
  | cons e entries ih => simp [hasRepeatedKey, ih]

theorem hasRepeatedKey_toYaml {entries : Entries Value} (h : entries.Distinct) :
    hasRepeatedKey (Value.toYamlEntries entries) = false := by
  rw [hasRepeatedKey_eq_false_iff, Value.toYamlEntries_eq, List.pairwise_map]
  refine (List.pairwise_map.1 h).imp fun hne => ?_
  simpa [sameKey] using hne.symm

theorem run_value_mapping {entries : Entries Value} (hd : entries.Distinct)
    (h : ∀ e ∈ entries, (value anchors depth false e.2.toJson.node).run jumps =
      some (e.2.toYaml, jumps)) :
    (value anchors (depth + 1) false (Value.mapping entries).toJson.node).run jumps =
      some ((Value.mapping entries).toYaml, jumps) := by
  have hkeys := hasRepeatedKey_toYaml hd
  have hkey (k : String) : (value anchors depth false (.scalar none false k)).run jumps =
      some (.string k, jumps) := run_value_scalar depth false k jumps
  have hentries : (entries.mapM fun e : String × Value => do
        let k ← value anchors depth false (.scalar none false e.1)
        Prod.mk k <$> value anchors depth false e.2.toJson.node).run jumps =
          some (Value.toYamlEntries entries, jumps) := by
    rw [Value.toYamlEntries_eq]
    exact run_mapM fun e he => by simp [hkey, h e he]
  rw [Value.toJson, Value.toJsonMembers_eq, Json.node, Json.memberNodes_eq, List.map_map,
    Value.toYaml, value]
  simp [follow, localTag?, Function.comp_def, hkeys, hentries]

/-- The node of a document without doubles has the YAML value of the document. -/
theorem run_value_toJson (anchors : List (Nat × Node)) (jumps : Nat) {v : Value} (hd : v.Distinct)
    (hn : v.EachNumber Number.IsInteger) (hdepth : v.depth ≤ depth) :
    (value anchors depth false v.toJson.node).run jumps = some (v.toYaml, jumps) := by
  induction v using Value.induct generalizing depth with
  | scalar v hv =>
    cases v with
    | sequence | mapping => cases hv
    | null => exact run_value_scalar depth true "null" jumps
    | boolean b =>
      cases b with
      | false => exact run_value_scalar depth true "false" jumps
      | true => exact run_value_scalar depth true "true" jumps
    | string s => exact run_value_scalar depth false s jumps
    | number n =>
      cases n with
      | double x => exact hn.elim
      | integer i =>
        refine (run_value_scalar depth true _ jumps).trans ?_
        exact congrArg (Option.map _) (resolve?_decimalInt (.ofInt64 i))
  | sequence items ih =>
    obtain ⟨depth, rfl⟩ := Nat.exists_eq_add_one.2 (Nat.zero_lt_of_lt hdepth)
    have hdistinct := Value.distinctItems_iff.1 hd
    have hnumber := Value.eachNumber_sequence.1 hn
    have hdepth := Value.depthItems_le_iff.1 (Nat.le_of_succ_le_succ hdepth)
    exact run_value_sequence fun v hv => ih v hv (hdistinct v hv) (hnumber v hv) (hdepth v hv)
  | mapping entries ih =>
    obtain ⟨depth, rfl⟩ := Nat.exists_eq_add_one.2 (Nat.zero_lt_of_lt hdepth)
    have hdistinct := Value.distinctEntries_iff.1 hd.2
    have hnumber := Value.eachNumber_mapping.1 hn
    have hdepth := Value.depthEntries_le_iff.1 (Nat.le_of_succ_le_succ hdepth)
    exact run_value_mapping hd.1 fun e he =>
      ih e he (hdistinct e he) (hnumber e he) (hdepth e he)

/-! ### The characters of a JSON text -/

/-- YAML allows each character of the text, apart from those that JSON escapes. -/
def IsLegible (t : String) : Prop := ∀ x ∈ t.toList, x.toNat < 0x20 ∨ isAllowed x

instance : DecidablePred IsLegible := fun t =>
  decidable_of_iff (t.toList.all fun x => x.toNat < 0x20 || isAllowed x) (by simp [IsLegible])

theorem all_hex : ∀ n < 0x20, (Text.hex false 4 n).all isAllowed := by decide

theorem all_escape_iff {x : Char} :
    (Json.escape x).all isAllowed ↔ x.toNat < 0x20 ∨ isAllowed x := by
  unfold Json.escape
  split
  case h_8 =>
    split
    next hlow => exact iff_of_true (all_hex _ hlow) (.inl hlow)
    next hlow => simp [hlow]
  all_goals exact iff_of_true rfl (by decide)

theorem all_quoted_iff {t : String} : (Json.quoted t).all isAllowed ↔ IsLegible t := by
  have hquote : isAllowed '"' = true := rfl
  rw [Json.quoted, List.all_cons, List.all_append, hquote, Bool.true_and, List.all_flatMap,
    List.all_cons, hquote, List.all_nil, Bool.and_self, Bool.and_true, List.all_eq_true]
  exact forall₂_congr fun x _ => all_escape_iff

theorem all_newline (indent level : Nat) : (Json.newline indent level).all isAllowed := by
  have hspace : isAllowed ' ' = true := rfl
  rw [Json.newline, List.all_cons, List.all_replicate, hspace, ite_self]
  rfl

theorem all_decimalInt (i : Int) : (Text.decimalInt i).all isAllowed := by
  refine List.all_eq_true.2 fun x hx => ?_
  rcases Double.isDigit_of_mem_decimalInt hx with h | rfl
  · have hrange := Double.toNat_of_isDigit h
    have hprintable : 0x20 ≤ x.toNat ∧ x.toNat ≤ 0x7E := by omega
    simp [isAllowed, hprintable]
  · rfl

theorem all_writeItems_iff {indent level : Nat} {items : List Json} :
    (Json.writeItems indent level items).all isAllowed ↔
      ∀ j ∈ items, (j.write indent level).all isAllowed := by
  have hcomma : isAllowed ',' = true := rfl
  induction items with
  | nil => simp [Json.writeItems]
  | cons j items ih =>
    rw [List.forall_mem_cons]
    by_cases hne : items = []
    · simp only [hne, Json.writeItems, List.all_append, all_newline, Bool.true_and]
      simp
    · rw [Json.writeItems_cons indent level j hne, List.all_append, List.all_append, List.all_cons,
        all_newline, hcomma, Bool.true_and, Bool.true_and, Bool.and_eq_true]
      exact and_congr_right' ih

theorem all_writeMembers_iff {indent level : Nat} {members : List (String × Json)} :
    (Json.writeMembers indent level members).all isAllowed ↔
      (∀ m ∈ members, IsLegible m.1) ∧ ∀ m ∈ members, (m.2.write indent level).all isAllowed := by
  have hcomma : isAllowed ',' = true := rfl
  have hcolon : [':', ' '].all isAllowed = true := rfl
  induction members with
  | nil => simp [Json.writeMembers]
  | cons m members ih =>
    rw [List.forall_mem_cons, List.forall_mem_cons, and_and_and_comm]
    obtain ⟨k, j⟩ := m
    by_cases hne : members = []
    · simp only [hne, Json.writeMembers, List.all_append, all_newline, hcolon, Bool.true_and,
        Bool.and_true, Bool.and_eq_true, all_quoted_iff]
      simp
    · simp only [Json.writeMembers_cons indent level k j hne, List.all_append, all_newline,
        List.all_cons (l := Json.writeMembers indent level members), hcolon, hcomma, Bool.true_and,
        Bool.and_eq_true, all_quoted_iff, and_assoc]
      exact and_congr_right' (and_congr_right' ih)

theorem all_array_iff {indent level : Nat} {items : List Json} :
    ((Json.array items).write indent level).all isAllowed ↔
      ∀ j ∈ items, (j.write indent (level + 1)).all isAllowed := by
  have hopen : isAllowed '[' = true := rfl
  have hclose : isAllowed ']' = true := rfl
  cases items with
  | nil => simp [Json.write, hopen, hclose]
  | cons j items =>
    rw [Json.write, List.all_cons, List.all_append, List.all_append, all_newline, List.all_cons,
      hopen, hclose, ← all_writeItems_iff]
    simp

theorem all_object_iff {indent level : Nat} {members : List (String × Json)} :
    ((Json.object members).write indent level).all isAllowed ↔ (∀ m ∈ members, IsLegible m.1) ∧
      ∀ m ∈ members, (m.2.write indent (level + 1)).all isAllowed := by
  have hopen : isAllowed '\x7b' = true := rfl
  have hclose : isAllowed '\x7d' = true := rfl
  cases members with
  | nil => simp [Json.write, hopen, hclose]
  | cons m members =>
    rw [Json.write, List.all_cons, List.all_append, List.all_append, all_newline, List.all_cons,
      hopen, hclose, ← all_writeMembers_iff]
    simp

/-- All characters of the text of a document are allowed if those of its strings and keys are. -/
theorem all_write_iff {v : Value} (hn : v.EachNumber Number.IsInteger) (indent level : Nat) :
    (v.toJson.write indent level).all isAllowed ↔ v.EachText IsLegible := by
  induction v using Value.induct generalizing level with
  | scalar v hv =>
    cases v with
    | sequence | mapping => cases hv
    | null => exact iff_of_true rfl trivial
    | boolean b => exact iff_of_true (by cases b <;> rfl) trivial
    | number n =>
      cases n with
      | integer i => exact iff_of_true (all_decimalInt _) trivial
      | double x => exact hn.elim
    | string t => exact all_quoted_iff
  | sequence items ih =>
    have hnumber := Value.eachNumber_sequence.1 hn
    rw [Value.toJson, Value.toJsonItems_eq, all_array_iff, List.forall_mem_map,
      Value.eachText_sequence]
    exact forall₂_congr fun v hv => ih v hv (hnumber v hv) (level + 1)
  | mapping entries ih =>
    have hnumber := Value.eachNumber_mapping.1 hn
    rw [Value.toJson, Value.toJsonMembers_eq, all_object_iff, List.forall_mem_map,
      List.forall_mem_map, Value.eachText_mapping]
    exact and_congr_right' (forall₂_congr fun e he => ih e he (hnumber e he) (level + 1))

end Yaml

namespace Json

theorem itemsHaveShortKeys_iff {items : List Json} :
    itemsHaveShortKeys items ↔ ∀ j ∈ items, j.hasShortKeys := by
  induction items with
  | nil => simp [itemsHaveShortKeys]
  | cons j items ih => simp [itemsHaveShortKeys, ih]

theorem membersHaveShortKeys_iff {members : List (String × Json)} :
    membersHaveShortKeys members ↔
      (∀ m ∈ members, isShortKey m.1) ∧ ∀ m ∈ members, m.2.hasShortKeys := by
  induction members with
  | nil => simp [membersHaveShortKeys]
  | cons m members ih =>
    simp only [membersHaveShortKeys, Bool.and_eq_true, ih, List.forall_mem_cons]
    exact and_and_and_comm

end Json

namespace Value

theorem hasShortKeys_toJson {v : Value} :
    v.toJson.hasShortKeys ↔ v.EachKey fun k => Json.isShortKey k := by
  induction v using Value.induct with
  | scalar v hv =>
    cases v with
    | sequence | mapping => cases hv
    | number n =>
      cases n with
      | integer i => exact iff_of_true rfl trivial
      | double x =>
        refine iff_of_true ?_ trivial
        rw [toJson]
        split <;> rfl
    | null | boolean | string => exact iff_of_true rfl trivial
  | sequence items ih =>
    rw [toJson, toJsonItems_eq, Json.hasShortKeys, Json.itemsHaveShortKeys_iff, List.forall_mem_map,
      eachKey_sequence]
    exact forall₂_congr ih
  | mapping entries ih =>
    rw [toJson, toJsonMembers_eq, Json.hasShortKeys, Json.membersHaveShortKeys_iff,
      List.forall_mem_map, List.forall_mem_map, eachKey_mapping]
    exact and_congr_right' (forall₂_congr ih)

theorem all_writeJson_iff {v : Value} (hn : v.EachNumber Number.IsInteger) (indent : Nat) :
    (v.writeJson indent).toList.all Yaml.isAllowed ↔ v.EachText Yaml.IsLegible := by
  have hlineFeed : ['\n'].all Yaml.isAllowed = true := rfl
  rw [writeJson, String.toList_ofList, List.all_append, hlineFeed, Bool.and_true,
    Yaml.all_write_iff hn]

/-- A text with a character that YAML excludes is no document. -/
theorem readYaml?_of_not_allowed {text : String} (h : ¬text.toList.all Yaml.isAllowed) :
    readYaml? text = none := by
  rw [readYaml?, Yaml.read?, Yaml.tokens?, if_neg h]
  rfl

/-- A text that YAML allows is read as what its tokens stand for. -/
theorem readYaml?_writeJson_of_allowed {v : Value} (indent : Nat) (hd : v.Distinct)
    (hn : v.EachNumber Number.IsInteger) (ht : v.EachText Yaml.IsOneLine)
    (hdepth : v.depth ≤ Yaml.depthLimit)
    (hall : (v.writeJson indent).toList.all Yaml.isAllowed) :
    readYaml? (v.writeJson indent) = if v.toJson.hasShortKeys then some v else none := by
  have htext : (v.writeJson indent).toList = v.toJson.write indent 0 ++ ['\n'] :=
    String.toList_ofList
  rw [htext] at hall
  rw [readYaml?, Yaml.read?, htext, (Yaml.Reading.scans_toJson indent hn ht).tokens? hall,
    Option.bind_some, Yaml.Node.ofTokens?_tokens]
  by_cases hshort : v.toJson.hasShortKeys
  · have hvalue := Yaml.run_value_toJson v.toJson.node.anchors.reverse
      (100 * v.toJson.node.size) hd hn hdepth
    simp only [hshort, if_true, Yaml.ofNode?, hvalue, Option.map_some, ofYaml_toYaml hd]
  · simp only [hshort, Bool.false_eq_true, if_false, Option.map_none]

/-- **Read as YAML, the JSON text of a document without doubles is the document again**, if its
strings and keys have only characters that YAML allows and none that ends a line, and the keys are
short.  With a character that YAML excludes the text is no document, and neither is it with a key
that is too long. -/
theorem readYaml?_writeJson {v : Value} (indent : Nat) (hd : v.Distinct)
    (hn : v.EachNumber Number.IsInteger) (hdepth : v.depth ≤ Yaml.depthLimit) :
    let short := v.EachKey fun k => Json.isShortKey k
    (v.EachText Yaml.IsLegible → v.EachText Yaml.IsOneLine → short →
      readYaml? (v.writeJson indent) = some v) ∧
    (¬v.EachText Yaml.IsLegible → readYaml? (v.writeJson indent) = none) ∧
    (v.EachText Yaml.IsOneLine → ¬short → readYaml? (v.writeJson indent) = none) := by
  intro short
  have hlegible := all_writeJson_iff hn indent
  have hnone (h : ¬v.EachText Yaml.IsLegible) : readYaml? (v.writeJson indent) = none :=
    readYaml?_of_not_allowed (mt hlegible.1 h)
  refine ⟨fun h hline hshort => ?_, hnone, fun hline hshort => ?_⟩
  · rw [readYaml?_writeJson_of_allowed indent hd hn hline hdepth (hlegible.2 h),
      if_pos (hasShortKeys_toJson.2 hshort)]
  · by_cases h : v.EachText Yaml.IsLegible
    · rw [readYaml?_writeJson_of_allowed indent hd hn hline hdepth (hlegible.2 h),
        if_neg (mt hasShortKeys_toJson.1 hshort)]
    · exact hnone h

end Value

end YamlQuery

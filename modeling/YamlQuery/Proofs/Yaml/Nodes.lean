import YamlQuery.Proofs.Yaml.Flow

/-!
# Proofs.Yaml.Nodes — the document of a JSON text

The tokens of a JSON text are the nodes of its values, unless a key in it is too long for a reader
of YAML: then they are no document.
-/

namespace YamlQuery

namespace Json

open Yaml

mutual

/-- The node of a value. -/
def node : Json → Yaml.Node
  | .null => .scalar none true "null"
  | .boolean b => .scalar none true (if b then "true" else "false")
  | .number n => .scalar none true (String.ofList (numeral n))
  | .string s => .scalar none false s
  | .array items => .sequence none (itemNodes items)
  | .object members => .mapping none (memberNodes members)

def itemNodes : List Json → List Yaml.Node
  | [] => []
  | v :: vs => node v :: itemNodes vs

def memberNodes : List (String × Json) → List (Yaml.Node × Yaml.Node)
  | [] => []
  | (k, v) :: ms => (.scalar none false k, node v) :: memberNodes ms

end

mutual

/-- All keys of the value are short. -/
def hasShortKeys : Json → Bool
  | .array items => itemsHaveShortKeys items
  | .object members => membersHaveShortKeys members
  | _ => true

def itemsHaveShortKeys : List Json → Bool
  | [] => true
  | v :: vs => hasShortKeys v && itemsHaveShortKeys vs

def membersHaveShortKeys : List (String × Json) → Bool
  | [] => true
  | (k, v) :: ms => isShortKey k && hasShortKeys v && membersHaveShortKeys ms

end

theorem itemTokens_cons (j : Json) (items : List Json) :
    itemTokens (j :: items) = j.tokens ++ items.flatMap fun k => .comma :: k.tokens := by
  induction items generalizing j with
  | nil => simp [itemTokens]
  | cons k items ih => simp [itemTokens, ih k]

theorem memberTokens_cons (m : String × Json) (members : List (String × Json)) :
    memberTokens (m :: members) = keyTokens m.1 ++ m.2.tokens ++
      members.flatMap fun n => .comma :: (keyTokens n.1 ++ n.2.tokens) := by
  induction members generalizing m with
  | nil => simp [memberTokens]
  | cons n members ih => simp [memberTokens, ih n]

end Json

namespace Yaml.Node

variable {r : Reading} {t u : Token} {ts : List Token}

/-! ### Single steps -/

theorem run_peek : peek.run { r with tokens := t :: ts } = some (t, { r with tokens := t :: ts }) :=
  rfl

theorem run_skip : skip.run { r with tokens := t :: ts } = some ((), { r with tokens := ts }) := rfl

theorem run_accept_self : (accept t).run { r with tokens := t :: ts } =
    some (true, { r with tokens := ts }) := by
  simp [accept, run_peek, run_skip]

theorem run_accept_of_ne (h : u ≠ t) : (accept t).run { r with tokens := u :: ts } =
    some (false, { r with tokens := u :: ts }) := by
  simp [accept, run_peek, h]

theorem run_expect_self : (expect t).run { r with tokens := t :: ts } =
    some ((), { r with tokens := ts }) := by
  simp [expect, run_accept_self]

theorem run_expect_of_ne (h : u ≠ t) : (expect t).run { r with tokens := u :: ts } = none := by
  simp [expect, run_accept_of_ne h]

theorem run_node_scalar (fuel : Nat) (place : Place) (text : String) (style : Style) :
    (node (fuel + 1) place).run { r with tokens := .scalar text style :: ts } =
      some (ofScalar none text style, { r with tokens := ts }) := by
  simp [node, run_peek, run_skip, properties, anchor?, tag?, withAnchor]

theorem run_node_flowSequence (fuel : Nat) (place : Place) :
    (node (fuel + 1) place).run { r with tokens := .flowSequence :: ts } =
      ((flowItems fuel true).run { r with tokens := ts }).map fun p =>
        (.sequence none p.1, p.2) := by
  simp [node, run_peek, run_skip, properties, anchor?, tag?, withAnchor, Option.map_eq_bind]

theorem run_node_flowMapping (fuel : Nat) (place : Place) :
    (node (fuel + 1) place).run { r with tokens := .flowMapping :: ts } =
      ((flowEntries fuel true).run { r with tokens := ts }).map fun p =>
        (.mapping none p.1, p.2) := by
  simp [node, run_peek, run_skip, properties, anchor?, tag?, withAnchor, Option.map_eq_bind]

/-- A token that the node of a value starts with. -/
def IsFirst (t : Token) : Prop :=
  (∃ text style, t = .scalar text style) ∨ t = .flowSequence ∨ t = .flowMapping

theorem exists_isFirst (j : Json) : ∃ t ts, j.tokens = t :: ts ∧ IsFirst t := by
  cases j with
  | null | boolean | number | string => exact ⟨_, _, rfl, .inl ⟨_, _, rfl⟩⟩
  | array => exact ⟨_, _, rfl, .inr (.inl rfl)⟩
  | object => exact ⟨_, _, rfl, .inr (.inr rfl)⟩

theorem run_flowItems_end (fuel : Nat) (first : Bool) :
    (flowItems (fuel + 1) first).run { r with tokens := .flowSequenceEnd :: ts } =
      some ([], { r with tokens := ts }) := by
  simp [flowItems, run_accept_self]

theorem run_flowItems_first (h : IsFirst t) (fuel : Nat) :
    (flowItems (fuel + 1) true).run { r with tokens := t :: ts } =
      ((node fuel .flow).run { r with tokens := t :: ts }).bind fun p =>
        ((flowItems fuel false).run p.2).map fun q => (p.1 :: q.1, q.2) := by
  rcases h with ⟨text, style, rfl⟩ | rfl | rfl <;>
  simp [flowItems, run_accept_of_ne, Option.map_eq_bind]

/-- Behind the comma stands what may stand first. -/
theorem run_flowItems_comma (h : t ≠ .flowSequenceEnd) (fuel : Nat) :
    (flowItems (fuel + 1) false).run { r with tokens := .comma :: t :: ts } =
      (flowItems (fuel + 1) true).run { r with tokens := t :: ts } := by
  simp [flowItems, run_accept_of_ne, run_expect_self, h]

theorem run_flowEntries_end (fuel : Nat) (first : Bool) :
    (flowEntries (fuel + 1) first).run { r with tokens := .flowMappingEnd :: ts } =
      some ([], { r with tokens := ts }) := by
  simp [flowEntries, run_accept_self]

theorem run_flowEntries_comma (h : t ≠ .flowMappingEnd) (fuel : Nat) :
    (flowEntries (fuel + 1) false).run { r with tokens := .comma :: t :: ts } =
      (flowEntries (fuel + 1) true).run { r with tokens := t :: ts } := by
  simp [flowEntries, run_accept_of_ne, run_expect_self, h]

theorem run_nodeUnless {ends : List Token} (h : t ∉ ends) (fuel : Nat)
    (place : Place) : (nodeUnless (fuel + 1) place ends).run { r with tokens := t :: ts } =
      (node fuel place).run { r with tokens := t :: ts } := by
  simp [nodeUnless, run_peek, h]

theorem run_flowEntries_key (h : IsFirst t) (fuel : Nat) (k : String) :
    (flowEntries (fuel + 3) true).run
        { r with tokens := .key :: .scalar k .doubleQuoted :: .value :: t :: ts } =
      ((node (fuel + 1) .flow).run { r with tokens := t :: ts }).bind fun p =>
        ((flowEntries (fuel + 2) false).run p.2).map fun q =>
          ((.scalar none false k, p.1) :: q.1, q.2) := by
  have hvalue : (nodeUnless (fuel + 2) .flow [.comma, .flowMappingEnd]).run
      { r with tokens := t :: ts } = (node (fuel + 1) .flow).run { r with tokens := t :: ts } := by
    refine run_nodeUnless ?_ _ _
    rcases h with ⟨text, style, rfl⟩ | rfl | rfl <;> simp
  rw [flowEntries]
  simp [run_accept_of_ne, run_accept_self, run_nodeUnless, run_node_scalar, hvalue, ofScalar,
    Option.map_eq_bind]

/-- A key that is not marked as one ends the document. -/
theorem run_flowEntries_of_not_key (fuel : Nat) (k : String) (style : Style) :
    (flowEntries (fuel + 2) true).run { r with tokens := .scalar k style :: .value :: ts } =
      none := by
  rw [flowEntries]
  simp [run_accept_of_ne, run_node_scalar]
  simp [flowEntries, run_accept_of_ne, run_expect_of_ne]

/-! ### Values -/

theorem length_tokens_pos (j : Json) : 0 < j.tokens.length := by
  obtain ⟨t, ts, h, -⟩ := exists_isFirst j
  simp [h]

theorem length_keyTokens (k : String) : 2 ≤ (Json.keyTokens k).length := by
  simp [Json.keyTokens]

theorem exists_keyTokens (k : String) :
    ∃ t ts, Json.keyTokens k = t :: ts ∧ t ≠ .flowMappingEnd := by
  rw [Json.keyTokens]
  split <;> exact ⟨_, _, rfl, by simp⟩

theorem run_flowItems_cons {j : Json} {items : List Json} {fuel : Nat} {rest : List Token}
    (hj : (node fuel .flow).run { r with tokens := j.tokens ++ rest } =
      if j.hasShortKeys then some (j.node, { r with tokens := rest }) else none)
    (hitems : (flowItems fuel false).run { r with tokens := rest } =
      if Json.itemsHaveShortKeys items then some (Json.itemNodes items, { r with tokens := ts })
      else none) :
    (flowItems (fuel + 1) true).run { r with tokens := j.tokens ++ rest } =
      if Json.itemsHaveShortKeys (j :: items) then
        some (Json.itemNodes (j :: items), { r with tokens := ts })
      else none := by
  obtain ⟨t, us, h, hfirst⟩ := exists_isFirst j
  rw [h, List.cons_append] at hj ⊢
  rw [run_flowItems_first hfirst, hj, Json.itemsHaveShortKeys]
  by_cases hshort : j.hasShortKeys = true
  · rw [if_pos hshort, Option.bind_some, hitems, hshort, Bool.true_and]
    split <;> rfl
  · rw [if_neg hshort, Bool.eq_false_iff.2 hshort]
    rfl

theorem run_flowEntries_cons {k : String} {j : Json} {members : List (String × Json)} {fuel : Nat}
    {rest : List Token}
    (hj : (node (fuel + 1) .flow).run { r with tokens := j.tokens ++ rest } =
      if j.hasShortKeys then some (j.node, { r with tokens := rest }) else none)
    (hmembers : (flowEntries (fuel + 2) false).run { r with tokens := rest } =
      if Json.membersHaveShortKeys members then
        some (Json.memberNodes members, { r with tokens := ts })
      else none) :
    (flowEntries (fuel + 3) true).run
        { r with tokens := Json.keyTokens k ++ (j.tokens ++ rest) } =
      if Json.membersHaveShortKeys ((k, j) :: members) then
        some (Json.memberNodes ((k, j) :: members), { r with tokens := ts })
      else none := by
  obtain ⟨t, us, h, hfirst⟩ := exists_isFirst j
  rw [Json.keyTokens, Json.membersHaveShortKeys]
  by_cases hkey : Json.isShortKey k = true
  · rw [h, List.cons_append] at hj ⊢
    rw [if_pos hkey, hkey, Bool.true_and]
    refine (run_flowEntries_key hfirst fuel k).trans ?_
    rw [hj]
    by_cases hshort : j.hasShortKeys = true
    · rw [if_pos hshort, Option.bind_some, hmembers, hshort, Bool.true_and]
      split <;> rfl
    · rw [if_neg hshort, Bool.eq_false_iff.2 hshort]
      rfl
  · rw [if_neg hkey, Bool.eq_false_iff.2 hkey]
    exact run_flowEntries_of_not_key (fuel + 1) k .doubleQuoted

/-- The tokens of a value are one node, unless a key in it is too long. -/
def Reads (j : Json) : Prop :=
  ∀ (fuel : Nat) (place : Place) (r : Reading) (ts : List Token), j.tokens.length ≤ fuel →
    (node fuel place).run { r with tokens := j.tokens ++ ts } =
      if j.hasShortKeys then some (j.node, { r with tokens := ts }) else none

/-- The items of a sequence, each behind a comma. -/
theorem run_flowItems {items : List Json} (h : ∀ j ∈ items, Reads j) {fuel : Nat}
    (hfuel : (items.flatMap fun j => Token.comma :: j.tokens).length < fuel) (r : Reading)
    (ts : List Token) : (flowItems fuel false).run { r with tokens :=
        (items.flatMap fun j => .comma :: j.tokens) ++ .flowSequenceEnd :: ts } =
      if Json.itemsHaveShortKeys items then some (Json.itemNodes items, { r with tokens := ts })
      else none := by
  induction items generalizing fuel with
  | nil =>
    obtain ⟨fuel, rfl⟩ := Nat.exists_eq_add_one.2 hfuel
    exact run_flowItems_end fuel false
  | cons j items ih =>
    obtain ⟨hj, hitems⟩ := List.forall_mem_cons.1 h
    obtain ⟨fuel, rfl⟩ := Nat.exists_eq_add_one.2 (Nat.zero_lt_of_lt hfuel)
    have hpos := length_tokens_pos j
    have htokens : ((j :: items).flatMap fun j => Token.comma :: j.tokens) ++
        .flowSequenceEnd :: ts = .comma :: (j.tokens ++
          ((items.flatMap fun j => .comma :: j.tokens) ++ .flowSequenceEnd :: ts)) := by
      simp
    rw [List.flatMap_cons, List.cons_append, List.length_cons, List.length_append] at hfuel
    obtain ⟨t, us, hfirst, ht⟩ := exists_isFirst j
    have hne : t ≠ .flowSequenceEnd := by rcases ht with ⟨text, style, rfl⟩ | rfl | rfl <;> simp
    have hread := run_flowItems_cons (hj fuel .flow r _ (by omega)) (ih hitems (by omega))
    rw [htokens]
    rw [hfirst, List.cons_append] at hread ⊢
    exact (run_flowItems_comma hne fuel).trans hread

theorem reads_array {items : List Json} (h : ∀ j ∈ items, Reads j) : Reads (.array items) := by
  intro fuel place r ts hfuel
  cases items with
  | nil =>
    obtain ⟨fuel, rfl⟩ := Nat.exists_eq_add_of_le' hfuel
    exact (run_node_flowSequence (fuel + 1) place).trans
      (congrArg (Option.map fun p => (sequence none p.1, p.2)) (run_flowItems_end fuel true))
  | cons j items =>
    obtain ⟨hj, hitems⟩ := List.forall_mem_cons.1 h
    have htokens : (Json.array (j :: items)).tokens ++ ts = .flowSequence :: (j.tokens ++
        ((items.flatMap fun j => .comma :: j.tokens) ++ .flowSequenceEnd :: ts)) := by
      simp [Json.tokens, Json.itemTokens_cons]
    have hpos := length_tokens_pos j
    simp only [Json.tokens, Json.itemTokens_cons, List.length_cons, List.length_append,
      List.length_nil] at hfuel
    obtain ⟨fuel, rfl⟩ := Nat.exists_eq_add_of_le' (show 2 ≤ fuel by omega)
    rw [htokens, run_node_flowSequence, run_flowItems_cons (hj fuel .flow r _ (by omega))
      (run_flowItems hitems (by omega) r ts), Json.hasShortKeys]
    split <;> rfl

/-- The members of a mapping, each behind a comma. -/
theorem run_flowEntries {members : List (String × Json)} (h : ∀ m ∈ members, Reads m.2)
    {fuel : Nat} (hfuel : (members.flatMap fun m =>
      Token.comma :: (Json.keyTokens m.1 ++ m.2.tokens)).length < fuel) (r : Reading)
    (ts : List Token) : (flowEntries fuel false).run { r with tokens :=
        (members.flatMap fun m => .comma :: (Json.keyTokens m.1 ++ m.2.tokens)) ++
          .flowMappingEnd :: ts } =
      if Json.membersHaveShortKeys members then
        some (Json.memberNodes members, { r with tokens := ts })
      else none := by
  induction members generalizing fuel with
  | nil =>
    obtain ⟨fuel, rfl⟩ := Nat.exists_eq_add_one.2 hfuel
    exact run_flowEntries_end fuel false
  | cons m members ih =>
    obtain ⟨k, j⟩ := m
    obtain ⟨hj, hmembers⟩ := List.forall_mem_cons.1 h
    replace hj : Reads j := hj
    have hkey := length_keyTokens k
    have hpos := length_tokens_pos j
    have htokens : (((k, j) :: members).flatMap fun m =>
          Token.comma :: (Json.keyTokens m.1 ++ m.2.tokens)) ++ .flowMappingEnd :: ts =
        .comma :: (Json.keyTokens k ++ (j.tokens ++ ((members.flatMap fun m =>
          .comma :: (Json.keyTokens m.1 ++ m.2.tokens)) ++ .flowMappingEnd :: ts))) := by
      simp
    simp only [List.flatMap_cons, List.cons_append, List.length_cons, List.length_append] at hfuel
    obtain ⟨fuel, rfl⟩ := Nat.exists_eq_add_of_le' (show 3 ≤ fuel by omega)
    have hread := run_flowEntries_cons (k := k) (hj (fuel + 1) .flow r _ (by omega))
      (@ih hmembers (fuel + 2) (by omega))
    obtain ⟨t, us, hfirst, hne⟩ := exists_keyTokens k
    rw [htokens]
    rw [hfirst, List.cons_append] at hread ⊢
    exact (run_flowEntries_comma hne (fuel + 2)).trans hread

theorem reads_object {members : List (String × Json)} (h : ∀ m ∈ members, Reads m.2) :
    Reads (.object members) := by
  intro fuel place r ts hfuel
  cases members with
  | nil =>
    obtain ⟨fuel, rfl⟩ := Nat.exists_eq_add_of_le' hfuel
    exact (run_node_flowMapping (fuel + 1) place).trans
      (congrArg (Option.map fun p => (mapping none p.1, p.2)) (run_flowEntries_end fuel true))
  | cons m members =>
    obtain ⟨k, j⟩ := m
    obtain ⟨hj, hmembers⟩ := List.forall_mem_cons.1 h
    replace hj : Reads j := hj
    have htokens : (Json.object ((k, j) :: members)).tokens ++ ts = .flowMapping ::
        (Json.keyTokens k ++ (j.tokens ++ ((members.flatMap fun m =>
          .comma :: (Json.keyTokens m.1 ++ m.2.tokens)) ++ .flowMappingEnd :: ts))) := by
      simp [Json.tokens, Json.memberTokens_cons]
    have hkey := length_keyTokens k
    have hpos := length_tokens_pos j
    simp only [Json.tokens, Json.memberTokens_cons, List.length_cons, List.length_append,
      List.length_nil] at hfuel
    obtain ⟨fuel, rfl⟩ := Nat.exists_eq_add_of_le' (show 4 ≤ fuel by omega)
    rw [htokens, run_node_flowMapping, run_flowEntries_cons (hj (fuel + 1) .flow r _ (by omega))
      (run_flowEntries hmembers (by omega) r ts), Json.hasShortKeys]
    split <;> rfl

theorem reads_scalar {j : Json} {text : String} {style : Style}
    (htokens : j.tokens = [.scalar text style]) (hnode : j.node = ofScalar none text style)
    (hshort : j.hasShortKeys = true) : Reads j := by
  intro fuel place r ts hfuel
  rw [htokens] at hfuel ⊢
  obtain ⟨fuel, rfl⟩ := Nat.exists_eq_add_of_le' hfuel
  rw [hshort, if_pos rfl, hnode]
  exact run_node_scalar fuel place text style

/-- **The tokens of a value are one node**, unless a key in it is too long. -/
theorem reads (j : Json) : Reads j := by
  induction j using Json.induct with
  | null | boolean | number | string => exact reads_scalar rfl rfl rfl
  | array items ih => exact reads_array ih
  | object members ih => exact reads_object ih

/-! ### Documents -/

theorem run_directives (h : IsFirst t) (fuel : Nat) (versioned : Bool) :
    (directives (fuel + 1) versioned).run { r with tokens := t :: ts } =
      some (false, { r with tokens := t :: ts }) := by
  rcases h with ⟨text, style, rfl⟩ | rfl | rfl <;> simp [directives, run_peek]

/-- A document without directives and marks is one node and its end. -/
theorem run_document (h : IsFirst t) (fuel : Nat) :
    (document (fuel + 1)).run { r with tokens := t :: ts } =
      ((node (fuel + 1) .block).run { r with
        tokens := t :: ts, handles := r.handles ++ defaultHandles }).bind fun p =>
          ((do passEnds (fuel + 1); expect .streamEnd : Reader Unit).run p.2).map fun q =>
            (some p.1, q.2) := by
  have hend : t ≠ .streamEnd := by rcases h with ⟨text, style, rfl⟩ | rfl | rfl <;> simp
  have hstart : t ≠ .documentStart := by rcases h with ⟨text, style, rfl⟩ | rfl | rfl <;> simp
  have hnode : (accept .documentStart).run { r with
      tokens := t :: ts, handles := r.handles ++ defaultHandles } = some (false, { r with
        tokens := t :: ts, handles := r.handles ++ defaultHandles }) :=
    run_accept_of_ne (r := { r with handles := r.handles ++ defaultHandles }) hstart
  simp [document, run_accept_of_ne hend, run_directives h, hnode, Option.map_eq_bind,
    Option.bind_assoc]

/-- **The tokens of a JSON text are a document**, unless a key in it is too long. -/
theorem ofTokens?_tokens (j : Json) : ofTokens? (j.tokens ++ [.streamEnd]) =
    if j.hasShortKeys then some (some j.node) else none := by
  obtain ⟨t, ts, h, hfirst⟩ := exists_isFirst j
  obtain ⟨fuel, hfuel, hlength⟩ : ∃ fuel,
      4 * (j.tokens ++ [Token.streamEnd]).length + 4 = fuel + 1 ∧ j.tokens.length ≤ fuel + 1 := by
    refine ⟨_, rfl, ?_⟩
    rw [List.length_append]
    omega
  have hread := reads j (fuel + 1) .block { tokens := [], handles := defaultHandles } [.streamEnd]
    hlength
  rw [ofTokens?, hfuel]
  rw [h, List.cons_append] at hread ⊢
  refine (congrArg (Option.map (·.1)) (run_document (r := { tokens := [] }) hfirst fuel)).trans ?_
  rw [List.nil_append, hread]
  split <;> rfl

end Yaml.Node

end YamlQuery

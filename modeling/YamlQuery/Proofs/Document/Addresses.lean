import YamlQuery.Proofs.Document.Entries

/-!
# Proofs.Document.Addresses — the laws of addresses

Two changes at one address are one change (`Value.modify?_modify?`), so of two values written there
the second stays.  Together with what a single change does and leaves alone this makes addresses
lawful: what is read is what was written, and nothing else is touched (`Value.lawful_replace?`).
-/

namespace YamlQuery.Value

theorem setChild_setChild (v : Value) (s : Step) (c d : Value) :
    (v.setChild s c).setChild s d = v.setChild s d := by
  cases v <;> cases s <;> try rfl
  case sequence.index items i => simp only [setChild, List.set_set]
  case mapping.key es k => simp only [setChild, Entries.put_put]

/-- A change behind a step, after another child has come there. -/
theorem modify?_setChild {v c : Value} {s : Step} (hc : v.child? s = some c) (g : Value → Value)
    (d : Value) (a : Address) :
    (v.setChild s d).modify? g (s :: a) = (d.modify? g a).map (v.setChild s) := by
  rw [modify?_cons, child?_setChild_self hc d, Option.bind_some]
  exact congrArg (Option.map · _) (funext fun e => setChild_setChild v s d e)

/-- Two changes at one address are one change. -/
theorem modify?_modify? (f g : Value → Value) (v : Value) (a : Address) :
    (v.modify? f a).bind (·.modify? g a) = v.modify? (fun u => g (f u)) a := by
  induction a generalizing v with
  | nil => simp
  | cons s a ih =>
    rw [modify?_cons, modify?_cons]
    cases hc : v.child? s with
    | none => rfl
    | some c =>
      rw [Option.bind_some, Option.bind_some, ← ih c, Option.bind_map, Option.map_bind]
      exact Option.bind_congr fun d _ => modify?_setChild hc g d a

/-- Of two values written at one address the second stays. -/
theorem replace?_of_replace? {v w new : Value} {a : Address} (h : v.replace? a new = some w)
    (later : Value) : w.replace? a later = v.replace? a later := by
  have htwice := modify?_modify? (fun _ => new) (fun _ => later) v a
  rwa [show v.modify? (fun _ => new) a = some w from h, Option.bind_some] at htwice

/-- **Addresses are lawful.**  They lead from the root step by step.  A node can be changed where it
can be found, and what is changed is the node that is found.  The node put back where it was changes
nothing; another one is found there from then on, and of two the second stays.  The nodes that lie
neither above nor below are the same as before, and the nodes above keep the order of their keys and
their length. -/
theorem lawful_replace? (v : Value) (a : Address) :
    v.get? .root = some v ∧ (∀ s, v.get? (a.child s) = (v.get? a).bind (·.child? s)) ∧
    (∀ f, (v.modify? f a).isSome = (v.get? a).isSome) ∧
    ∀ u, v.get? a = some u →
      (∀ f, v.modify? f a = v.replace? a (f u)) ∧ v.replace? a u = some v ∧
      ∀ new, ∃ w, v.replace? a new = some w ∧ w.get? a = some new ∧
        (∀ later, w.replace? a later = v.replace? a later) ∧
        (∀ b, a.Apart b → w.get? b = v.get? b) ∧
        ∀ b, ¬ a <+: b → (w.get? b).map outline = (v.get? b).map outline := by
  refine ⟨get?_root v, get?_child v a, fun f => isSome_modify? f a v, fun u hu => ?_⟩
  refine ⟨fun f => (replace?_of_get? hu f).symm, modify?_of_eq hu rfl, fun new => ?_⟩
  obtain ⟨w, hw⟩ : ∃ w, v.replace? a new = some w := exists_modify? hu _
  refine ⟨w, hw, ?_, replace?_of_replace? hw, ?_, ?_⟩
  · rw [get?_modify? hw, hu, Option.map_some]
  · intro b hb
    exact get?_modify?_of_disjoint hw hb.1 hb.2
  · intro b hb
    exact outline_get?_modify? hw hb

/-- A node below a mapping in a sequence; a key does not lead into the sequence, and an index not
into the mapping. -/
theorem lawful_replace?_nested :
    let docOf (c : Value) : Value :=
      .mapping [("a", .sequence [.mapping [("x", c), ("y", .null)], .null]), ("b", .null)]
    let a : Address := [.key "a", .index 0, .key "x"]
    let new : Value := .mapping [("z", .null)]
    ((docOf .null).modify? id [.key "a", .key "x"]).isSome = false ∧
      ((docOf .null).modify? id [.key "a", .index 0, .index 0]).isSome = false ∧
      (docOf .null).get? a = some .null ∧
      (docOf .null).modify? (fun u => .sequence [u]) a =
        (docOf .null).replace? a (.sequence [.null]) ∧
      (docOf .null).replace? a .null = some (docOf .null) ∧
      (docOf .null).replace? a new = some (docOf new) ∧ (docOf new).get? a = some new ∧
      (docOf new).replace? a (.boolean true) = (docOf .null).replace? a (.boolean true) ∧
      Address.Apart a [.key "a", .index 0, .key "y"] ∧
      (docOf new).get? [.key "a", .index 0, .key "y"] =
        (docOf .null).get? [.key "a", .index 0, .key "y"] ∧
      ¬ a <+: [.key "a", .index 0] ∧
      ((docOf new).get? [.key "a", .index 0]).map outline =
        ((docOf .null).get? [.key "a", .index 0]).map outline := by
  intro docOf a new
  obtain ⟨-, -, hkey, -⟩ := lawful_replace? (docOf .null) [.key "a", .key "x"]
  obtain ⟨-, -, hindex, -⟩ := lawful_replace? (docOf .null) [.key "a", .index 0, .index 0]
  obtain ⟨-, -, -, hlaws⟩ := lawful_replace? (docOf .null) a
  have hget : (docOf .null).get? a = some .null := rfl
  have hnew : (docOf .null).replace? a new = some (docOf new) := rfl
  have hapart : Address.Apart a [.key "a", .index 0, .key "y"] := ⟨by decide, by decide⟩
  have habove : ¬ a <+: [.key "a", .index 0] := by decide
  obtain ⟨hchange, hsame, hwrite⟩ := hlaws .null hget
  obtain ⟨w, hw, hread, hlater, hoff, hway⟩ := hwrite new
  obtain rfl : w = docOf new := Option.some.inj (hw.symm.trans hnew)
  exact ⟨hkey id, hindex id, hget, hchange _, hsame, hnew, hread, hlater _, hapart, hoff _ hapart,
    habove, hway _ habove⟩

end YamlQuery.Value

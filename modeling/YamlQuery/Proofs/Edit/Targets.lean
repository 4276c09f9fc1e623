import YamlQuery.Edit.Delete
import YamlQuery.Edit.Replace
import YamlQuery.Proofs.Edit.Runs

/-!
# Proofs.Edit.Targets — changes of entries as changes at addresses

An entry has an address, and what is done to the entry is done at the address.  `Delete` and
`Replace` note down the entries that match (`noteAll_visitor`) and change them at the end.
-/

namespace YamlQuery

namespace Target

variable {t : Target} {value doc : Value}

theorem replace?_eq_modify? (t : Target) (value doc : Value) :
    t.replace? value doc = doc.modify? (fun _ => value) t.address := by
  rw [address, Address.child, Value.modify?_append, replace?]
  cases doc.get? t.parent with
  | none => rfl
  | some u =>
    cases u with
    | mapping es =>
      cases h : Entries.get? t.key es <;> simp [Value.modify?_cons, Value.child?, Value.setChild, h]
    | _ => rfl

/-- Replacing entries in turn. -/
theorem fst_applyAll_replace? (value : Value) :
    ∀ (ts : List Target) (doc : Value) (n : Nat),
      (applyAll (·.replace? value) ts doc n).1 =
        doc.modifyAll (ts.map fun t => (t.address, fun _ => value))
  | [], _, _ => rfl
  | t :: ts, doc, n => by
    rw [applyAll, List.map_cons, Value.modifyAll_cons, ← replace?_eq_modify?]
    cases t.replace? value doc with
    | none => exact fst_applyAll_replace? value ts doc n
    | some doc => exact fst_applyAll_replace? value ts doc (n + 1)

theorem address_inj {t u : Target} (h : t.address = u.address) : t = u := by
  obtain ⟨a, k⟩ := t
  obtain ⟨b, l⟩ := u
  obtain ⟨rfl, hstep⟩ := List.append_inj' h rfl
  cases hstep
  rfl

theorem nodup_of_apart {ts : List Target}
    (h : ts.Pairwise fun t u => t.address.Apart u.address) : ts.Nodup := by
  refine h.imp ?_
  rintro t u hapart rfl
  exact hapart.1 List.prefix_rfl

/-- Entries that are there, of which none lies below another, are all replaced. -/
theorem applyAll_replace? (value : Value) :
    ∀ {ts : List Target} {doc : Value} {n : Nat},
      ts.Pairwise (fun t u => t.address.Apart u.address) →
        (∀ t ∈ ts, (doc.get? t.address).isSome) →
          applyAll (·.replace? value) ts doc n =
            (doc.modifyAll (ts.map fun t => (t.address, fun _ => value)), n + ts.length)
  | [], _, _, _, _ => rfl
  | t :: ts, doc, n, hapart, hts => by
    obtain ⟨ht, hapart⟩ := List.pairwise_cons.1 hapart
    obtain ⟨hsome, hts⟩ := List.forall_mem_cons.1 hts
    rw [← Value.isSome_modify? fun _ => value] at hsome
    obtain ⟨w, hw⟩ := Option.isSome_iff_exists.1 hsome
    have hrest : ∀ u ∈ ts, (w.get? u.address).isSome := by
      intro u hu
      rw [Value.get?_modify?_of_disjoint hw (ht u hu).1 (ht u hu).2]
      exact hts u hu
    rw [applyAll, List.map_cons, Value.modifyAll_cons, replace?_eq_modify?, hw]
    show applyAll _ ts w (n + 1) = _
    rw [applyAll_replace? value hapart hrest, List.length_cons, Nat.add_assoc, Nat.add_comm 1]
    rfl

/-- Changes are counted on from any number. -/
theorem applyAll_count (change? : Target → Value → Option Value) :
    ∀ (ts : List Target) (doc : Value) (n : Nat), applyAll change? ts doc n =
      ((applyAll change? ts doc 0).1, n + (applyAll change? ts doc 0).2)
  | [], _, _ => rfl
  | t :: ts, doc, n => by
    rw [applyAll, applyAll]
    cases change? t doc with
    | none => exact applyAll_count change? ts doc n
    | some w =>
      dsimp only
      rw [applyAll_count change? ts w (n + 1), applyAll_count change? ts w (0 + 1)]
      simp [Nat.add_assoc]

/-- An entry that is there can be deleted, and then the document is smaller. -/
theorem sizeOf_erase?_lt {w : Value} (h : t.erase? doc = some w) : sizeOf w < sizeOf doc := by
  rw [erase?] at h
  split at h
  · next es hes =>
    split at h
    · next hk =>
      obtain ⟨v, hv⟩ := Option.isSome_iff_exists.1 hk
      refine Value.sizeOf_modify?_lt hes ?_ h
      have := Entries.sizeOf_erase_lt hv
      simp only [Value.mapping.sizeOf_spec]
      omega
    · cases h
  · cases h

theorem exists_erase? {v : Value} (h : doc.get? t.address = some v) :
    ∃ w, t.erase? doc = some w := by
  rw [address, Value.get?_child] at h
  obtain ⟨u, hu, hk⟩ := Option.bind_eq_some_iff.1 h
  obtain ⟨es, k, rfl, hk', hv⟩ | ⟨_, _, _, h, -⟩ := Value.child?_eq_some_iff.1 hk
  · cases hk'
    rw [erase?, hu]
    simp only [hv, Option.isSome_some, if_true]
    exact Value.exists_modify? hu _
  · cases h

theorem sizeOf_applyAll_erase?_le :
    ∀ (ts : List Target) (doc : Value) (n : Nat),
      sizeOf (applyAll erase? ts doc n).1 ≤ sizeOf doc
  | [], _, _ => Nat.le_refl _
  | t :: ts, doc, n => by
    rw [applyAll]
    cases h : t.erase? doc with
    | none => exact sizeOf_applyAll_erase?_le ts doc n
    | some w => exact (sizeOf_applyAll_erase?_le ts w (n + 1)).trans (sizeOf_erase?_lt h).le

end Target

theorem Delete.accepts_visitor : Delete.visitor.Accepts := by
  refine ⟨fun e d => ?_, fun doc d => ⟨_, rfl⟩⟩
  cases e <;> rfl

theorem Delete.noteAll_visitor (es : List Event) (d : Delete) :
    visitor.noteAll es d = { d with pending := d.pending ++ es.filterMap Event.end? } := by
  refine Visitor.noteAll_eq
    (f := fun es d => { d with pending := d.pending ++ es.filterMap Event.end? }) (by simp) ?_ es d
  intro e es d
  cases e <;> simp [visitor, List.filterMap_cons, Event.end?]

theorem Replace.accepts_visitor : Replace.visitor.Accepts := by
  refine ⟨fun e r => ?_, fun doc r => ⟨_, rfl⟩⟩
  cases e <;> rfl

theorem Replace.noteAll_visitor (es : List Event) (r : Replace) :
    visitor.noteAll es r = { r with pending := r.pending ++ es.filterMap Event.end? } := by
  refine Visitor.noteAll_eq
    (f := fun es r => { r with pending := r.pending ++ es.filterMap Event.end? }) (by simp) ?_ es r
  intro e es r
  cases e <;> simp [visitor, List.filterMap_cons, Event.end?]

end YamlQuery

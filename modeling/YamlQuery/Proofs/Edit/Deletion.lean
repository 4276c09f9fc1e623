import YamlQuery.Proofs.Document.Without
import YamlQuery.Proofs.Edit.Reading
import YamlQuery.Proofs.Edit.Targets
import YamlQuery.Proofs.Walk.Stops

/-!
# Proofs.Edit.Deletion — what deleting along a path leaves

Deleting an entry takes it out of the document (`Target.erase?_eq_without`), and deleting entries of
which none lies below another takes out all of them (`Target.applyAll_erase?`).

In a document without some entries, a path leads to the entries that it led to before, as far as they
are still there (`Value.ends_without_iff`), and nothing new is in its way (`Walk.stop_without`).  So a
delete leaves nothing to delete (`Delete.run_eq_without`), and two deletes may change places
(`Delete.run_comm`).
-/

namespace YamlQuery

/-! ### Deleting entries -/

namespace Entries

theorem erase_eq_withoutEntries {gone : Address → Bool} {k : String} {es : Entries Value}
    (hd : es.Distinct) (hk : gone [.key k] = true)
    (ho : ∀ l, l ≠ k → ∀ a, gone (.key l :: a) = false) :
    erase k es = Value.withoutEntries gone es := by
  induction es with
  | nil => rfl
  | cons e es ih =>
    obtain ⟨l, v⟩ := e
    obtain ⟨hl, hes⟩ := distinct_cons.1 hd
    rw [erase, Value.withoutEntries]
    by_cases hlk : l = k
    · subst hlk
      have hrest : Value.withoutEntries gone es = es :=
        Value.withoutEntries_of_forall es fun m hm => ho m fun hml => hl (hml ▸ hm)
      rw [if_pos rfl, if_pos hk, hrest]
    · rw [if_neg hlk, ho l hlk [], if_neg Bool.false_ne_true, Value.without_of_forall v (ho l hlk),
        ih hes]

end Entries

namespace Target

variable {t : Target} {doc : Value}

theorem erase?_cons (s : Step) (a : Address) (k : String) (v : Value) :
    (⟨s :: a, k⟩ : Target).erase? v =
      (v.child? s).bind fun c => ((⟨a, k⟩ : Target).erase? c).map (v.setChild s) := by
  unfold erase?
  rw [Value.get?_cons]
  cases hc : v.child? s with
  | none => rfl
  | some c =>
    simp only [Option.bind_some]
    cases hu : c.get? a with
    | none => rfl
    | some u =>
      cases u with
      | mapping es =>
        by_cases hk : (Entries.get? k es).isSome = true
        · simp only [hk, if_true, Value.replace?, Value.modify?_cons, hc, Option.bind_some]
        · simp [hk]
      | _ => rfl

/-- Deleting an entry that is there takes it out. -/
theorem erase?_eq_without :
    ∀ {a : Address} {k : String} {v : Value}, v.Distinct → (v.get? (a ++ [.key k])).isSome →
      (⟨a, k⟩ : Target).erase? v = some (v.without (· == a ++ [.key k]))
  | [], k, v, hd, hk => by
    have hk : (v.child? (.key k)).isSome := by simpa [Value.get?_cons] using hk
    obtain ⟨c, hc⟩ := Option.isSome_iff_exists.1 hk
    obtain ⟨es, l, rfl, hl, hget⟩ | ⟨_, _, _, hl, -⟩ := Value.child?_eq_some_iff.1 hc
    · cases hl
      have herase : Entries.erase k es = Value.withoutEntries (· == [.key k]) es :=
        Entries.erase_eq_withoutEntries hd.1 (by simp) fun l hl a => by simp [hl]
      rw [erase?, Value.get?_root]
      simp only [hget, Option.isSome_some, if_true, Value.replace?, Value.modify?_root, herase]
      rfl
    · cases hl
  | s :: a, k, v, hd, hk => by
    rw [List.cons_append, Value.get?_cons] at hk
    obtain ⟨u, hu⟩ := Option.isSome_iff_exists.1 hk
    obtain ⟨c, hc, hu⟩ := Option.bind_eq_some_iff.1 hu
    have hbelow : (fun b => s :: b == s :: (a ++ [.key k])) = (· == a ++ [.key k]) := by
      funext b
      simp
    have hwithout : v.without (· == s :: (a ++ [.key k])) =
        v.setChild s (c.without (· == a ++ [.key k])) := by
      rw [Value.without_eq_setChild hd hc (by simp) fun t ht b => by simp [ht], hbelow]
    have ih := erase?_eq_without (hd.child? hc) (by rw [hu]; rfl : (c.get? (a ++ [.key k])).isSome)
    rw [erase?_cons, hc, Option.bind_some, ih, Option.map_some, List.cons_append, hwithout]

/-- The addresses of entries, as a set. -/
def addresses (ts : List Target) (a : Address) : Bool := ts.any (·.address == a)

theorem addresses_iff {ts : List Target} {a : Address} :
    addresses ts a = true ↔ ∃ t ∈ ts, t.address = a := by
  simp [addresses, List.any_eq_true]

theorem onlyEntries_addresses (ts : List Target) : Value.OnlyEntries (addresses ts) := by
  intro a i
  rw [← Bool.not_eq_true, addresses_iff]
  rintro ⟨t, -, ht⟩
  have hlast := (List.append_inj' ht rfl).2
  simp at hlast

theorem kept_addresses {ts : List Target} {a : Address} :
    a.Kept (addresses ts) ↔ ∀ t ∈ ts, ¬ t.address <+: a := by
  constructor
  · intro h t ht hta
    have hfalse := h t.address (by simp [address, Address.child]) hta
    rw [addresses_iff.2 ⟨t, ht, rfl⟩] at hfalse
    cases hfalse
  · intro h
    refine Address.kept_of_forall fun b hb hba => ?_
    obtain ⟨t, ht, rfl⟩ := addresses_iff.1 hb
    exact h t ht hba

/-- Entries of which none lies below another are all deleted. -/
theorem applyAll_erase? :
    ∀ {ts : List Target} {doc : Value} {n : Nat}, doc.Distinct →
      ts.Pairwise (fun t u => t.address.Apart u.address) →
      (∀ t ∈ ts, (doc.get? t.address).isSome) →
        applyAll erase? ts doc n = (doc.without (addresses ts), n + ts.length)
  | [], doc, n, _, _, _ => by
    have hnone : doc.without (addresses []) = doc := Value.without_of_forall doc fun a => rfl
    rw [applyAll, hnone]
    rfl
  | t :: ts, doc, n, hd, hapart, hts => by
    obtain ⟨ht, hapart⟩ := List.pairwise_cons.1 hapart
    have herase : t.erase? doc = some (doc.without (addresses [t])) := by
      have h := erase?_eq_without hd (hts t List.mem_cons_self)
      have heq : (· == t.parent ++ [.key t.key]) = addresses [t] := by
        funext a
        simp [addresses, address, Address.child, eq_comm]
      rwa [heq] at h
    have hrest : ∀ u ∈ ts, ((doc.without (addresses [t])).get? u.address).isSome := by
      intro u hu
      have hkept : u.address.Kept (addresses [t]) := by
        rw [kept_addresses]
        simpa using (ht u hu).1
      rw [Value.get?_without_of_kept (onlyEntries_addresses [t]) hkept, Option.isSome_map]
      exact hts u (List.mem_cons_of_mem t hu)
    have hboth : (fun a => addresses [t] a || addresses ts a) = addresses (t :: ts) := by
      funext a
      simp [addresses]
    rw [applyAll, herase]
    show applyAll erase? ts (doc.without (addresses [t])) (n + 1) = _
    rw [applyAll_erase? (hd.without _) hapart hrest,
      Value.without_without doc _ (onlyEntries_addresses [t]), hboth, List.length_cons]
    congr 1
    omega

end Target

/-! ### Walks through a document without some entries -/

section Without

variable {gone : Address → Bool} {strict : Bool} {path p : KeyPath} {doc v w : Value} {a : Address}

/-- A node that a walk gets to in the smaller document is what is left of one that it gets to in the
larger document. -/
theorem Reaches.of_without (hg : Value.OnlyEntries gone) (h : Reaches path (v.without gone) a p w) :
    ∃ u, Reaches path v a p u ∧ w = u.without fun b => gone (a ++ b) := by
  generalize hv : v.without gone = v' at h
  induction h generalizing v gone with
  | here path _ => exact ⟨v, .here path v, hv.symm⟩
  | @entry path p es k c w a hm hk hc hn _ ih =>
    cases v with
    | mapping fs =>
      obtain rfl : Value.withoutEntries gone fs = es := Value.mapping.inj hv
      obtain ⟨d, hd, -, rfl⟩ := Value.mem_withoutEntries.1 hm
      obtain ⟨u, hu, hw⟩ := ih (hg.below (.key k)) rfl
      exact ⟨u, .entry hd hk (by simpa using hc) hn hu, hw⟩
    | _ => cases hv
  | @element path p items i c w a hi hc _ ih =>
    cases v with
    | sequence vs =>
      obtain rfl : Value.withoutItems gone 0 vs = items := Value.sequence.inj hv
      rw [hg.getElem?_withoutItems] at hi
      obtain ⟨d, hd, rfl⟩ := Option.map_eq_some_iff.1 hi
      obtain ⟨u, hu, hw⟩ := ih (hg.below (.index i)) rfl
      exact ⟨u, .element hd (by simpa using hc) hu, hw⟩
    | _ => cases hv

/-- Nothing comes in the way of a path when entries are taken out. -/
theorem Walk.stop_without (hg : Value.OnlyEntries gone) (h : (doc.walk strict path).stop = none) :
    ((doc.without gone).walk strict path).stop = none := by
  cases strict with
  | false => exact Walk.stop_below_lenient
  | true =>
    by_contra hstop
    obtain ⟨a, p, items, i, c, hr, hi, hc, -⟩ := exists_item_of_stop hstop
    obtain ⟨u, hu, hitems⟩ := Reaches.of_without hg hr
    cases u with
    | sequence vs =>
      have hga : Value.OnlyEntries fun b => gone (a ++ b) := by
        intro b j
        show gone (a ++ (b ++ [.index j])) = false
        rw [← List.append_assoc]
        exact hg (a ++ b) j
      obtain rfl := Value.sequence.inj hitems
      rw [hga.getElem?_withoutItems] at hi
      obtain ⟨d, hd, rfl⟩ := Option.map_eq_some_iff.1 hi
      have hmapping := isMapping_of_reaches h hu hd
      rw [Value.isMapping_without, hmapping] at hc
      cases hc
    | _ => cases hitems

/-- A path leads to what it led to before, as far as that is still there. -/
theorem Value.ends_without_iff (hg : Value.OnlyEntries gone) {t : Target} :
    (doc.without gone).Ends path t ↔ doc.Ends path t ∧ t.address.Kept gone := by
  rw [Value.ends_iff, Value.ends_iff]
  by_cases hkept : t.address.Kept gone
  · rw [Value.get?_without_of_kept hg hkept]
    cases doc.get? t.address with
    | none => simp
    | some v => simp [hkept]
  · rw [Value.get?_without_of_not_kept hg hkept]
    simp [hkept]

end Without

/-! ### What is noted down for a key that matches -/

namespace Walk

/-- What is noted down for each key that matches fully, and for nothing else, is as much as there
are such keys. -/
theorem length_filterMap_events {α : Type} {f : Event → Option α}
    (hf : ∀ e, (f e).isSome = (Event.end? e).isSome) (w : Walk) :
    (w.events.filterMap f).length = w.ends.length := by
  rw [ends, List.length_filterMap_eq_countP, List.length_filterMap_eq_countP]
  simp only [hf]

theorem length_values (w : Walk) : w.values.length = w.ends.length :=
  length_filterMap_events (fun e => by cases e <;> rfl) w

/-- The keys on the way to a key that matches fully, as one text. -/
def listed? : Event → Option String
  | .fully site => some (site.path.joinKeys site.trail)
  | _ => none

theorem length_listed (w : Walk) : (w.events.filterMap listed?).length = w.ends.length :=
  length_filterMap_events (fun e => by cases e <;> rfl) w

/-- Without a segment left a walk ends nowhere. -/
theorem ends_of_not_hasNext {strict : Bool} {path : KeyPath} (h : path.hasNext = false)
    (doc : Value) : (doc.walk strict path).ends = [] := by
  refine ends_of_isMatch_eq_false (fun k => ?_) doc
  by_contra hk
  rw [Bool.not_eq_false] at hk
  simp [KeyPath.hasNext_of_isMatch hk] at h

/-- A walk that is not strict ends at exactly the keys that the path leads to. -/
theorem mem_ends_lenient_iff {path : KeyPath} {doc : Value} (hd : doc.Distinct) {t : Target} :
    t ∈ (doc.walk false path).ends ↔ doc.Ends path t := by
  cases hp : path.hasNext with
  | true => exact mem_ends_iff hd hp stop_below_lenient
  | false =>
    rw [ends_of_not_hasNext hp]
    constructor
    · intro h
      cases h
    · intro h
      simp [h.hasNext] at hp

theorem matched_eq_false {doc : Value} {strict : Bool} {path : KeyPath}
    (h : (doc.walk strict path).ends = []) : (doc.walk strict path).matched = false := by
  have hiff : (doc.walk strict path).matched = true ↔ (doc.walk strict path).ends ≠ [] :=
    matched_iff
  simpa [h] using hiff

end Walk

theorem ListPaths.accepts_visitor : visitor.Accepts := Visitor.accepts_ofSites fun _ _ => rfl

theorem ListPaths.noteAll_visitor (es : List Event) (l : ListPaths) :
    visitor.noteAll es l = { paths := l.paths ++ es.filterMap Walk.listed? } := by
  refine Visitor.noteAll_eq
    (f := fun es l => { paths := l.paths ++ es.filterMap Walk.listed? }) (by simp) ?_ es l
  intro e es l
  cases e <;> simp [visitor, Visitor.ofSites, List.filterMap_cons, Walk.listed?]

/-! ### Deleting along a path -/

namespace Delete

variable {strict : Bool} {path : KeyPath} {doc : Value}

/-- A run with nothing left over from before. -/
theorem run_of_stop_eq_none (hd : doc.Distinct) (hp : path.hasNext)
    (h : (doc.walk strict path).stop = none) (n : Nat) :
    visitor.run strict path doc { deleted := n } =
      ⟨{ deleted := n + (doc.walk strict path).ends.length },
        doc.without (Target.addresses (doc.walk strict path).ends),
        .ok (doc.walk strict path).matched⟩ := by
  have hends : ∀ t ∈ (doc.walk strict path).ends, (doc.get? t.address).isSome :=
    fun t => isSome_get?_of_mem_ends hd
  have hall := Target.applyAll_erase? (n := n) hd (Walk.pairwise_apart_ends hd) hends
  refine Visitor.run_of_finish accepts_visitor hp h ?_
  rw [noteAll_visitor, List.nil_append, ← Walk.ends]
  dsimp only [visitor]
  rw [hall]

/-- Where a path leads nowhere, there is nothing to delete and nothing to read. -/
theorem run_of_ends_eq_nil (hd : doc.Distinct) (h : (doc.walk strict path).stop = none)
    (hends : (doc.walk strict path).ends = []) :
    Read.visitor.run strict path doc {} = ⟨{}, doc, .ok false⟩ ∧
      ∀ n, visitor.run strict path doc { deleted := n } = ⟨{ deleted := n }, doc, .ok false⟩ := by
  cases hp : path.hasNext with
  | false => exact ⟨Visitor.run_of_not_hasNext hp, fun n => Visitor.run_of_not_hasNext hp⟩
  | true =>
    constructor
    · have hvalues : (doc.walk strict path).values = [] := by
        rw [← List.length_eq_zero_iff, Walk.length_values, hends]
        rfl
      rw [Visitor.run_of_finish Read.accepts_visitor hp h rfl, Read.noteAll_visitor,
        Walk.matched_eq_false hends]
      show (⟨{ values := [] ++ (doc.walk strict path).values }, doc, .ok false⟩ :
        Visitor.Outcome Read) = _
      rw [hvalues]
      rfl
    · intro n
      have hnone : doc.without (Target.addresses []) = doc :=
        Value.without_of_forall doc fun a => rfl
      rw [run_of_stop_eq_none hd hp h n, hends, hnone, Walk.matched_eq_false hends]
      rfl

/-- No key that a path led to is left. -/
theorem ends_without_ends (hd : doc.Distinct) (hp : path.hasNext)
    (h : (doc.walk strict path).stop = none) :
    ((doc.without (Target.addresses (doc.walk strict path).ends)).walk strict path).ends = [] := by
  have hg := Target.onlyEntries_addresses (doc.walk strict path).ends
  refine List.eq_nil_iff_forall_not_mem.2 fun t ht => ?_
  rw [mem_ends_iff (hd.without _) hp (Walk.stop_without hg h), Value.ends_without_iff hg,
    Target.kept_addresses] at ht
  exact ht.2 t ((mem_ends_iff hd hp h).2 ht.1) List.prefix_rfl

/-- **Deleting along a path.**  After a successful run, exactly the entries that the path leads to
are taken out of the document.  As many have been deleted as are read, and as many paths are listed,
along the path in the document before.  After that, reading along the path gives no value, and
deleting along it again changes nothing. -/
theorem run_eq_without {strict : Bool} {path : KeyPath} {doc : Value} (hd : doc.Distinct)
    (h : (visitor.run strict path doc {}).result.isOk) :
    let out := visitor.run strict path doc {}
    (∃ gone : Address → Bool, (∀ a, gone a ↔ ∃ t, doc.Ends path t ∧ t.address = a) ∧
      out.doc = doc.without gone) ∧
    out.state.deleted = (Read.visitor.run strict path doc {}).state.values.length ∧
    out.state.deleted = (ListPaths.visitor.run strict path doc {}).state.paths.length ∧
    Read.visitor.run strict path out.doc {} = ⟨{}, out.doc, .ok false⟩ ∧
    ∀ n, visitor.run strict path out.doc { deleted := n } =
      ⟨{ deleted := n }, out.doc, .ok false⟩ := by
  intro out
  cases hp : path.hasNext with
  | false =>
    have hout : out = ⟨{}, doc, .ok false⟩ := Visitor.run_of_not_hasNext hp
    rw [hout]
    refine ⟨⟨fun _ => false, fun a => ?_, ?_⟩, ?_, ?_, Visitor.run_of_not_hasNext hp,
      fun n => Visitor.run_of_not_hasNext hp⟩
    · constructor
      · intro hfalse
        cases hfalse
      · rintro ⟨t, ht, -⟩
        simp [ht.hasNext] at hp
    · exact (Value.without_of_forall doc fun _ => rfl).symm
    · rw [Visitor.run_of_not_hasNext hp]
      rfl
    · rw [Visitor.run_of_not_hasNext hp]
      rfl
  | true =>
    have hs := (Visitor.isOk_run_iff accepts_visitor hp).1 h
    have hout : out = _ := run_of_stop_eq_none hd hp hs 0
    have hg := Target.onlyEntries_addresses (doc.walk strict path).ends
    obtain ⟨hread, hdelete⟩ := run_of_ends_eq_nil (hd.without _) (Walk.stop_without hg hs)
      (ends_without_ends hd hp hs)
    rw [hout]
    refine ⟨⟨Target.addresses (doc.walk strict path).ends, fun a => ?_, rfl⟩, ?_, ?_, hread, hdelete⟩
    · simp only [Target.addresses_iff, mem_ends_iff hd hp hs]
    · rw [Read.values_run hs hp, Walk.length_values, Nat.zero_add]
    · rw [Visitor.run_of_finish ListPaths.accepts_visitor hp hs rfl, ListPaths.noteAll_visitor,
        List.nil_append, Walk.length_listed, Nat.zero_add]

/-- Below two elements of a sequence, in a mapping that becomes empty, and at scalars before the path
is used up. -/
theorem run_eq_without_nested :
    let doc := Value.mapping [
      ("a", .mapping [("x", .null), ("y", .sequence [.null])]),
      ("b", .sequence [.mapping [("z", .null), ("x", .mapping [("x", .null)])], .mapping []]),
      ("c", .boolean true), ("d", .mapping [("x", .sequence [.null])])]
    let rest := Value.mapping [("a", .mapping [("y", .sequence [.null])]),
      ("b", .sequence [.mapping [("z", .null)], .mapping []]), ("d", .mapping [])]
    ∃ path, KeyPath.parse "*.x" "." = .ok path ∧ doc.Distinct ∧
      visitor.run true path doc {} = ⟨{ deleted := 4 }, rest, .ok true⟩ ∧
      (∃ gone : Address → Bool, (∀ a, gone a ↔ ∃ t, doc.Ends path t ∧ t.address = a) ∧
        rest = doc.without gone) ∧
      (Read.visitor.run true path doc {}).state.values.length = 4 ∧
      (ListPaths.visitor.run true path doc {}).state.paths.length = 4 ∧
      Read.visitor.run true path rest {} = ⟨{}, rest, .ok false⟩ := by
  intro doc rest
  obtain ⟨path, hpath, hstate, hrest, hresult⟩ := KeyPath.exists_parse "*.x" "."
    (fun p => ((visitor.run true p doc {}).state.pending = [] ∧
        (visitor.run true p doc {}).state.deleted = 4) ∧
      (visitor.run true p doc {}).doc = rest ∧ (visitor.run true p doc {}).result = .ok true)
    (by decide +kernel)
  have hd : doc.Distinct := by decide
  have hrun : visitor.run true path doc {} = ⟨{ deleted := 4 }, rest, .ok true⟩ := by
    cases hout : visitor.run true path doc {} with
    | mk state out result =>
      rw [hout] at hstate hrest hresult
      obtain ⟨pending, deleted⟩ := state
      obtain ⟨rfl, rfl⟩ := hstate
      obtain rfl := hrest
      obtain rfl := hresult
      rfl
  obtain ⟨hgone, hread, hlist, hnothing, -⟩ := run_eq_without hd (by rw [hrun]; rfl)
  rw [hrun] at hgone hread hlist hnothing
  exact ⟨path, hpath, hd, hrun, hgone, hread.symm, hlist.symm, hnothing⟩

/-! ### Deleting along two paths -/

/-- A delete that is not strict succeeds, also if there is no segment left. -/
theorem doc_run_lenient (hd : doc.Distinct) (path : KeyPath) :
    (visitor.run false path doc {}).doc =
      doc.without (Target.addresses (doc.walk false path).ends) := by
  cases hp : path.hasNext with
  | true => rw [run_of_stop_eq_none hd hp Walk.stop_below_lenient 0]
  | false =>
    have hends : (doc.walk false path).ends = [] := Walk.ends_of_not_hasNext hp doc
    have hnone : doc.without (Target.addresses []) = doc := Value.without_of_forall doc fun _ => rfl
    rw [Visitor.run_of_not_hasNext hp, hends, hnone]

/-- What a path leads to after a delete along another path. -/
theorem mem_ends_without_iff (hd : doc.Distinct) (p q : KeyPath) {t : Target} :
    t ∈ ((doc.without (Target.addresses (doc.walk false p).ends)).walk false q).ends ↔
      t ∈ (doc.walk false q).ends ∧
        t.address.Kept (Target.addresses (doc.walk false p).ends) := by
  rw [Walk.mem_ends_lenient_iff (hd.without _), Walk.mem_ends_lenient_iff hd,
    Value.ends_without_iff (Target.onlyEntries_addresses _)]

/-- Deleting along a path and then along another takes out what either of them leads to in the
beginning: what the first delete takes out of reach of the second is gone already. -/
theorem doc_run_run (hd : doc.Distinct) (p q : KeyPath) :
    (visitor.run false q (visitor.run false p doc {}).doc {}).doc =
      doc.without fun a => Target.addresses (doc.walk false p).ends a ||
        Target.addresses (doc.walk false q).ends a := by
  rw [doc_run_lenient hd p, doc_run_lenient (hd.without _) q,
    Value.without_without doc _ (Target.onlyEntries_addresses _)]
  refine Value.without_congr doc fun a => ?_
  rw [Address.kept_or, Address.kept_or]
  refine and_congr_right fun hp => ?_
  rw [Target.kept_addresses, Target.kept_addresses]
  constructor
  · intro h t ht hta
    exact h t ((mem_ends_without_iff hd p q).2 ⟨ht, hp.of_prefix hta⟩) hta
  · intro h t ht
    exact h t ((mem_ends_without_iff hd p q).1 ht).1

/-- **Deletes along two paths.**  If sequences are not strict, the order of two deletes does not
matter: together they take out exactly the entries that one of the paths leads to in the document
before. -/
theorem run_comm {doc : Value} (hd : doc.Distinct) (p q : KeyPath) :
    let delete := fun path doc => (visitor.run false path doc {}).doc
    ∃ gone : Address → Bool,
      (∀ a, gone a ↔ ∃ t, (doc.Ends p t ∨ doc.Ends q t) ∧ t.address = a) ∧
      delete q (delete p doc) = doc.without gone ∧ delete p (delete q doc) = doc.without gone := by
  intro delete
  refine ⟨fun a => Target.addresses (doc.walk false p).ends a ||
    Target.addresses (doc.walk false q).ends a, fun a => ?_, doc_run_run hd p q, ?_⟩
  · rw [Bool.or_eq_true, Target.addresses_iff, Target.addresses_iff]
    simp only [Walk.mem_ends_lenient_iff hd, or_and_right, exists_or]
  · have hqp := doc_run_run hd q p
    simp only [Bool.or_comm] at hqp
    exact hqp

/-- One path leads to a mapping with an entry of the other in it, and both lead to the same entry of
an element of a sequence. -/
theorem run_comm_nested :
    let doc := Value.mapping [("a", .mapping [("b", .mapping [("c", .null), ("d", .null)])]),
      ("e", .sequence [.mapping [("b", .null), ("c", .null)], .null]), ("f", .null)]
    let rest := Value.mapping [("a", .mapping []), ("e", .sequence [.mapping [], .null])]
    let delete := fun path doc => (visitor.run false path doc {}).doc
    ∃ p q, KeyPath.parse "a|e.b" "." = .ok p ∧ KeyPath.parse "*.*.c" "." = .ok q ∧ doc.Distinct ∧
      delete q (delete p doc) = rest ∧ delete p (delete q doc) = rest ∧
      ∃ gone : Address → Bool,
        (∀ a, gone a ↔ ∃ t, (doc.Ends p t ∨ doc.Ends q t) ∧ t.address = a) ∧
        rest = doc.without gone := by
  intro doc rest delete
  obtain ⟨p, hp, hfirst⟩ := KeyPath.exists_parse "a|e.b" "."
    (fun p => delete p doc = .mapping [("a", .mapping []),
      ("e", .sequence [.mapping [("c", .null)], .null]), ("f", .null)]) (by decide +kernel)
  obtain ⟨q, hq, hsecond⟩ := KeyPath.exists_parse "*.*.c" "."
    (fun q => delete q (.mapping [("a", .mapping []),
      ("e", .sequence [.mapping [("c", .null)], .null]), ("f", .null)]) = rest) (by decide +kernel)
  have hpq : delete q (delete p doc) = rest := by rw [hfirst, hsecond]
  have hd : doc.Distinct := by decide
  obtain ⟨gone, hgone, hpq', hqp'⟩ := run_comm hd p q
  have hqp : delete p (delete q doc) = rest := hqp'.trans (hpq'.symm.trans hpq)
  exact ⟨p, q, hp, hq, hd, hpq, hqp, gone, hgone, hpq.symm.trans hpq'⟩

end Delete

end YamlQuery

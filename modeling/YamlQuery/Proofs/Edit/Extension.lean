import YamlQuery.Proofs.Edit.Overwriting
import YamlQuery.Proofs.Edit.Succession

/-!
# Proofs.Edit.Extension — what inserting does beyond replacing

An insert makes changes along the path (`Insert.exists_edits_of_run`).  Taking out the first keys of
its branches leaves what a replace would have made (`Value.Edits.apply_without`), so an insert only
adds keys to what a replace does (`Insert.extends_replace`).  And the path leads to all that it has
put in (`Insert.read_after_run`).
-/

namespace YamlQuery

namespace Value.Edits

variable {doc data : Value} {path : KeyPath} (E : doc.Edits path)

/-- The first entries of the branches. -/
def roots : List Target := E.sites.map fun a => ⟨a, E.key⟩

theorem mem_addresses_roots {b : Address} :
    Target.addresses E.roots b = true ↔ ∃ a ∈ E.sites, a.child (.key E.key) = b := by
  simp [Target.addresses_iff, roots, Target.address]

/-- Nothing at or above the site of a branch, and nothing at, above or below an entry that matches
is the first entry of a branch. -/
theorem kept_sites {a : Address} (ha : a ∈ E.sites) : a.Kept (Target.addresses E.roots) := by
  refine Address.kept_of_forall fun b hb hba => ?_
  obtain ⟨c, hc, rfl⟩ := E.mem_addresses_roots.1 hb
  have hca : c <+: a := (List.prefix_append c _).trans hba
  by_cases heq : c = a
  · subst heq
    have hle := hba.length_le
    rw [Address.child, List.length_append, List.length_singleton] at hle
    omega
  · exact (DeadEnd.apart (.inl (E.barren c hc)) (.inl (E.barren a ha)) heq).1 hca

theorem kept_ends {t : Target} (ht : t ∈ E.ends) : t.address.Kept (Target.addresses E.roots) := by
  refine Address.kept_of_forall fun b hb hbt => ?_
  obtain ⟨a, ha, rfl⟩ := E.mem_addresses_roots.1 hb
  have hapart := ((E.mem_ends t).1 ht).apart_deadEnd (.inl (E.barren a ha))
  exact hapart.2 ((List.prefix_append a _).trans hbt)

theorem below_ends {t : Target} (ht : t ∈ E.ends) (b : Address) :
    Target.addresses E.roots (t.address ++ b) = false := by
  rw [← Bool.not_eq_true, mem_addresses_roots]
  rintro ⟨a, ha, heq⟩
  have hapart := ((E.mem_ends t).1 ht).apart_deadEnd (.inl (E.barren a ha))
  rcases List.prefix_concat_iff.1 (heq ▸ List.prefix_append t.address b) with htb | hta
  · exact hapart.2 ⟨_, htb.symm⟩
  · exact hapart.1 hta

/-- Without the branches there are the new values alone. -/
theorem apply_without (hd : doc.Distinct) :
    (E.apply data).without (Target.addresses E.roots) =
      doc.modifyAll (E.ends.map fun t => (t.address, fun _ => data)) := by
  have hg := Target.onlyEntries_addresses E.roots
  have habsent : doc.without (Target.addresses E.roots) = doc := by
    refine Distinct.without_of_absent hd fun b hb => ?_
    obtain ⟨a, ha, rfl⟩ := E.mem_addresses_roots.1 hb
    obtain ⟨es, hes, hkey, -⟩ := E.exists_mapping ha
    rw [get?_child, hes]
    exact (Entries.get?_eq_none_iff _ _).2 hkey
  have hgrown (v : Value) :
      (v.modifyAll (E.sites.map fun a => (a, grow (E.branch data)))).without
        (Target.addresses E.roots) = v.without (Target.addresses E.roots) := by
    rw [modifyAll_without (g := fun _ => id) hg fun a ha => ⟨E.kept_sites ha, fun u => ?_⟩]
    · refine modifyAll_of_eq fun c hc u _ => ?_
      obtain ⟨a, -, rfl⟩ := List.mem_map.1 hc
      rfl
    · have hgone : Target.addresses E.roots (a ++ [.key E.key]) = true :=
        E.mem_addresses_roots.2 ⟨a, ha, rfl⟩
      cases u with
      | mapping es => exact congrArg mapping (withoutEntries_append_of_gone hgone es _)
      | _ => rfl
  have hended (v : Value) :
      (v.modifyAll (E.ends.map fun t => (t.address, fun _ => data))).without
        (Target.addresses E.roots) =
          (v.without (Target.addresses E.roots)).modifyAll
            (E.ends.map fun t => (t.address, fun _ => data)) :=
    modifyAll_without (g := fun _ _ => data) hg fun t ht =>
      ⟨E.kept_ends ht, fun _ => without_of_forall data (E.below_ends ht)⟩
  rw [apply, changes, modifyAll_append, hgrown, hended, habsent]

end Value.Edits

namespace Insert

variable {data doc : Value} {path : KeyPath} {strict : Bool}

/-- A run of a new insert makes changes along the path, and its branches are where an insert with
nothing left from before creates some. -/
theorem exists_edits_at_of_run (data : Value) (hd : doc.Distinct) (hp : path.hasNext)
    (hs : (doc.walk strict path).stop = none)
    (hlit : ∀ s ∈ path.segments, ∀ k, s.literal? = some k → s.isMatch k) :
    let out := visitor.run strict path doc { data }
    ∃ E : doc.Edits path, (∀ a, a ∈ E.sites ↔ CreatesAt ∅ doc path a) ∧
      E.ends = (doc.walk strict path).ends ∧ out.doc = E.apply data ∧
      out.state.replaced = E.ends.length ∧ out.state.created = E.sites.length ∧
      out.result = .ok (doc.walk strict path).matched := by
  intro out
  have hempty : {l | l ∈ ({ data } : Insert).levels} = ∅ := by simp
  have hrun := run_of_clean (i := { data }) rfl rfl hp hs
  dsimp only at hrun
  obtain ⟨E, hends, hsites, hmade⟩ := exists_edits data hd hp hs hlit ∅
  have hsome : ∀ t ∈ (doc.walk strict path).ends, (doc.get? t.address).isSome :=
    fun t => isSome_get?_of_mem_ends hd
  have hreplaced := Target.applyAll_replace? data (n := 0) (Walk.pairwise_apart_ends hd) hsome
  rw [createAll_deepest_places data hd hp hs, hempty, hmade 0] at hrun
  rw [show out = _ from hrun]
  refine ⟨E, hsites, hends, rfl, ?_, ?_, rfl⟩
  · dsimp only
    rw [hreplaced, hends, Nat.zero_add, Nat.zero_add]
  · dsimp only
    rw [Nat.zero_add, Nat.zero_add]

/-- A run of a new insert makes changes along the path. -/
theorem exists_edits_of_run (data : Value) (hd : doc.Distinct) (hp : path.hasNext)
    (hs : (doc.walk strict path).stop = none)
    (hlit : ∀ s ∈ path.segments, ∀ k, s.literal? = some k → s.isMatch k) :
    let out := visitor.run strict path doc { data }
    ∃ E : doc.Edits path, E.ends = (doc.walk strict path).ends ∧ out.doc = E.apply data ∧
      out.state.replaced = E.ends.length ∧ out.state.created = E.sites.length ∧
      out.result = .ok (doc.walk strict path).matched := by
  obtain ⟨E, -, hrun⟩ := exists_edits_at_of_run data hd hp hs hlit
  exact ⟨E, hrun⟩

/-- **Inserting extends replacing.**  An insert finds and replaces what a replace does, and then it
only adds keys: each of them behind the others of a mapping that is there after a replace, and as
many as it has created.  Without them the document is what a replace makes of it. -/
theorem extends_replace {strict : Bool} {path : KeyPath} {doc data : Value} (hd : doc.Distinct)
    (hlit : ∀ s ∈ path.segments, ∀ k, s.literal? = some k → s.isMatch k)
    (h : (visitor.run strict path doc { data }).result.isOk) :
    let out := visitor.run strict path doc { data }
    let base := Replace.visitor.run strict path doc { data }
    (base.result = out.result ∧ base.state.replaced = out.state.replaced) ∧
    ∃ new : List Target, new.length = out.state.created ∧ (new.map (·.parent)).Nodup ∧
      (∀ t ∈ new, ∃ es v, base.doc.get? t.parent = some (.mapping es) ∧ t.key ∉ Entries.keys es ∧
        out.doc.get? t.parent = some (.mapping (es ++ [(t.key, v)]))) ∧
      out.doc.without (Target.addresses new) = base.doc := by
  intro out base
  cases hp : path.hasNext with
  | false =>
    have hout : out = ⟨{ data }, doc, .ok false⟩ := Visitor.run_of_not_hasNext hp
    have hbase : base = ⟨{ data }, doc, .ok false⟩ := Visitor.run_of_not_hasNext hp
    rw [hout, hbase]
    exact ⟨⟨rfl, rfl⟩, [], rfl, List.nodup_nil, by simp, Value.without_of_forall doc fun _ => rfl⟩
  | true =>
    have hs := (Visitor.isOk_run_iff accepts_visitor hp).1 h
    obtain ⟨E, hends, hdoc, hreplaced, hcreated, hresult⟩ :=
      exists_edits_of_run data hd hp hs hlit
    have hbase : base = _ := Replace.run_of_stop_eq_none data hd hp hs 0
    rw [← hends] at hbase
    rw [hbase, show out.result = _ from hresult, show out.state.replaced = _ from hreplaced,
      show out.state.created = _ from hcreated, show out.doc = _ from hdoc]
    refine ⟨⟨rfl, Nat.zero_add _⟩, E.roots, List.length_map _, ?_, ?_, E.apply_without hd⟩
    · rw [Value.Edits.roots, List.map_map]
      exact (List.map_id E.sites).symm ▸ E.nodup
    · intro t ht
      obtain ⟨a, ha, rfl⟩ := List.mem_map.1 ht
      obtain ⟨es, hes, hkey, -⟩ := E.exists_mapping ha
      refine ⟨es, nest data E.keys, ?_, hkey, ?_⟩
      · rw [Value.get?_modifyAll_of_apart fun c hc => ?_, hes]
        obtain ⟨t, ht, rfl⟩ := List.mem_map.1 hc
        exact ((E.mem_ends t).1 ht).apart_deadEnd (.inl (E.barren a ha))
      · rw [E.get?_apply_site ha hes hkey, Entries.put_of_not_mem hkey]

/-- Two mappings without the second key of the path, one with all its keys, and a scalar before the
path is used up. -/
theorem extends_replace_twice :
    let doc := Value.mapping [("a", .mapping []), ("b", .mapping [("c", .null)]),
      ("d", .mapping [("x", .mapping [("y", .null), ("z", .null)])]), ("e", .boolean true)]
    let data := Value.sequence [.null]
    let branch := ("x", Value.mapping [("y", data)])
    let base := Value.mapping [("a", .mapping []), ("b", .mapping [("c", .null)]),
      ("d", .mapping [("x", .mapping [("y", data), ("z", .null)])]), ("e", data)]
    let out := Value.mapping [("a", .mapping [branch]), ("b", .mapping [("c", .null), branch]),
      ("d", .mapping [("x", .mapping [("y", data), ("z", .null)])]), ("e", data)]
    ∃ path, KeyPath.parse "*.x.y" "." = .ok path ∧ doc.Distinct ∧
      (∀ s ∈ path.segments, ∀ k, s.literal? = some k → s.isMatch k) ∧
      (visitor.run true path doc { data }).result.isOk ∧
      ∃ new : List Target, new.length = 2 ∧ (new.map (·.parent)).Nodup ∧
        (∀ t ∈ new, ∃ es v, base.get? t.parent = some (.mapping es) ∧ t.key ∉ Entries.keys es ∧
          out.get? t.parent = some (.mapping (es ++ [(t.key, v)]))) ∧
        out.without (Target.addresses new) = base := by
  intro doc data branch base out
  obtain ⟨path, hpath, hlit, hok, hcreated, hout, hbase⟩ := KeyPath.exists_parse "*.x.y" "."
    (fun p => (∀ s ∈ p.segments, ∀ k ∈ s.literal?, s.isMatch k) ∧
      (visitor.run true p doc { data }).result.isOk ∧
      (visitor.run true p doc { data }).state.created = 2 ∧
      (visitor.run true p doc { data }).doc = out ∧
      (Replace.visitor.run true p doc { data }).doc = base) (by decide +kernel)
  have hd : doc.Distinct := by decide
  obtain ⟨-, new, hlen, hnodup, hnew, hwithout⟩ := extends_replace hd hlit hok
  rw [hcreated] at hlen
  rw [hout, hbase] at hnew hwithout
  exact ⟨path, hpath, hd, hlit, hok, new, hlen, hnodup, hnew, hwithout⟩

/-- **Reading what was inserted.**  After a successful run, if the new value is a scalar or the path
is used up at each entry that it leads to, reading along the path gives the new value, as often as it
was put in for an old value or at the tip of a new branch. -/
theorem read_after_run {strict : Bool} {path : KeyPath} {doc data : Value} (hd : doc.Distinct)
    (hdata : data.Distinct)
    (hlit : ∀ s ∈ path.segments, ∀ k, s.literal? = some k → s.isMatch k)
    (h : (visitor.run strict path doc { data }).result.isOk)
    (hlast : data.isScalar ∨ ∀ t, doc.Ends path t → t.keys.length = path.remaining.length) :
    let out := visitor.run strict path doc { data }
    let n := out.state.replaced + out.state.created
    Read.visitor.run strict path out.doc {} =
      ⟨{ values := List.replicate n data }, out.doc, .ok (decide (0 < n))⟩ := by
  intro out n
  cases hp : path.hasNext with
  | false =>
    have hout : out = ⟨{ data }, doc, .ok false⟩ := Visitor.run_of_not_hasNext hp
    have hn : n = 0 := by
      show out.state.replaced + out.state.created = 0
      rw [hout]
      rfl
    rw [hn, hout]
    exact Visitor.run_of_not_hasNext hp
  | true =>
    have hs := (Visitor.isOk_run_iff accepts_visitor hp).1 h
    obtain ⟨E, -, hdoc, hreplaced, hcreated, -⟩ := exists_edits_of_run data hd hp hs hlit
    have hn : n = E.edited.length := by
      rw [Value.Edits.edited, List.length_append, List.length_map]
      exact congrArg₂ (· + ·) hreplaced hcreated
    rw [hn, show out.doc = _ from hdoc]
    exact E.run_read hlast hd hdata hp hs

/-- Two new branches, and two old values of which one is a scalar before the path is used up. -/
theorem read_after_run_twice :
    let doc := Value.mapping [("a", .mapping []), ("b", .mapping [("c", .null)]),
      ("d", .mapping [("x", .mapping [("y", .null), ("z", .null)])]), ("e", .boolean true)]
    let data := Value.string "new"
    let branch := ("x", Value.mapping [("y", data)])
    let out := Value.mapping [("a", .mapping [branch]), ("b", .mapping [("c", .null), branch]),
      ("d", .mapping [("x", .mapping [("y", data), ("z", .null)])]), ("e", data)]
    ∃ path, KeyPath.parse "*.x.y" "." = .ok path ∧ doc.Distinct ∧ data.Distinct ∧
      (∀ s ∈ path.segments, ∀ k, s.literal? = some k → s.isMatch k) ∧
      (visitor.run true path doc { data }).result.isOk ∧ data.isScalar ∧
      (visitor.run true path doc { data }).doc = out ∧
      Read.visitor.run true path out {} =
        ⟨{ values := [data, data, data, data] }, out, .ok true⟩ := by
  intro doc data branch out
  obtain ⟨path, hpath, hlit, hok, hreplaced, hcreated, hout⟩ := KeyPath.exists_parse "*.x.y" "."
    (fun p => (∀ s ∈ p.segments, ∀ k ∈ s.literal?, s.isMatch k) ∧
      (visitor.run true p doc { data }).result.isOk ∧
      (visitor.run true p doc { data }).state.replaced = 2 ∧
      (visitor.run true p doc { data }).state.created = 2 ∧
      (visitor.run true p doc { data }).doc = out) (by decide +kernel)
  have hd : doc.Distinct := by decide
  have hdata : data.Distinct := by decide
  have hread := read_after_run hd hdata hlit hok (.inl rfl)
  dsimp only at hread
  rw [hreplaced, hcreated, hout] at hread
  exact ⟨path, hpath, hd, hdata, hlit, hok, rfl, hout, hread⟩

end Insert

end YamlQuery

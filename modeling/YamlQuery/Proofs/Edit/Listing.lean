import YamlQuery.Proofs.Edit.Wildcard
import YamlQuery.Proofs.Walk.Narrower

/-!
# Proofs.Edit.Listing — reading along the paths that are listed

The keys that match along a path give the values that are read and the paths that are listed, both in
the same order (`Walk.map_some_values`, `Walk.filterMap_listed?`).  A listed path of bare keys spells
out these keys, so reading along it finds the value again (`ListPaths.read_listed`).
-/

namespace YamlQuery

namespace Walk

variable {strict : Bool} {path : KeyPath} {doc : Value}

/-- The values are those of the entries at which the walk ends. -/
theorem map_some_values (hd : doc.Distinct) :
    (doc.walk strict path).values.map some =
      (doc.walk strict path).ends.map fun t => doc.get? t.address := by
  rw [values, ends, List.map_filterMap, List.map_filterMap]
  refine List.filterMap_congr fun e he => ?_
  cases e with
  | fully site =>
    show some (some site.value) = some (doc.get? (Target.ofSite site).address)
    rw [get?_of_site hd (.inr he)]
  | partly | miss => rfl

theorem trail_of_fully {site : Site} (h : .fully site ∈ (doc.walk strict path).events) :
    site.trail = (Target.ofSite site).keys ∧ site.path.delimiter = path.delimiter := by
  obtain ⟨a, p, w, hr, ho⟩ := found_of_mem_events h
  obtain rfl := hr.path_eq
  cases ho with
  | ends => exact ⟨rfl, rfl⟩

/-- The paths are made of the keys on the way to the entries at which the walk ends. -/
theorem filterMap_listed? :
    (doc.walk strict path).events.filterMap listed? =
      (doc.walk strict path).ends.map fun t => path.joinKeys t.keys := by
  rw [ends, List.map_filterMap]
  refine List.filterMap_congr fun e he => ?_
  cases e with
  | fully site =>
    obtain ⟨htrail, hdelimiter⟩ := trail_of_fully he
    rw [listed?, KeyPath.joinKeys, htrail, hdelimiter]
    rfl
  | partly | miss => rfl

end Walk

theorem ListPaths.paths_run {strict : Bool} {path : KeyPath} {doc : Value}
    (h : (doc.walk strict path).stop = none) (hp : path.hasNext) :
    (visitor.run strict path doc {}).state.paths =
      (doc.walk strict path).ends.map fun t => path.joinKeys t.keys := by
  rw [Visitor.run_of_finish accepts_visitor hp h rfl, noteAll_visitor, ← Walk.filterMap_listed?]
  rfl

/-! ### Reading along a path that spells out keys -/

section

variable {strict : Bool} {path q : KeyPath} {doc v : Value} {t : Target}

theorem KeyPath.Spells.hasNext (hq : Spells q.remaining t.keys) : q.hasNext := by
  have hlength : q.remaining.length = t.keys.length := List.Forall₂.length_eq hq
  rw [Target.keys, List.length_append, List.length_singleton] at hlength
  exact hasNext_iff.2 (List.length_pos_iff.1 (by omega))

/-- A path that spells out the keys of an entry ends at it. -/
theorem KeyPath.Spells.ends (hq : Spells q.remaining t.keys) (ht : doc.Ends path t) :
    doc.Ends q t := by
  obtain ⟨hsparse, -, v, hv, -⟩ := Value.ends_iff.1 ht
  exact Value.ends_iff.2
    ⟨hsparse, along_iff hq |>.2 List.prefix_rfl, v, hv, .inl (List.Forall₂.length_eq hq).symm⟩

/-- Where the walk along a path ends at an entry, the value is read along a path that spells out the
keys of the entry; and without sequences nothing else is. -/
theorem Read.run_of_spells (hd : doc.Distinct) (hs : (doc.walk strict path).stop = none)
    (ht : doc.Ends path t) (hv : doc.get? t.address = some v)
    (hq : KeyPath.Spells q.remaining t.keys) :
    let again := visitor.run strict q doc {}
    again.result.isOk ∧ v ∈ again.state.values ∧
      (doc.HasNoSequence → again.state.values = [v]) := by
  intro again
  have hp := hq.hasNext
  have hstop : (doc.walk strict q).stop = none := Walk.stop_of_narrows (hq.narrows ht.along) hs
  have hmem : t ∈ (doc.walk strict q).ends := (mem_ends_iff hd hp hstop).2 (hq.ends ht)
  have hvalues : (doc.walk strict q).values.map some = _ := Walk.map_some_values hd
  refine ⟨(Visitor.isOk_run_iff accepts_visitor hp).2 hstop, ?_, fun hseq => ?_⟩
  · have hsome : some v ∈ (doc.walk strict q).values.map some := by
      rw [hvalues, ← hv]
      exact List.mem_map_of_mem hmem
    rw [values_run hstop hp]
    simpa using hsome
  · -- all entries at which the walk ends are at one address, and none is above another
    have hsame : ∀ u ∈ (doc.walk strict q).ends, u.address = t.address := fun u hu =>
      ((mem_ends_iff hd hp hstop).1 hu).eq_of_spells hseq hq hv
    have hapart : (doc.walk strict q).ends.Pairwise _ := Walk.pairwise_apart_ends hd
    have hends : (doc.walk strict q).ends.map (doc.get? ·.address) = [some v] := by
      generalize (doc.walk strict q).ends = ts at hmem hsame hapart
      rcases ts with _ | ⟨u, _ | ⟨w, us⟩⟩
      · cases hmem
      · rw [List.map_singleton, hsame u List.mem_cons_self, hv]
      · have huw := (List.pairwise_cons.1 hapart).1 w List.mem_cons_self
        rw [hsame u (by simp), hsame w (by simp)] at huw
        exact absurd List.prefix_rfl huw.1
    rw [values_run hstop hp]
    rw [hends] at hvalues
    exact List.map_injective_iff.2 (Option.some_injective _) hvalues

end

/-! ### Reading along listed paths -/

/-- **As many paths are listed as values are read, and a listed path reads its value again.**  Both
are, in the same order, the paths and the values of the entries that the path leads to.  A listed path
of bare keys is a path exactly if none of these keys has more than 327674 bytes.  A read along it
succeeds then and has the value among its values; in a document without sequences it has no other. -/
theorem ListPaths.read_listed {strict : Bool} {path : KeyPath} {doc : Value} (hd : doc.Distinct)
    (hdelimiter : path.delimiter ≠ "")
    (hread : (Read.visitor.run strict path doc {}).result.isOk) :
    let ends := (Visitor.record.run strict path doc []).state
    let read := Read.visitor.run strict path doc {}
    let list := visitor.run strict path doc {}
    list.result = read.result ∧ list.state.paths.length = read.state.values.length ∧
    list.state.paths = ends.map (fun t => path.joinKeys t.keys) ∧
    read.state.values.map some = ends.map (fun t => doc.get? t.address) ∧
    ∀ (i : Nat) (t : Target) (v : Value) (listed : String), ends[i]? = some t →
      read.state.values[i]? = some v → list.state.paths[i]? = some listed →
      (∀ k ∈ t.keys, KeyPath.IsBare path.delimiter k) →
      ((∃ q, KeyPath.parse listed path.delimiter = .ok q) ↔
        ∀ k ∈ t.keys, k.utf8ByteSize ≤ 327674) ∧
      ∀ q, KeyPath.parse listed path.delimiter = .ok q →
        let again := Read.visitor.run strict q doc {}
        again.result.isOk ∧ v ∈ again.state.values ∧
          (doc.HasNoSequence → again.state.values = [v]) := by
  intro ends read list
  cases hp : path.hasNext with
  | false =>
    have hends : ends = [] := by
      simp only [ends, Visitor.run_of_not_hasNext hp]
    have hread : read = ⟨{}, doc, .ok false⟩ := Visitor.run_of_not_hasNext hp
    have hlist : list = ⟨{}, doc, .ok false⟩ := Visitor.run_of_not_hasNext hp
    rw [hends, hread, hlist]
    exact ⟨rfl, rfl, rfl, rfl, fun i t v listed h => by simp at h⟩
  | true =>
    have hs := (Visitor.isOk_run_iff Read.accepts_visitor hp).1 hread
    have hends : ends = (doc.walk strict path).ends := Visitor.state_run_record hs hp
    have hvalues : read.state.values.map some = ends.map (fun t => doc.get? t.address) := by
      rw [hends, ← Walk.map_some_values hd]
      exact congrArg _ (Read.values_run hs hp)
    have hpaths : list.state.paths = ends.map (fun t => path.joinKeys t.keys) := by
      rw [hends]
      exact paths_run hs hp
    have hresult : list.result = read.result := by
      simp only [list, read, Visitor.run_of_finish accepts_visitor hp hs rfl,
        Visitor.run_of_finish Read.accepts_visitor hp hs rfl]
    have hlength : list.state.paths.length = read.state.values.length := by
      have h := congrArg List.length hvalues
      rw [List.length_map, List.length_map] at h
      rw [hpaths, List.length_map, h]
    refine ⟨hresult, hlength, hpaths, hvalues, fun i t v listed hi hv hlisted hbare => ?_⟩
    obtain rfl : path.joinKeys t.keys = listed := by
      simpa [hpaths, hi] using hlisted
    have hget : doc.get? t.address = some v := by
      have h := congrArg (·[i]?) hvalues
      simpa [hi, hv] using h.symm
    have ht : doc.Ends path t := by
      rw [← mem_ends_iff hd hp hs, ← hends]
      exact List.mem_of_getElem? hi
    have hne : t.keys ≠ [] := by simp [Target.keys]
    refine ⟨KeyPath.exists_parse_joined_iff hdelimiter hne hbare, fun q hq => ?_⟩
    exact Read.run_of_spells hd hs ht hget (KeyPath.spells_of_parse hdelimiter hne hbare hq)

theorem ListPaths.read_listed_nested :
    let doc := Value.mapping [("a", .mapping [("x", .number (.integer 1)), ("y", .null)]),
      ("b", .boolean true)]
    ∃ path, KeyPath.parse "*.x" "." = .ok path ∧ doc.Distinct ∧ path.delimiter ≠ "" ∧
      (Read.visitor.run true path doc {}).result.isOk ∧
      (visitor.run true path doc {}).state.paths = ["a.x", "b"] ∧
      (∀ k ∈ ["a", "x"], KeyPath.IsBare path.delimiter k) ∧
      (∃ q, KeyPath.parse "a.x" path.delimiter = .ok q) ∧
      ∀ q, KeyPath.parse "a.x" path.delimiter = .ok q →
        (Read.visitor.run true q doc {}).state.values = [.number (.integer 1)] := by
  intro doc
  obtain ⟨path, hpath, hdelimiter, hread, hends, hvalues, hpaths⟩ := KeyPath.exists_parse "*.x" "."
    (fun p => p.delimiter = "." ∧ (Read.visitor.run true p doc {}).result.isOk ∧
      (Visitor.record.run true p doc []).state = [⟨[.key "a"], "x"⟩, ⟨[], "b"⟩] ∧
      (Read.visitor.run true p doc {}).state.values = [.number (.integer 1), .boolean true] ∧
      (visitor.run true p doc {}).state.paths = ["a.x", "b"]) (by decide +kernel)
  have hd : doc.Distinct := by decide
  have hne : path.delimiter ≠ "" := by rw [hdelimiter]; decide
  have hbare : ∀ k ∈ ["a", "x"], KeyPath.IsBare path.delimiter k := by
    rw [hdelimiter]
    decide
  have hseq : doc.HasNoSequence := by
    simp [doc, Value.HasNoSequence, Value.Each, Value.EachEntry, Value.isSequence]
  obtain ⟨-, -, -, -, hall⟩ := read_listed hd hne hread
  obtain ⟨hparse, hagain⟩ := hall 0 ⟨[.key "a"], "x"⟩ (.number (.integer 1)) "a.x"
    (by rw [hends]; rfl) (by rw [hvalues]; rfl) (by rw [hpaths]; rfl) hbare
  exact ⟨path, hpath, hd, hne, hread, hpaths, hbare, hparse.2 (by decide),
    fun q hq => (hagain q hq).2.2 hseq⟩

/-- A bare key that takes too much room is listed, but it is no path. -/
theorem ListPaths.listed_of_long {k : String} (hk : KeyPath.IsBare "." k)
    (hlong : Segment.longestPlain < k.utf8ByteSize) :
    let doc := Value.mapping [(k, .null)]
    ∃ path, KeyPath.parse "*" "." = .ok path ∧ doc.Distinct ∧ KeyPath.IsBare "." k ∧ ∀ strict,
      (Visitor.record.run strict path doc []).state = [⟨.root, k⟩] ∧
      (Read.visitor.run strict path doc {}).result = .ok true ∧
      (visitor.run strict path doc {}).result = .ok true ∧
      (Read.visitor.run strict path doc {}).state.values = [.null] ∧
      (visitor.run strict path doc {}).state.paths = [k] ∧
      ¬∃ q, KeyPath.parse k "." = .ok q := by
  intro doc
  obtain ⟨path, hpath, hp, hlast, hmatch⟩ :=
    KeyPath.exists_parse_star (by decide : "." ≠ "") (by decide)
  have hline : path.isMatch k = true := by
    rw [hmatch, Bool.not_eq_true', ← Bool.not_eq_true, List.contains_iff_mem]
    exact fun hmem => (hk.chars _ hmem).1 (by decide)
  have hmatching : path.matching [(k, .null)] = [(k, .null)] := by
    simp [KeyPath.matching, hline]
  have hparse : ¬∃ q, KeyPath.parse k "." = .ok q := by
    have h := KeyPath.exists_parse_joined_iff (by decide : "." ≠ "") (List.cons_ne_nil k [])
      (by simpa using hk)
    rw [show Text.joined "." [k] = k from String.ofList_toList] at h
    rw [h]
    simpa using hlong
  have hd : doc.Distinct := by
    simp [doc, Value.Distinct, Value.DistinctEntries, Entries.Distinct, Entries.keys]
  refine ⟨path, hpath, hd, hk, fun strict => ?_⟩
  have hread := Read.run_last strict [(k, .null)] hp hlast
  have hlist := run_last strict [(k, .null)] hp hlast
  rw [hmatching] at hread hlist
  rw [Visitor.state_run_record (Walk.stop_walk_last hlast) hp, Walk.ends_last hlast, hmatching,
    hread, hlist]
  simp [hline, Entries.values, Entries.keys, hparse]

/-- A key of 110000 characters of four bytes each is listed, but it is no path. -/
theorem ListPaths.not_read_listed :
    let k := String.ofList (List.replicate 110000 '😀')
    let doc := Value.mapping [(k, .null)]
    ∃ path, KeyPath.parse "*" "." = .ok path ∧ doc.Distinct ∧ KeyPath.IsBare "." k ∧ ∀ strict,
      (Visitor.record.run strict path doc []).state = [⟨.root, k⟩] ∧
      (Read.visitor.run strict path doc {}).result = .ok true ∧
      (visitor.run strict path doc {}).result = .ok true ∧
      (Read.visitor.run strict path doc {}).state.values = [.null] ∧
      (visitor.run strict path doc {}).state.paths = [k] ∧
      ¬∃ q, KeyPath.parse k "." = .ok q := by
  intro k
  have hchars : ∀ c ∈ k.toList, c = '😀' := by
    rw [String.toList_ofList]
    exact fun c hc => List.eq_of_mem_replicate hc
  have hlong : Segment.longestPlain < k.utf8ByteSize := by
    rw [Text.utf8ByteSize_replicate]
    decide
  have hk : KeyPath.IsBare "." k := by
    refine ⟨?_, fun c hc => ?_⟩
    · rintro h
      rw [h] at hlong
      exact absurd hlong (by decide)
    · rw [hchars c hc]
      decide
  exact listed_of_long hk hlong

end YamlQuery

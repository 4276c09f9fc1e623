import YamlQuery.Proofs.Edit.Deletion
import YamlQuery.Proofs.Edit.Growth

/-!
# Proofs.Edit.Revisit — a path through the document that was changed along it

`Value.Edits` are changes along a path: new values at the entries that the path leads to, and one
more branch in some of the barren mappings, with keys that match the rest of the path.

The path leads through the changed document, too, and to the same entries and the tips of the new
branches (`Value.Edits.ends_apply_iff`).  For that, nothing may go on below a new value: it is a
scalar, or the path is used up there.  So what is read along the path afterwards is the new value, as
often as it was put in (`Value.Edits.run_read`).
-/

namespace YamlQuery

/-! ### Branches -/

namespace Target

/-- The last entry of a branch of keys below an address. -/
def tip (a : Address) : String → List String → Target
  | k, [] => ⟨a, k⟩
  | k, l :: ls => tip (a.child (.key k)) l ls

theorem address_tip : ∀ (a : Address) (k : String) (ks : List String),
    (tip a k ks).address = a ++ (k :: ks).map .key
  | _, _, [] => rfl
  | a, k, l :: ls => by
    rw [tip, address_tip]
    simp [Address.child]

theorem keys_tip : ∀ (a : Address) (k : String) (ks : List String),
    (tip a k ks).keys = Address.keys a ++ k :: ks
  | _, _, [] => rfl
  | a, k, l :: ls => by
    rw [tip, keys_tip, Address.child, Address.keys_append]
    simp [Address.keys]

theorem sparse_parent_tip : ∀ {a : Address} (k : String) (ks : List String), a.Sparse →
    (tip a k ks).parent.Sparse
  | _, _, [], h => h
  | _, k, l :: ls, h => sparse_parent_tip l ls (h.child_key k)

/-- The address of an entry ends with a key. -/
theorem keys_ne_nil {t : Target} {a b : Address} (h : t.address = a ++ b) (hb : b ≠ []) :
    Address.keys b ≠ [] := by
  obtain ⟨c, s, rfl⟩ := (List.eq_nil_or_concat' b).resolve_left hb
  rw [← List.append_assoc] at h
  obtain ⟨-, hlast⟩ := List.append_inj' h rfl
  obtain rfl : Step.key t.key = s := by simpa using hlast
  simp [Address.keys_append]

end Target

namespace Value

variable {doc data v : Value} {path : KeyPath} {strict : Bool} {a b : Address}

theorem get?_nest : ∀ ks : List String, (Insert.nest data ks).get? (ks.map .key) = some data
  | [] => get?_root data
  | k :: ks => by
    rw [Insert.nest, List.map_cons, get?_cons]
    simpa [child?, Entries.get?] using get?_nest ks

/-- In a branch there are the mappings of its keys, and what lies below the last key. -/
theorem of_get?_nest : ∀ {ks : List String} {a : Address}, (Insert.nest data ks).get? a = some v →
    (∃ b, a = ks.map .key ++ b ∧ data.get? b = some v) ∨
      v.isMapping ∧ (Address.keys a).length < ks.length
  | [], a, h => .inl ⟨a, rfl, h⟩
  | k :: ks, [], h => by
    obtain rfl := Option.some.inj ((get?_root _).symm.trans h)
    exact .inr ⟨rfl, Nat.succ_pos _⟩
  | k :: ks, s :: a, h => by
    rw [Insert.nest, get?_cons] at h
    obtain ⟨c, hc, h⟩ := Option.bind_eq_some_iff.1 h
    obtain ⟨es, l, hes, rfl, hl⟩ | ⟨_, _, hes, -, -⟩ := child?_eq_some_iff.1 hc
    · cases hes
      obtain ⟨rfl, rfl⟩ : k = l ∧ Insert.nest data ks = c := by
        by_cases hkl : k = l <;> simp_all [Entries.get?]
      rcases of_get?_nest h with ⟨b, rfl, hb⟩ | ⟨hm, hlt⟩
      · exact .inl ⟨b, rfl, hb⟩
      · exact .inr ⟨hm, Nat.succ_lt_succ hlt⟩
    · cases hes

theorem Distinct.nest (h : data.Distinct) : ∀ ks : List String, (Insert.nest data ks).Distinct
  | [] => h
  | _ :: ks => ⟨List.nodup_singleton _, Distinct.nest h ks, trivial⟩

/-! ### Changes along a path -/

/-- Changes along a path: at all entries that it leads to, and at some barren mappings, where the
branch of some more keys uses up the path. -/
structure Edits (doc : Value) (path : KeyPath) where
  ends : List Target
  sites : List Address
  key : String
  keys : List String
  mem_ends : ∀ t, t ∈ ends ↔ doc.Ends path t
  apart : ends.Pairwise fun t u => t.address.Apart u.address
  barren : ∀ a ∈ sites, doc.Barren path a
  nodup : sites.Nodup
  along : ∀ a ∈ sites, path.Along (Address.keys a ++ key :: keys)
  whole : ∀ a ∈ sites, (Address.keys a ++ key :: keys).length = path.remaining.length

namespace Edits

variable (E : doc.Edits path) {t : Target}

/-- The branch: its first key, and what lies below. -/
def branch (data : Value) : String × Value := (E.key, Insert.nest data E.keys)

/-- The document with the new values and branches. -/
def apply (data : Value) : Value := doc.modifyAll (changes data E.ends (E.branch data) E.sites)

/-- The entries that have the new value, the tips of the branches behind the others. -/
def edited : List Target := E.ends ++ E.sites.map fun a => .tip a E.key E.keys

theorem tip_mem_edited (ha : a ∈ E.sites) : .tip a E.key E.keys ∈ E.edited :=
  List.mem_append_right _ (List.mem_map_of_mem ha)

theorem pairwise_apart_changes (data : Value) :
    (changes data E.ends (E.branch data) E.sites).Pairwise fun c d => c.1.Apart d.1 := by
  rw [changes, List.pairwise_append, List.pairwise_map, List.pairwise_map]
  refine ⟨E.apart, DeadEnd.pairwise_apart E.nodup fun a ha => .inl (E.barren a ha), ?_⟩
  intro _ hc _ hd
  obtain ⟨t, ht, rfl⟩ := List.mem_map.1 hc
  obtain ⟨a, ha, rfl⟩ := List.mem_map.1 hd
  exact ((E.mem_ends t).1 ht).apart_deadEnd (.inl (E.barren a ha))

/-- The branch starts with a key that is not there yet. -/
theorem exists_mapping (ha : a ∈ E.sites) :
    ∃ es, doc.get? a = some (.mapping es) ∧ E.key ∉ Entries.keys es ∧
      ∀ k ∈ Entries.keys es, (path.skip (Address.keys a).length).isMatch k = false := by
  obtain ⟨es, hv, hbarren⟩ := E.barren a ha
  refine ⟨es, hv.node, fun hk => ?_, hbarren⟩
  have hmatch := (KeyPath.along_cons.1 (KeyPath.along_append.1 (E.along a ha)).2).1
  rw [hbarren _ hk] at hmatch
  cases hmatch

theorem get?_apply_site (ha : a ∈ E.sites) {es : Entries Value}
    (hes : doc.get? a = some (.mapping es)) (hkey : E.key ∉ Entries.keys es) :
    (E.apply data).get? a =
      some (.mapping (Entries.put E.key (Insert.nest data E.keys) es)) := by
  have hmem : (a, grow (E.branch data)) ∈ changes data E.ends (E.branch data) E.sites :=
    List.mem_append_right _ (List.mem_map_of_mem ha)
  rw [apply, get?_modifyAll_of_mem (E.pairwise_apart_changes data) _ hmem, hes,
    Entries.put_of_not_mem hkey]
  rfl

/-- All the entries have the new value. -/
theorem get?_apply_edited (ht : t ∈ E.edited) : (E.apply data).get? t.address = some data := by
  rcases List.mem_append.1 ht with ht | ht
  · have hmem : (t.address, fun _ => data) ∈ changes data E.ends (E.branch data) E.sites :=
      List.mem_append_left _ (List.mem_map_of_mem ht)
    obtain ⟨v, hv⟩ := ((E.mem_ends t).1 ht).exists_get?
    rw [apply, get?_modifyAll_of_mem (E.pairwise_apart_changes data) _ hmem, hv]
    rfl
  · obtain ⟨a, ha, rfl⟩ := List.mem_map.1 ht
    obtain ⟨es, hes, hkey, -⟩ := E.exists_mapping ha
    rw [Target.address_tip, get?_append, E.get?_apply_site ha hes hkey, List.map_cons,
      Option.bind_some, get?_cons, child?, Entries.get?_put_self]
    exact get?_nest E.keys

theorem distinct_apply (hd : doc.Distinct) (hdata : data.Distinct) :
    (E.apply data).Distinct := by
  refine Distinct.modifyAll hd (E.pairwise_apart_changes data) fun c hc u hu => ?_
  rcases List.mem_append.1 hc with hc | hc
  · obtain ⟨t, -, rfl⟩ := List.mem_map.1 hc
    exact hdata
  · obtain ⟨a, ha, rfl⟩ := List.mem_map.1 hc
    obtain ⟨es, hes, hkey, -⟩ := E.exists_mapping ha
    obtain rfl := Option.some.inj (hes.symm.trans hu)
    have hgrow : grow (E.branch data) (.mapping es) =
        (mapping es).setChild (.key E.key) (Insert.nest data E.keys) :=
      congrArg mapping (Entries.put_of_not_mem hkey _).symm
    show (grow (E.branch data) (.mapping es)).Distinct
    rw [hgrow]
    exact (hd.get? hu).setChild (hdata.nest E.keys)

/-- What is at an address along the path: the new value or a part of it, a mapping from which the
path leads on, or what was there before, with the outline that it had. -/
theorem of_get?_apply (h : (E.apply data).get? b = some v) (hal : path.Along (Address.keys b)) :
    (∃ t ∈ E.edited, ∃ c, b = t.address ++ c ∧ data.get? c = some v) ∨
      (v.isMapping ∧ (Address.keys b).length < path.remaining.length) ∨
      ∃ u, doc.get? b = some u ∧ u.outline = v.outline := by
  by_cases hend : ∃ t ∈ E.ends, t.address <+: b
  · obtain ⟨t, ht, c, rfl⟩ := hend
    have ht := List.mem_append_left (E.sites.map fun a => .tip a E.key E.keys) ht
    rw [get?_append, E.get?_apply_edited ht] at h
    exact .inl ⟨t, ht, c, rfl, h⟩
  by_cases hsite : ∃ a ∈ E.sites, a <+: b
  · obtain ⟨a, ha, c, rfl⟩ := hsite
    obtain ⟨es, hes, hkey, hbarren⟩ := E.exists_mapping ha
    have hwhole := E.whole a ha
    rw [List.length_append, List.length_cons] at hwhole
    rw [get?_append, E.get?_apply_site ha hes hkey, Option.bind_some] at h
    cases c with
    | nil =>
      obtain rfl := Option.some.inj ((get?_root _).symm.trans h)
      exact .inr (.inl ⟨rfl, by rw [List.append_nil]; omega⟩)
    | cons s c =>
      -- of the keys of the mapping only the new one matches
      rw [get?_cons] at h
      obtain ⟨d, hd, h⟩ := Option.bind_eq_some_iff.1 h
      obtain ⟨fs, k, hfs, rfl, hk⟩ | ⟨_, _, hfs, -, -⟩ := child?_eq_some_iff.1 hd
      · cases hfs
        rw [Address.keys_append] at hal ⊢
        have hmatch := (KeyPath.along_cons.1 (KeyPath.along_append.1 hal).2).1
        have hnotmem : k ∉ Entries.keys es := by
          intro hmem
          rw [hbarren k hmem] at hmatch
          cases hmatch
        rw [Entries.get?_put] at hk
        by_cases hkk : k = E.key
        · subst hkk
          rw [if_pos rfl] at hk
          cases hk
          rcases of_get?_nest h with ⟨e, rfl, he⟩ | ⟨hm, hlt⟩
          · refine .inl ⟨.tip a E.key E.keys, ?_, e, ?_, he⟩
            · exact E.tip_mem_edited ha
            · simp [Target.address_tip]
          · refine .inr (.inl ⟨hm, ?_⟩)
            rw [List.length_append, Address.keys_key, List.length_cons]
            omega
        · rw [if_neg hkk, (Entries.get?_eq_none_iff k es).2 hnotmem] at hk
          cases hk
      · cases hfs
  · have hprefix : ∀ c ∈ changes data E.ends (E.branch data) E.sites, ¬ c.1 <+: b := by
      intro c hc hcb
      rcases List.mem_append.1 hc with hc | hc
      · obtain ⟨t, ht, rfl⟩ := List.mem_map.1 hc
        exact hend ⟨t, ht, hcb⟩
      · obtain ⟨a, ha, rfl⟩ := List.mem_map.1 hc
        exact hsite ⟨a, ha, hcb⟩
    have houtline := outline_get?_modifyAll hprefix (v := doc)
    rw [← apply, h] at houtline
    obtain ⟨u, hu, houtline⟩ := Option.map_eq_some_iff.1 houtline.symm
    exact .inr (.inr ⟨u, hu, houtline⟩)

/-! ### Where the path leads afterwards -/

section Settled

variable (hlast : data.isScalar ∨ ∀ t, doc.Ends path t → t.keys.length = path.remaining.length)

include hlast

/-- Nothing goes on below a new value. -/
theorem whole_or_scalar (ht : t ∈ E.edited) :
    t.keys.length = path.remaining.length ∨ data.isScalar := by
  rcases List.mem_append.1 ht with ht | ht
  · exact (hlast.imp_right fun h => h t ((E.mem_ends t).1 ht)).symm
  · obtain ⟨a, ha, rfl⟩ := List.mem_map.1 ht
    exact .inl (Target.keys_tip a E.key E.keys ▸ E.whole a ha)

/-- No key comes behind a new value. -/
theorem nil_or_whole (ht : t ∈ E.edited) (hal : path.Along (Address.keys (t.address ++ b)))
    (hv : data.get? b = some v) :
    b = [] ∨ t.keys.length = path.remaining.length ∧ Address.keys b = [] := by
  rcases E.whole_or_scalar hlast ht with hwhole | hscalar
  · have hle := hal.length_le
    rw [Address.keys_append, t.keys_address, List.length_append] at hle
    exact .inr ⟨hwhole, List.length_eq_zero_iff.1 (by omega)⟩
  · exact .inl (eq_nil_of_isScalar hscalar hv)

/-- **Through the changed document** the path leads to the entries that have the new value, and to
no others. -/
theorem ends_apply_iff : (E.apply data).Ends path t ↔ t ∈ E.edited := by
  rw [ends_iff]
  constructor
  · rintro ⟨hsparse, hal, v, hv, hv'⟩
    rw [← t.keys_address] at hal
    rcases E.of_get?_apply hv hal with ⟨u, hu, c, hc, hdata⟩ | ⟨hmapping, hlt⟩ | ⟨w, hw, houtline⟩
    · -- the entry is one with the new value, since its address ends with a key
      have hnil : c = [] := by
        by_contra hne
        rcases E.nil_or_whole hlast hu (hc ▸ hal) hdata with hnil | ⟨-, hkeys⟩
        · exact hne hnil
        · exact Target.keys_ne_nil hc hne hkeys
      rw [hnil, List.append_nil] at hc
      exact Target.address_inj hc ▸ hu
    · rw [t.keys_address] at hlt
      rcases hv' with hlen | hscalar
      · omega
      · simp [isScalar, isContainer, hmapping] at hscalar
    · refine List.mem_append_left _ ((E.mem_ends t).2 (ends_iff.2 ⟨hsparse, ?_, w, hw, ?_⟩))
      · rwa [t.keys_address] at hal
      · rwa [(kind_of_outline houtline).2]
  · intro ht
    have hget : (E.apply data).get? t.address = some data := E.get?_apply_edited ht
    have hwhole := E.whole_or_scalar hlast ht
    rcases List.mem_append.1 ht with ht | ht
    · have hends := (E.mem_ends t).1 ht
      exact ⟨hends.sparse, hends.along, data, hget, hwhole⟩
    · obtain ⟨a, ha, rfl⟩ := List.mem_map.1 ht
      obtain ⟨es, hv, -⟩ := E.barren a ha
      exact ⟨Target.sparse_parent_tip E.key E.keys hv.sparse,
        Target.keys_tip a E.key E.keys ▸ E.along a ha, data, hget, hwhole⟩

/-- No element comes in the way that was not in the way before. -/
theorem skips_of_apply (h : (E.apply data).Skips path b) : doc.Skips path b := by
  obtain ⟨v, hv, hmapping⟩ := h.node
  obtain ⟨c, i, rfl⟩ := h.element
  rcases E.of_get?_apply hv h.along with ⟨t, ht, d, hd, hdata⟩ | ⟨hm, -⟩ | ⟨w, hw, houtline⟩
  · exfalso
    rcases E.nil_or_whole hlast ht (hd ▸ h.along) hdata with rfl | ⟨hlen, hkeys⟩
    · rw [List.append_nil] at hd
      exact Address.child_key_ne_child_index hd.symm
    · have hmore := h.more
      rw [hd, Address.keys_append, hkeys, List.append_nil, t.keys_address] at hmore
      omega
  · rw [hm] at hmapping
    cases hmapping
  · exact ⟨h.element, ⟨w, hw, (kind_of_outline houtline).1.trans hmapping⟩, h.sparse, h.along,
      h.more⟩

variable (hd : doc.Distinct) (hdata : data.Distinct) (hp : path.hasNext)
  (hs : (doc.walk strict path).stop = none)

include hd hdata hp hs

theorem stop_apply : ((E.apply data).walk strict path).stop = none := by
  cases strict with
  | false => exact Walk.stop_below_lenient
  | true =>
    by_contra hstop
    obtain ⟨a, p, items, i, c, hr, hi, hc, -⟩ := exists_item_of_stop hstop
    have hskips : (E.apply data).Skips path (a.child (.index i)) :=
      (skips_iff (E.distinct_apply hd hdata) hp).2 ⟨a, p, items, i, c, hr, hi, hc, rfl⟩
    exact not_skips_of_strict hd hs (E.skips_of_apply hlast hskips)

omit hlast hd hdata hp hs in
theorem nodup_edited : E.edited.Nodup := by
  refine List.nodup_append.2 ⟨Target.nodup_of_apart E.apart, List.Nodup.map_on ?_ E.nodup, ?_⟩
  · intro a _ b _ hab
    have haddress := congrArg Target.address hab
    rw [Target.address_tip, Target.address_tip] at haddress
    exact List.append_cancel_right haddress
  · rintro t ht _ hu rfl
    obtain ⟨a, ha, rfl⟩ := List.mem_map.1 hu
    have hapart := ((E.mem_ends _).1 ht).apart_deadEnd (.inl (E.barren a ha))
    exact hapart.2 ⟨_, (Target.address_tip a E.key E.keys).symm⟩

/-- The walk through the changed document ends at as many keys as have the new value. -/
theorem length_ends_apply :
    ((E.apply data).walk strict path).ends.length = E.edited.length := by
  have hdistinct := E.distinct_apply hd hdata
  have hstop := E.stop_apply hlast hd hdata hp hs
  have hnodup : ((E.apply data).walk strict path).ends.Nodup :=
    Target.nodup_of_apart (Walk.pairwise_apart_ends hdistinct)
  refine ((List.perm_ext_iff_of_nodup hnodup E.nodup_edited).2 fun t => ?_).length_eq
  rw [mem_ends_iff hdistinct hp hstop, E.ends_apply_iff hlast]

theorem values_apply : ((E.apply data).walk strict path).values =
    List.replicate E.edited.length data := by
  refine List.eq_replicate_iff.2 ⟨?_, fun x hx => ?_⟩
  · rw [Walk.length_values, E.length_ends_apply hlast hd hdata hp hs]
  · obtain ⟨e, he, hvalue⟩ := List.mem_filterMap.1 hx
    cases e with
    | fully site =>
      obtain rfl := Option.some.inj hvalue
      have hdistinct := E.distinct_apply hd hdata
      have hends : (E.apply data).Ends path (.ofSite site) :=
        (mem_ends_iff hdistinct hp (E.stop_apply hlast hd hdata hp hs)).1
          (Walk.mem_ends.2 ⟨site, he, rfl⟩)
      refine Option.some.inj ((get?_of_site hdistinct (.inr he)).symm.trans ?_)
      exact E.get?_apply_edited ((E.ends_apply_iff hlast).1 hends)
    | partly | miss => cases hvalue

/-- **Reading along the path** in the changed document gives the new value, as often as it is
there. -/
theorem run_read : Read.visitor.run strict path (E.apply data) {} =
    ⟨{ values := List.replicate E.edited.length data }, E.apply data,
      .ok (decide (0 < E.edited.length))⟩ := by
  rw [Visitor.run_of_finish Read.accepts_visitor hp (E.stop_apply hlast hd hdata hp hs) rfl,
    Read.noteAll_visitor, Walk.matched_walk, E.length_ends_apply hlast hd hdata hp hs]
  show (⟨{ values := [] ++ ((E.apply data).walk strict path).values }, _, _⟩ :
    Visitor.Outcome Read) = _
  rw [E.values_apply hlast hd hdata hp hs]
  rfl

end Settled

end Edits

end Value

end YamlQuery

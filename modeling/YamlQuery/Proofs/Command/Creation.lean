import YamlQuery.Command.Run
import YamlQuery.Proofs.Document.Planting
import YamlQuery.Proofs.Edit.Extension
import YamlQuery.Proofs.KeyPath.Reassembly
import YamlQuery.Proofs.Walk.Narrower

/-!
# Proofs.Command.Creation — inserting along a path of plain keys

A path of plain keys leads to one entry at most.  As long as only mappings are in the way, an insert
makes one change: it replaces that entry if it is there, and else it creates one branch, in the last
mapping that the keys lead to (`Value.Edits.apply_eq_plant`).  Either way the document is the one with
the new data planted at the end of the keys, so the path leads to the data and nothing else, and a
second insert, which now takes the other of the two ways, leaves the document as it is
(`Command.run_insert_of_passable`).
-/

namespace YamlQuery

/-! ### Paths of plain keys -/

namespace Address

theorem keys_map_key (ks : List String) : Address.keys (ks.map .key) = ks := by
  induction ks with
  | nil => rfl
  | cons k ks ih => rw [List.map_cons, keys_key, ih]

theorem sparse_map_key : ∀ ks : List String, Address.Sparse (ks.map .key)
  | [] => List.IsChain.nil
  | [_] => List.IsChain.singleton _
  | _ :: l :: ks => List.isChain_cons_cons.2 ⟨by simp [Step.isIndex], sparse_map_key (l :: ks)⟩

end Address

namespace KeyPath

variable {text delimiter : String} {path : KeyPath} {ks : List String}

/-- The texts of the segments. -/
def raws (path : KeyPath) : List String := path.segments.map (·.raw)

/-- Every segment stands for its own text and matches nothing else, and none has been used. -/
structure IsLiteral (path : KeyPath) : Prop where
  remaining_eq : path.remaining = path.segments
  ne_nil : path.segments ≠ []
  each : ∀ s ∈ path.segments, s.literal? = some s.raw ∧ ∀ key, s.isMatch key ↔ key = s.raw

theorem isLiteral_of_parse (h : parse text delimiter = .ok path)
    (hplain : ∀ s ∈ path.segments, Segment.IsPlain s.raw.toList) : path.IsLiteral := by
  refine ⟨remaining_of_parse h, fun hnil => ?_, fun s hs => ?_⟩
  · have hraws := (isCut_of_parse h).raws
    rw [hnil] at hraws
    exact Text.splitOn_ne_nil _ _ hraws.symm
  · obtain ⟨raw, hraw⟩ := exists_ofText?_of_parse h s hs
    obtain ⟨rfl, -⟩ := Segment.raw_of_ofText? hraw
    refine ⟨?_, fun key => ?_⟩
    · rw [Segment.literal?, Segment.literalChars?_of_isPlain (hplain s hs), Option.map_some,
        String.ofList_toList]
    · rw [Segment.isMatch_iff_eq hraw (hplain s hs), String.toList_inj]

namespace IsLiteral

variable (h : path.IsLiteral)

include h

theorem hasNext : path.hasNext := by
  rw [hasNext_iff, h.remaining_eq]
  exact h.ne_nil

theorem spells : Spells path.remaining path.raws := by
  rw [h.remaining_eq, Spells, raws, List.forall₂_map_right_iff, List.forall₂_same]
  exact fun s hs => (h.each s hs).2

theorem raws_ne_nil : path.raws ≠ [] := fun hnil => h.ne_nil (List.map_eq_nil_iff.1 hnil)

theorem length_raws : path.raws.length = path.remaining.length := by
  rw [h.remaining_eq, raws, List.length_map]

/-- The keys along the path are the first of its texts. -/
theorem along_iff : path.Along ks ↔ ks <+: path.raws := Spells.along_iff h.spells

theorem isMatch_of_literal? : ∀ s ∈ path.segments, ∀ k, s.literal? = some k → s.isMatch k := by
  intro s hs k hk
  obtain ⟨hraw, hmatch⟩ := h.each s hs
  exact (hmatch k).2 (Option.some.inj (hk.symm.trans hraw))

theorem keys?_drop (n : Nat) : Insert.keys? (path.segments.drop n) ≠ none := by
  have hall : ∀ ss : List Segment, (∀ s ∈ ss, s.literal? = some s.raw) →
      Insert.keys? ss = some (ss.map (·.raw)) := by
    intro ss hss
    induction ss with
    | nil => rfl
    | cons s ss ih =>
      obtain ⟨hs, hss⟩ := List.forall_mem_cons.1 hss
      have ih : ss.mapM (·.literal?) = some (ss.map (·.raw)) := ih hss
      rw [Insert.keys?, List.mapM_cons, hs, ih]
      rfl
  rw [hall _ fun s hs => (h.each s (List.mem_of_mem_drop hs)).1]
  exact Option.some_ne_none _

end IsLiteral

end KeyPath

/-! ### The one change that an insert makes -/

namespace Value

/-- Planting in an empty mapping makes a branch. -/
theorem plant_empty (data : Value) :
    ∀ ks : List String, (mapping []).plant ks data = Insert.nest data ks
  | [] => rfl
  | k :: ks => congrArg (fun v => mapping [(k, v)]) (plant_empty data ks)

variable {doc data u : Value} {path : KeyPath} {strict : Bool} {a : Address} {t : Target}
  (h : path.IsLiteral) (hdoc : doc.Passable path.raws)

include h hdoc

/-- On the way along the path there are only mappings, and no sequence is gone through. -/
theorem Passable.pure_of_along (hu : doc.get? a = some u) (hal : path.Along a.keys)
    (hmore : a.keys.length < path.remaining.length) : a = a.keys.map .key ∧ u.isMapping :=
  hdoc.of_get? hu (h.along_iff.1 hal) (h.length_raws.symm ▸ hmore)

theorem Passable.stop_walk (hd : doc.Distinct) : (doc.walk strict path).stop = none := by
  cases strict with
  | false => exact Walk.stop_below_lenient
  | true =>
    by_contra hstop
    obtain ⟨a, p, items, i, c, hr, -, -, -⟩ := exists_item_of_stop hstop
    obtain ⟨-, hmapping⟩ := hdoc.pure_of_along h (hr.get? hd) hr.along (hr.more h.hasNext)
    cases hmapping

/-- The path leads to no other entry than the one at the end of its keys. -/
theorem Ends.address_of_passable (ht : doc.Ends path t) :
    t.keys.length = path.remaining.length ∧ t.address = path.raws.map .key := by
  obtain ⟨-, hal, v, hv, hlast⟩ := ends_iff.1 ht
  obtain ⟨es, -, hparent, -, -⟩ := ht.entry
  have hwhole : t.keys.length = path.remaining.length := by
    refine hlast.elim id fun hscalar => ?_
    by_contra hne
    have hlt : t.keys.length < path.remaining.length := Nat.lt_of_le_of_ne hal.length_le hne
    rw [← t.keys_address] at hal hlt
    obtain ⟨-, hmapping⟩ := hdoc.pure_of_along h hv hal hlt
    simp [isScalar, isContainer, hmapping] at hscalar
  have hkeys : t.keys = path.raws :=
    (h.along_iff.1 hal).eq_of_length (hwhole.trans h.length_raws.symm)
  have hshort : (Address.keys t.parent).length < path.remaining.length := by
    rw [← hwhole, Target.keys, List.length_append, List.length_singleton]
    exact Nat.lt_succ_self _
  obtain ⟨hpure, -⟩ := hdoc.pure_of_along h hparent (KeyPath.along_append.1 hal).1 hshort
  refine ⟨hwhole, ?_⟩
  rw [← hkeys, Target.keys, List.map_append, ← hpure]
  rfl

namespace Edits

variable (E : doc.Edits path)

theorem address_tip_of_passable (ha : a ∈ E.sites) :
    a = a.keys.map .key ∧ a.keys ++ E.key :: E.keys = path.raws := by
  obtain ⟨es, hv, -⟩ := E.barren a ha
  obtain ⟨hpure, -⟩ := hdoc.pure_of_along h hv.node hv.along hv.more
  exact ⟨hpure, (h.along_iff.1 (E.along a ha)).eq_of_length
    ((E.whole a ha).trans h.length_raws.symm)⟩

theorem address_of_mem_edited (ht : t ∈ E.edited) : t.address = path.raws.map .key := by
  rcases List.mem_append.1 ht with ht | ht
  · exact (((E.mem_ends t).1 ht).address_of_passable h hdoc).2
  · obtain ⟨a, ha, rfl⟩ := List.mem_map.1 ht
    obtain ⟨hpure, hkeys⟩ := address_tip_of_passable h hdoc E ha
    rw [Target.address_tip, ← hkeys, List.map_append, ← hpure]

theorem edited_eq_singleton (ht : t ∈ E.edited) : E.edited = [t] := by
  have hall : ∀ u ∈ E.edited, u = t := fun u hu => Target.address_inj
    ((address_of_mem_edited h hdoc E hu).trans (address_of_mem_edited h hdoc E ht).symm)
  have hreplicate := List.eq_replicate_length.2 hall
  have hnodup := E.nodup_edited
  rw [hreplicate, List.nodup_replicate] at hnodup
  have hlength : E.edited.length = 1 := Nat.le_antisymm hnodup (List.length_pos_of_mem ht)
  rw [hreplicate, hlength]
  rfl

/-- Where there is an entry at the end of the keys, it is replaced. -/
theorem apply_of_mem_ends (ht : t ∈ E.ends) : E.apply data = doc.plant path.raws data := by
  have hmem : t ∈ E.edited := List.mem_append_left _ ht
  have hsingle := edited_eq_singleton h hdoc E hmem
  obtain ⟨hends, -⟩ | ⟨hends, hsites⟩ := List.append_eq_singleton_iff.1 hsingle
  · rw [hends] at ht
    cases ht
  · obtain ⟨v, hv⟩ := ((E.mem_ends t).1 ht).exists_get?
    have hchange : doc.modify? (fun _ => data) (path.raws.map .key) =
        some (doc.plant (path.raws ++ []) data) :=
      modify?_eq_plant (address_of_mem_edited h hdoc E hmem ▸ hv) rfl
    rw [apply, changes, hends, List.map_eq_nil_iff.1 hsites, List.map_nil, List.append_nil,
      List.map_singleton, modifyAll_cons, address_of_mem_edited h hdoc E hmem, hchange,
      List.append_nil]
    rfl

/-- Where a branch is created, it is the only one, and it is made of the keys that are missing. -/
theorem apply_of_mem_sites (ha : a ∈ E.sites) : E.apply data = doc.plant path.raws data := by
  obtain ⟨hpure, hkeys⟩ := address_tip_of_passable h hdoc E ha
  obtain ⟨es, hes, hkey, -⟩ := E.exists_mapping ha
  have hsingle := edited_eq_singleton h hdoc E (E.tip_mem_edited ha)
  obtain ⟨hends, hsites⟩ | ⟨-, hsites⟩ := List.append_eq_singleton_iff.1 hsingle
  · have hsite : E.sites = [a] := by
      obtain ⟨b, hb, -⟩ := List.map_eq_singleton_iff.1 hsites
      rw [hb] at ha ⊢
      rw [List.mem_singleton.1 ha]
    have hbranch : grow (E.branch data) (.mapping es) = (mapping es).plant (E.key :: E.keys) data := by
      have hnone : (mapping es).childOr E.key = .mapping [] := by
        rw [childOr, child?, (Entries.get?_eq_none_iff _ _).2 hkey, Option.getD_none]
      rw [plant, hnone, plant_empty]
      exact congrArg mapping (Entries.put_of_not_mem hkey _).symm
    have hchange := modify?_eq_plant (hpure ▸ hes) hbranch
    rw [apply, changes, hends, hsite, List.map_nil, List.nil_append, List.map_singleton,
      modifyAll_cons, hpure, hchange, hkeys]
    rfl
  · rw [List.map_eq_nil_iff.1 hsites] at ha
    cases ha

omit hdoc in
/-- A mapping along the path without the next key matches nothing. -/
theorem barren_of_not_mem {ks ls : List String} {k : String} {es : Entries Value}
    (hraws : path.raws = ks ++ k :: ls) (hes : doc.get? (ks.map .key) = some (.mapping es))
    (hk : k ∉ Entries.keys es) : doc.Barren path (ks.map .key) := by
  have hstart : path.Along ks := h.along_iff.2 (hraws ▸ List.prefix_append ks _)
  have hkeys : Address.keys (ks.map .key) = ks := Address.keys_map_key ks
  have hvisits : doc.Visits path (ks.map .key) es := by
    refine ⟨hes, Address.sparse_map_key ks, ?_, ?_⟩
    · rw [hkeys]
      exact hstart
    · rw [hkeys, ← h.length_raws, hraws, List.length_append, List.length_cons]
      omega
  refine ⟨es, hvisits, fun l hl => ?_⟩
  rw [hkeys]
  by_contra hmatch
  rw [Bool.not_eq_false] at hmatch
  have hal : path.Along (ks ++ [l]) :=
    KeyPath.along_append.2 ⟨hstart, KeyPath.along_cons.2 ⟨hmatch, KeyPath.along_nil⟩⟩
  have hnext := h.along_iff.1 hal
  rw [hraws, List.prefix_append_right_inj, List.cons_prefix_cons] at hnext
  exact hk (hnext.1 ▸ hl)

/-- The mapping at which the keys stop leading on. -/
theorem exists_createsAt (hnone : doc.get? (path.raws.map .key) = none) :
    ∃ a, Insert.CreatesAt ∅ doc path a := by
  obtain ⟨ks, k, ls, es, hraws, hes, hk⟩ := hdoc.exists_break hnone
  have hbarren := barren_of_not_mem h hraws hes hk
  refine ⟨ks.map .key, hbarren, Set.notMem_empty _, h.keys?_drop _, fun b hb _ => ?_⟩
  -- another dead end further on would lie below this one
  by_contra hlt
  obtain ⟨v, hv⟩ := hb.exists_get?
  obtain ⟨hpure, -⟩ := hdoc.pure_of_along h hv hb.along hb.more
  rw [Address.keys_map_key] at hlt
  have hbelow : ks <+: Address.keys b := by
    refine List.prefix_of_prefix_length_le ?_ (h.along_iff.1 hb.along) (by omega)
    rw [hraws]
    exact List.prefix_append ks _
  have heq : ks.map .key = b := by
    refine hbarren.eq_of_prefix hb.along hv ?_
    rw [hpure]
    exact hbelow.map Step.key
  rw [← heq, Address.keys_map_key] at hlt
  exact hlt (Nat.le_refl _)

omit hdoc in
/-- The entry at the end of the keys is one that the path leads to. -/
theorem exists_ends {v : Value} (hv : doc.get? (path.raws.map .key) = some v) :
    ∃ t, doc.Ends path t := by
  obtain ⟨ks, k, hraws⟩ := (List.eq_nil_or_concat' path.raws).resolve_left h.raws_ne_nil
  have hkeys : (Target.mk (ks.map .key) k).keys = path.raws := by
    rw [Target.keys, Address.keys_map_key, hraws]
  have haddress : (Target.mk (ks.map .key) k).address = path.raws.map .key := by
    rw [hraws, List.map_append]
    rfl
  refine ⟨⟨ks.map .key, k⟩, ends_iff.2 ⟨Address.sparse_map_key ks, ?_, v, ?_, .inl ?_⟩⟩
  · rw [hkeys]
    exact h.along_iff.2 List.prefix_rfl
  · rw [haddress]
    exact hv
  · rw [hkeys]
    exact h.length_raws

/-- **An insert plants.**  What it makes of the document is the document with the data planted at the
end of the keys, and one entry has been changed or created. -/
theorem apply_eq_plant (hsites : ∀ a, a ∈ E.sites ↔ Insert.CreatesAt ∅ doc path a) (data : Value) :
    E.apply data = doc.plant path.raws data ∧ E.edited.length = 1 := by
  cases hv : doc.get? (path.raws.map .key) with
  | some v =>
    obtain ⟨t, ht⟩ := exists_ends h hv
    have ht := (E.mem_ends t).2 ht
    have hsingle := edited_eq_singleton h hdoc E (List.mem_append_left _ ht)
    exact ⟨apply_of_mem_ends h hdoc E ht, by rw [hsingle]; rfl⟩
  | none =>
    obtain ⟨a, ha⟩ := exists_createsAt h hdoc hv
    have ha := (hsites a).2 ha
    have hsingle := edited_eq_singleton h hdoc E (E.tip_mem_edited ha)
    exact ⟨apply_of_mem_sites h hdoc E ha, by rw [hsingle]; rfl⟩

end Edits

end Value

/-! ### The commands -/

namespace Insert

variable {doc data : Value} {path : KeyPath}

/-- A run along a path of plain keys, and a reading run behind it. -/
theorem run_of_passable (h : path.IsLiteral) (hdoc : doc.Passable path.raws) (hd : doc.Distinct)
    (hdata : data.Distinct) (strict : Bool) :
    let out := doc.plant path.raws data
    let run := visitor.run strict path doc { data }
    run.doc = out ∧ (∃ b, run.result = .ok b) ∧
      Read.visitor.run strict path out {} = ⟨{ values := [data] }, out, .ok true⟩ := by
  intro out run
  have hs : (doc.walk strict path).stop = none := hdoc.stop_walk h hd
  obtain ⟨E, hsites, -, hrun, -, -, hresult⟩ :=
    exists_edits_at_of_run data hd h.hasNext hs h.isMatch_of_literal?
  obtain ⟨happly, hlength⟩ := E.apply_eq_plant h hdoc hsites data
  have hread := E.run_read (.inr fun t ht => (ht.address_of_passable h hdoc).1) hd hdata h.hasNext hs
  rw [hlength, happly] at hread
  exact ⟨hrun.trans happly, ⟨_, hresult⟩, hread⟩

end Insert

namespace Command

variable {settings : Settings} {path : KeyPath} {doc v data : Value} {a : Address}

theorem keyPath_eq_ok_iff {p : PathText} : keyPath settings p = .ok path ↔
    KeyPath.parse p.text (p.delimiter.getD settings.delimiter) = .ok path := by
  rw [keyPath]
  cases KeyPath.parse p.text (p.delimiter.getD settings.delimiter) <;> simp

theorem visited_of_result {σ : Type} {visitor : Visitor σ} {s : σ} {b : Bool}
    (h : (visitor.run settings.strictSequences path doc s).result = .ok b) :
    visited visitor settings path doc s =
      .ok ((visitor.run settings.strictSequences path doc s).state,
        (visitor.run settings.strictSequences path doc s).doc) := by
  rw [visited]
  generalize visitor.run settings.strictSequences path doc s = run at h ⊢
  obtain ⟨state, out, result⟩ := run
  cases h
  rfl

theorem insertable_of_isMapping (h : v.isMapping) : insertable v = v := by
  cases v with
  | mapping es => rfl
  | _ => cases h

/-- Below the root there is the same to insert into as there was before. -/
theorem get?_insertable (doc : Value) (ha : a ≠ []) : (insertable doc).get? a = doc.get? a := by
  cases doc with
  | null =>
    obtain ⟨s, a, rfl⟩ := List.exists_cons_of_ne_nil ha
    cases s <;> rfl
  | _ => rfl

theorem get?_insertable_of_mapping {es : Entries Value} (h : doc.get? a = some (.mapping es)) :
    (insertable doc).get? a = some (.mapping es) := by
  by_cases ha : a = []
  · rw [ha, Value.get?_root] at h ⊢
    rw [Option.some.inj h]
    rfl
  · rw [get?_insertable doc ha, h]

theorem distinct_insertable (h : doc.Distinct) : (insertable doc).Distinct := by
  cases doc with
  | null => exact ⟨List.nodup_nil, trivial⟩
  | _ => exact h

variable {inherited : Lookup} {session : Session} {fs : Files} {p : PathText} {text : String}

theorem run_insert (hpath : keyPath session.settings p = .ok path)
    (hdata : Command.data fs session.memory text = .ok data) {b : Bool}
    (h : (Insert.visitor.run session.settings.strictSequences path (insertable doc)
      { data }).result = .ok b) :
    run inherited session fs doc (.insert p text) =
      .ok (Insert.visitor.run session.settings.strictSequences path (insertable doc) { data }).doc := by
  rw [run, hpath, hdata]
  show (visited Insert.visitor session.settings path (insertable doc) { data } >>= _) = _
  rw [visited_of_result h]
  rfl

theorem run_read (hpath : keyPath session.settings p = .ok path) {b : Bool}
    (h : (Read.visitor.run session.settings.strictSequences path doc {}).result = .ok b) :
    run inherited session fs doc (.read p) =
      .ok (.sequence (Read.visitor.run session.settings.strictSequences path doc {}).state.values) := by
  rw [run, hpath]
  show (visited Read.visitor session.settings path doc {} >>= _) = _
  rw [visited_of_result h]
  rfl

theorem run_insert_eq_plant (h : path.IsLiteral) (hdoc : (insertable doc).Passable path.raws)
    (hd : doc.Distinct) (hdistinct : data.Distinct)
    (hpath : keyPath session.settings p = .ok path)
    (hdata : Command.data fs session.memory text = .ok data) :
    run inherited session fs doc (.insert p text) = .ok ((insertable doc).plant path.raws data) := by
  have hrun := Insert.run_of_passable h hdoc (distinct_insertable hd) hdistinct
  obtain ⟨hout, ⟨b, hresult⟩, -⟩ := hrun session.settings.strictSequences
  rw [run_insert hpath hdata hresult, hout]

/-- **An insert makes what is missing.**  Along a path of plain keys through nothing but mappings, or
from nothing, an insert succeeds.  The keys lead to the data, and reading along the path gives the
data alone; all keys of the document are where they were, but for those below a value that the data
has taken the place of, and off the way nothing is different.  The same insert once more changes
nothing. -/
theorem run_insert_of_passable (inherited : Lookup) (session : Session) (fs : Files)
    {doc data : Value} {p : PathText} {path : KeyPath} {text : String}
    (hd : doc.Distinct) (hdistinct : data.Distinct)
    (hpath : keyPath session.settings p = .ok path)
    (hplain : ∀ s ∈ path.segments, Segment.IsPlain s.raw.toList)
    (hdata : Command.data fs session.memory text = .ok data)
    (hdoc : (insertable doc).Passable path.raws) :
    let tip : Address := path.raws.map .key
    let out := (insertable doc).plant path.raws data
    run inherited session fs doc (.insert p text) = .ok out ∧
    out.get? tip = some data ∧
    run inherited session fs out (.read p) = .ok (.sequence [data]) ∧
    (∀ a es, doc.get? a = some (.mapping es) → ¬ tip <+: a →
      ∃ fs, out.get? a = some (.mapping fs) ∧ Entries.keys es <+: Entries.keys fs) ∧
    (∀ a, Address.Apart a tip → out.get? a = doc.get? a) ∧
    run inherited session fs out (.insert p text) = .ok out := by
  intro tip out
  have h : path.IsLiteral := KeyPath.isLiteral_of_parse (keyPath_eq_ok_iff.1 hpath) hplain
  have hout : out.Passable path.raws := hdoc.plant
  have hsame : insertable out = out := insertable_of_isMapping (hout.isMapping h.raws_ne_nil)
  have hod : out.Distinct := Value.Distinct.plant hdistinct (distinct_insertable hd)
  refine ⟨?_, Value.get?_plant hdoc, ?_, fun a es hes ha => ?_, fun a ha => ?_, ?_⟩
  · exact run_insert_eq_plant h hdoc hd hdistinct hpath hdata
  · have hrun := Insert.run_of_passable h hdoc (distinct_insertable hd) hdistinct
    obtain ⟨-, -, hread⟩ := hrun session.settings.strictSequences
    rw [run_read hpath (congrArg Visitor.Outcome.result hread), hread]
  · exact Value.exists_keys_plant (get?_insertable_of_mapping hes) ha
  · have hne : a ≠ [] := fun hnil => ha.1 (hnil ▸ List.nil_prefix)
    rw [Value.get?_plant_of_apart hdoc ha, get?_insertable doc hne]
  · -- the keys lead to the data now, so this insert replaces it
    rw [run_insert_eq_plant h (hsame.symm ▸ hout) hod hdistinct hpath hdata, hsame,
      Value.plant_plant hdoc]

/-- Below a mapping with another key and through a key that is not there, next to a scalar and a
sequence. -/
theorem run_insert_of_passable_siblings :
    let data := Value.sequence [.mapping [("n", .null)]]
    let session : Session := { memory := [("d", data)] }
    let doc := Value.mapping [("a", .mapping [("x", .boolean true)]),
      ("b", .sequence [.null, .mapping [("c", .null)]]), ("c", .null)]
    let out := Value.mapping [("a", .mapping [("x", .boolean true), ("c", .mapping [("d", data)])]),
      ("b", .sequence [.null, .mapping [("c", .null)]]), ("c", .null)]
    ∃ path, keyPath session.settings ⟨"a.c.d", none⟩ = .ok path ∧ doc.Distinct ∧ data.Distinct ∧
      (∀ s ∈ path.segments, Segment.IsPlain s.raw.toList) ∧
      Command.data {} session.memory "!d" = .ok data ∧
      (insertable doc).Passable path.raws ∧
      run (fun _ => none) session {} doc (.insert ⟨"a.c.d", none⟩ "!d") = .ok out ∧
      run (fun _ => none) session {} out (.read ⟨"a.c.d", none⟩) = .ok (.sequence [data]) ∧
      run (fun _ => none) session {} out (.insert ⟨"a.c.d", none⟩ "!d") = .ok out := by
  intro data session doc out
  obtain ⟨path, hparse, hraws⟩ := KeyPath.exists_parse "a.c.d" "."
    (fun p => p.raws = ["a", "c", "d"]) (by decide +kernel)
  have hbare : ∀ k ∈ path.raws, KeyPath.IsBare "." k := by
    rw [hraws]
    decide
  have hplain : ∀ s ∈ path.segments, Segment.IsPlain s.raw.toList :=
    fun s hs => (hbare _ (List.mem_map_of_mem hs)).isPlain
  have hpath : keyPath session.settings ⟨"a.c.d", none⟩ = .ok path := keyPath_eq_ok_iff.2 hparse
  have hd : doc.Distinct := by decide
  have hdistinct : data.Distinct := by decide
  have hdata : Command.data {} session.memory "!d" = .ok data := by decide +kernel
  have hdoc : (insertable doc).Passable path.raws := by
    rw [hraws]
    decide
  obtain ⟨hrun, -, hread, -, -, hagain⟩ :=
    run_insert_of_passable (fun _ => none) session {} hd hdistinct hpath hplain hdata hdoc
  have hout : (insertable doc).plant path.raws data = out := by
    rw [hraws]
    decide
  rw [hout] at hrun hread hagain
  exact ⟨path, hpath, hd, hdistinct, hplain, hdata, hdoc, hrun, hread, hagain⟩

end Command

end YamlQuery

import Mathlib.Data.List.Forall2
import YamlQuery.Proofs.Document.Entries
import YamlQuery.Proofs.Document.Values
import YamlQuery.Proofs.Substitute.Tokens

/-!
# Proofs.Substitute.Documents — the tokens of a document

A substitution changes the texts of a document, its strings and its keys, and nothing else
(`Value.Retexted`).  The entries of a mapping are put in order under their new keys, so that of keys
that become the same the last value wins, at the place of the first (`Entries.IsMapOf`).

It says that it has changed nothing exactly if no text of the document has changed, and then the
document is the same (`value_rewrites_texts`).
-/

namespace YamlQuery

/-! ### Maps of pairs -/

namespace Entries

variable {α : Type} {es : Entries α} {pairs : List (String × α)}

/-- Each key of the pairs stands at the place of the first pair with it, and has the value of the
last one. -/
structure IsMapOf (es : Entries α) (pairs : List (String × α)) : Prop where
  keys : es.keys = (pairs.map (·.1)).eraseDups
  get? (k : String) : es.get? k = Entries.get? k pairs.reverse

theorem isMapOf_iff : es.IsMapOf pairs ↔ es = ofList pairs := by
  constructor
  · intro h
    have hkeys : es.keys = (ofList pairs).keys := h.keys.trans (keys_ofList pairs).symm
    have hdistinct : es.Distinct := by
      rw [Distinct, hkeys]
      exact distinct_ofList pairs
    exact eq_of_keys_of_get? hkeys hdistinct fun k _ => (h.get? k).trans (get?_ofList k pairs).symm
  · rintro rfl
    exact ⟨keys_ofList pairs, fun k => get?_ofList k pairs⟩

end Entries

/-! ### Documents with other texts -/

namespace Value

/-- A document, and what it becomes if each of its texts is changed. -/
inductive Retexted (f : String → String) : Value → Value → Prop
  | null : Retexted f .null .null
  | boolean (b : Bool) : Retexted f (.boolean b) (.boolean b)
  | number (n : Number) : Retexted f (.number n) (.number n)
  | string (s : String) : Retexted f (.string s) (.string (f s))
  | sequence {items outs : List Value} : List.Forall₂ (Retexted f) items outs →
      Retexted f (.sequence items) (.sequence outs)
  | mapping {es fs outs : List (String × Value)} : fs.map (·.1) = es.map (f ·.1) →
      List.Forall₂ (Retexted f) (es.map (·.2)) (fs.map (·.2)) → Entries.IsMapOf outs fs →
      Retexted f (.mapping es) (.mapping outs)

end Value

namespace Substitute

variable {lookup : Lookup} {ns : String}

theorem elements_eq : ∀ items : List Value, elements lookup ns items =
    (items.map fun v => (value lookup ns v).1, items.any fun v => (value lookup ns v).2)
  | [] => rfl
  | v :: vs => by
    rw [elements, elements_eq vs]
    rfl

theorem entries_eq : ∀ es : List (String × Value), entries lookup ns es =
    (es.map fun e => ((text lookup ns e.1).1, (value lookup ns e.2).1),
      es.any fun e => (text lookup ns e.1).2 || (value lookup ns e.2).2)
  | [] => rfl
  | (k, v) :: es => by
    rw [entries, entries_eq es]
    rfl

theorem value_sequence (items : List Value) : value lookup ns (.sequence items) =
    (.sequence (items.map fun v => (value lookup ns v).1),
      items.any fun v => (value lookup ns v).2) := by
  rw [value, elements_eq]

theorem value_mapping (es : List (String × Value)) : value lookup ns (.mapping es) =
    (.mapping (Entries.ofList (es.map fun e => ((text lookup ns e.1).1, (value lookup ns e.2).1))),
      es.any fun e => (text lookup ns e.1).2 || (value lookup ns e.2).2) := by
  rw [value, entries_eq]

/-- A text that does not count as changed is the same. -/
theorem text_eq_self {s : String} (h : (text lookup ns s).2 = false) : (text lookup ns s).1 = s := by
  obtain ⟨hits, rest, hcut⟩ := exists_cuts lookup ns.toList s.toList
  have hchars := chars_of_cuts hcut
  have hnone : hits = [] := by
    have hflag : (!hits.isEmpty) = false := (congrArg Prod.snd hchars).symm.trans h
    simpa using hflag
  subst hnone
  have hrest : rest = s.toList := hcut.text
  rw [text, hchars, hrest]
  exact String.ofList_toList

/-! ### What a document becomes -/

/-- A list of which each member can become one value alone can become one list alone. -/
theorem forall₂_iff_eq_map {R : Value → Value → Prop} {g : Value → Value} :
    ∀ {vs ws : List Value}, (∀ v ∈ vs, ∀ w, R v w ↔ w = g v) →
      (List.Forall₂ R vs ws ↔ ws = vs.map g)
  | [], ws, _ => by rw [List.forall₂_nil_left_iff, List.map_nil]
  | v :: vs, ws, h => by
    obtain ⟨hv, hvs⟩ := List.forall_mem_cons.1 h
    rw [List.forall₂_cons_left_iff, List.map_cons]
    simp only [hv, forall₂_iff_eq_map hvs]
    simp

/-- Pairs are known by their first and their second parts. -/
theorem eq_map_of_map_eq {es fs : List (String × Value)} {f : String × Value → String}
    {g : String × Value → Value} (hkeys : fs.map (·.1) = es.map f) (hvalues : fs.map (·.2) = es.map g) :
    fs = es.map fun e => (f e, g e) := by
  have hfs : (fs.map (·.1)).zip (fs.map (·.2)) = fs := by
    rw [List.zip_map']
    exact List.map_id fs
  rw [← hfs, hkeys, hvalues, List.zip_map']

theorem retexted_iff {doc : Value} : ∀ {out : Value},
    doc.Retexted (fun s => (text lookup ns s).1) out ↔ out = (value lookup ns doc).1 := by
  induction doc using Value.induct with
  | scalar v hv =>
    intro out
    constructor
    · intro h
      cases h with
      | null | boolean | number | string => rfl
      | sequence | mapping => cases hv
    · rintro rfl
      cases v with
      | null => exact .null
      | boolean b => exact .boolean b
      | number n => exact .number n
      | string s => exact .string s
      | sequence | mapping => cases hv
  | sequence items ih =>
    intro out
    have hitems (outs : List Value) : List.Forall₂ _ items outs ↔ outs = _ :=
      forall₂_iff_eq_map fun v hv w => ih v hv
    rw [value_sequence]
    constructor
    · intro h
      cases h with
      | sequence houts => rw [(hitems _).1 houts]
    · rintro rfl
      exact .sequence ((hitems _).2 rfl)
  | mapping es ih =>
    intro out
    have hvalues (outs : List Value) : List.Forall₂ (Value.Retexted fun s => (text lookup ns s).1)
        (es.map (·.2)) outs ↔ outs = es.map fun e => (value lookup ns e.2).1 := by
      have heach : ∀ v ∈ es.map (·.2), ∀ w, v.Retexted (fun s => (text lookup ns s).1) w ↔
          w = (value lookup ns v).1 := by
        intro v hv w
        obtain ⟨e, he, rfl⟩ := List.mem_map.1 hv
        exact ih e he
      rw [forall₂_iff_eq_map heach, List.map_map]
      rfl
    rw [value_mapping]
    constructor
    · intro h
      cases h with
      | mapping hkeys houts hmap =>
        rw [Entries.isMapOf_iff.1 hmap, eq_map_of_map_eq hkeys ((hvalues _).1 houts)]
    · rintro rfl
      refine .mapping ?_ ((hvalues _).2 ?_) (Entries.isMapOf_iff.2 rfl) <;> rw [List.map_map] <;> rfl

/-! ### Documents that do not change -/

theorem value_snd_eq_false_iff {doc : Value} : (value lookup ns doc).2 = false ↔
    doc.EachText fun s => (text lookup ns s).2 = false := by
  induction doc using Value.induct with
  | scalar v hv =>
    cases v with
    | null | boolean | number => exact iff_of_true rfl trivial
    | string s => exact Iff.rfl
    | sequence | mapping => cases hv
  | sequence items ih =>
    rw [value_sequence, Value.eachText_sequence, List.any_eq_false]
    exact forall₂_congr fun v hv => (Bool.not_eq_true _).to_iff.trans (ih v hv)
  | mapping es ih =>
    rw [value_mapping, Value.eachText_mapping, List.any_eq_false, ← forall₂_and]
    refine forall₂_congr fun e he => ?_
    rw [Bool.or_eq_true, not_or, Bool.not_eq_true, Bool.not_eq_true, ih e he]

theorem value_eq_self {doc : Value} (hd : doc.Distinct)
    (h : doc.EachText fun s => (text lookup ns s).2 = false) : (value lookup ns doc).1 = doc := by
  induction doc using Value.induct with
  | scalar v hv =>
    cases v with
    | null | boolean | number => rfl
    | string s =>
      show Value.string (text lookup ns s).1 = _
      rw [text_eq_self h]
    | sequence | mapping => cases hv
  | sequence items ih =>
    have hitems := Value.distinctItems_iff.1 hd
    have htexts := Value.eachText_sequence.1 h
    rw [value_sequence, Value.sequence.injEq, map_eq_self_iff]
    exact fun v hv => ih v hv (hitems v hv) (htexts v hv)
  | mapping es ih =>
    have hentries := Value.distinctEntries_iff.1 hd.2
    obtain ⟨hkeys, htexts⟩ := Value.eachText_mapping.1 h
    have hsame : es.map (fun e => ((text lookup ns e.1).1, (value lookup ns e.2).1)) = es := by
      rw [map_eq_self_iff]
      exact fun e he => Prod.ext (text_eq_self (hkeys e he)) (ih e he (hentries e he) (htexts e he))
    rw [value_mapping, hsame, Entries.ofList_eq_self hd.1]

/-- **A substitution changes texts only.**  The document becomes the one with all its strings and keys
substituted: nodes of the same kinds, the elements of sequences in their order, and of each mapping
the map of its entries under their new keys, which are all there in their order if these keys are
different.  No change is reported exactly if none of the texts is changed, and then the document comes
out as it was. -/
theorem value_rewrites_texts (lookup : Lookup) (ns : String) {doc : Value} (hd : doc.Distinct) :
    let new := fun s => (text lookup ns s).1
    let out := value lookup ns doc
    (∀ v, doc.Retexted new v ↔ v = out.1) ∧
    (∀ es : List (String × Value), (es.map (new ·.1)).Nodup →
      (Value.mapping es).Retexted new (.mapping (es.map fun e => (new e.1, (value lookup ns e.2).1)))) ∧
    (out.2 = false ↔ doc.EachText fun s => (text lookup ns s).2 = false) ∧
    (out.2 = false → out.1 = doc) := by
  intro new out
  refine ⟨fun v => retexted_iff, fun es hnodup => ?_, value_snd_eq_false_iff, fun h => ?_⟩
  · rw [retexted_iff, value_mapping, Entries.ofList_eq_self]
    rwa [Entries.Distinct, Entries.keys, List.map_map]
  · exact value_eq_self hd (value_snd_eq_false_iff.1 h)

/-- Keys that become the same at the root, and a mapping in a sequence without tokens. -/
theorem value_rewrites_texts_colliding :
    let lookup : Lookup := .ofEntries [("a", "1")]
    let doc := Value.mapping [("$\x7ba\x7d", .sequence [.mapping [("z", .null), ("y", .null)]]),
      ("k", .string "$\x7bb\x7d"), ("1", .string "$\x7bns::a\x7d$")]
    let out := Value.mapping [("1", .string "1$"), ("k", .string "$\x7bb\x7d")]
    doc.Distinct ∧ doc.Retexted (fun s => (text lookup "ns" s).1) out ∧
      ¬ doc.EachText fun s => (text lookup "ns" s).2 = false := by
  intro lookup doc out
  have hd : doc.Distinct := by decide
  have hvalue : value lookup "ns" doc = (out, true) := by decide +kernel
  obtain ⟨hout, -, hflag, -⟩ := value_rewrites_texts lookup "ns" hd
  rw [hvalue] at hout hflag
  exact ⟨hd, (hout out).2 rfl, fun htexts => nomatch hflag.2 htexts⟩

end Substitute

end YamlQuery

import YamlQuery.Edit.Table
import YamlQuery.Proofs.Edit.Jobs
import YamlQuery.Proofs.Edit.Reading

/-!
# Proofs.Edit.Rows — tables and the values that are read

A value suits a table if it is a mapping with entries that has all the fields, or a sequence with
mappings in it, all of which have all the fields (`Table.Suits`).  An event with such a value adds its
rows, and any other value is refused (`Table.visit_of_suits`, `Table.exists_refused`).

So a table is made of the values that a read collects (`Table.rows_of_run`).  Its rows have a cell for
each field, whatever runs have been made (`Table.Even`).
-/

namespace YamlQuery

namespace Table

/-- The mapping has all the fields. -/
def HasAll (fields : List String) (es : Entries Value) : Prop := ∀ f ∈ fields, f ∈ es.keys

/-- The values that rows can be made of. -/
inductive Suits (fields : List String) : Value → Prop
  | mapping {es : Entries Value} : es ≠ [] → HasAll fields es → Suits fields (.mapping es)
  | sequence {items : List Value} : (∃ es, .mapping es ∈ items) →
      (∀ es, .mapping es ∈ items → HasAll fields es) → Suits fields (.sequence items)

/-- The values of the fields in a mapping that has them all. -/
def cells (fields : List String) (es : Entries Value) : List Value :=
  fields.filterMap fun f => es.get? f

/-- The rows of a value. -/
def rowsOf (fields : List String) (v : Value) : List (List Value) := (mappings v).map (cells fields)

variable {fields : List String} {es : Entries Value} {ms : List (Entries Value)} {v : Value}
  {t : Table} {place : String}

theorem mem_mappings_sequence {items : List Value} :
    es ∈ mappings (.sequence items) ↔ .mapping es ∈ items := by
  rw [mappings, List.mem_filterMap]
  constructor
  · rintro ⟨v, hv, hes⟩
    cases v <;> cases hes
    exact hv
  · intro h
    exact ⟨.mapping es, h, rfl⟩

theorem suits_iff : Suits fields v ↔ mappings v ≠ [] ∧ ∀ es ∈ mappings v, HasAll fields es := by
  cases v with
  | mapping es =>
    cases es with
    | nil =>
      constructor
      · rintro ⟨h, -⟩
        exact absurd rfl h
      · rintro ⟨h, -⟩
        exact absurd rfl h
    | cons e es =>
      constructor
      · rintro ⟨-, h⟩
        exact ⟨List.cons_ne_nil _ _, by simpa [mappings] using h⟩
      · rintro ⟨-, h⟩
        exact .mapping (List.cons_ne_nil _ _) (h _ (List.mem_singleton_self _))
  | sequence items =>
    constructor
    · rintro (_ | ⟨⟨es, hes⟩, h⟩)
      exact ⟨List.ne_nil_of_mem (mem_mappings_sequence.2 hes),
        fun es hes => h es (mem_mappings_sequence.1 hes)⟩
    · rintro ⟨hne, h⟩
      obtain ⟨es, hes⟩ := List.exists_mem_of_ne_nil _ hne
      exact .sequence ⟨es, mem_mappings_sequence.1 hes⟩
        fun es hes => h es (mem_mappings_sequence.2 hes)
  | null | boolean | number | string =>
    constructor
    · rintro ⟨⟩
    · rintro ⟨h, -⟩
      exact absurd rfl h

theorem cells_cons {f : String} {c : Value} (hc : es.get? f = some c) (fs : List String) :
    cells (f :: fs) es = c :: cells fs es :=
  List.filterMap_cons_some (f := fun f => es.get? f) hc

/-- The cells are those that are found under the fields, each of them. -/
theorem map_some_cells (h : HasAll fields es) :
    (cells fields es).map some = fields.map fun f => es.get? f := by
  induction fields with
  | nil => rfl
  | cons f fs ih =>
    obtain ⟨v, hv⟩ := Option.isSome_iff_exists.1
      (Entries.isSome_get?_iff.2 (h f List.mem_cons_self))
    rw [cells_cons hv, List.map_cons, List.map_cons, hv,
      ih fun g hg => h g (List.mem_cons_of_mem f hg)]

/-! ### Rows -/

theorem row_of_hasAll (place : String) (h : HasAll fields es) :
    row place es fields = .ok (cells fields es) := by
  induction fields with
  | nil => rfl
  | cons f fs ih =>
    obtain ⟨v, hv⟩ := Option.isSome_iff_exists.1
      (Entries.isSome_get?_iff.2 (h f List.mem_cons_self))
    rw [row, hv, ih fun g hg => h g (List.mem_cons_of_mem f hg), cells_cons hv]

theorem hasAll_of_row {r : List Value} (h : row place es fields = .ok r) : HasAll fields es := by
  induction fields generalizing r with
  | nil => simp [HasAll]
  | cons f fs ih =>
    rw [row] at h
    split at h
    · cases h
    · next v hv =>
      split at h
      · next hrest =>
        refine List.forall_mem_cons.2 ⟨Entries.isSome_get?_iff.1 (by rw [hv]; rfl), ih hrest⟩
      · cases h

theorem length_row {r : List Value} (h : row place es fields = .ok r) : r.length = fields.length := by
  have hall := hasAll_of_row h
  rw [row_of_hasAll place hall] at h
  obtain rfl := Except.ok.inj h
  simpa using congrArg List.length (map_some_cells hall)

/-- Mappings that have all the fields are added as rows. -/
theorem addRows_of_hasAll (place : String) :
    ∀ {ms : List (Entries Value)} (rows : List (List Value)), (∀ es ∈ ms, HasAll fields es) →
      addRows place ms ⟨fields, rows⟩ = (⟨fields, rows ++ ms.map (cells fields)⟩, none)
  | [], rows, _ => by simp [addRows]
  | es :: ms, rows, h => by
    obtain ⟨hes, hms⟩ := List.forall_mem_cons.1 h
    rw [addRows, row_of_hasAll place hes]
    dsimp only
    rw [addRows_of_hasAll place _ hms, List.append_assoc, List.singleton_append, List.map_cons]

/-- A mapping that lacks a field is refused. -/
theorem exists_refused_rows (place : String) :
    ∀ {ms : List (Entries Value)} (rows : List (List Value)), ¬ (∀ es ∈ ms, HasAll fields es) →
      ∃ t err, addRows place ms ⟨fields, rows⟩ = (t, some err)
  | [], _, h => by simp at h
  | es :: ms, rows, h => by
    rw [addRows]
    split
    · next r hr =>
      exact exists_refused_rows place _ fun hms =>
        h (List.forall_mem_cons.2 ⟨hasAll_of_row hr, hms⟩)
    · next err _ => exact ⟨_, err, rfl⟩

/-! ### Events -/

theorem visit_of_not_fully {e : Event} (h : Walk.value? e = none) (t : Table) :
    visitor.visit e t = (t, none) := by
  cases e with
  | fully site => cases h
  | partly | miss => rfl

theorem visit_of_nil {site : Site} (h : mappings site.value = []) (t : Table) :
    visitor.visit (.fully site) t =
      (t, some (.noSubElements (site.path.joinKeys site.trail))) := by
  simp only [visitor, Visitor.ofSites, h]

theorem visit_of_ne_nil {site : Site} (h : mappings site.value ≠ []) (t : Table) :
    visitor.visit (.fully site) t =
      addRows (site.path.joinKeys site.trail) (mappings site.value) t := by
  obtain ⟨es, ms, hms⟩ := List.exists_cons_of_ne_nil h
  simp only [visitor, Visitor.ofSites, hms]

theorem visit_of_suits {site : Site} (rows : List (List Value)) (h : Suits fields site.value) :
    visitor.visit (.fully site) ⟨fields, rows⟩ =
      (⟨fields, rows ++ rowsOf fields site.value⟩, none) := by
  obtain ⟨hne, hall⟩ := suits_iff.1 h
  rw [visit_of_ne_nil hne, addRows_of_hasAll _ rows hall, rowsOf]

theorem exists_refused {site : Site} (rows : List (List Value)) (h : ¬ Suits fields site.value) :
    ∃ t err, visitor.visit (.fully site) ⟨fields, rows⟩ = (t, some err) := by
  by_cases hms : mappings site.value = []
  · exact ⟨_, _, visit_of_nil hms _⟩
  · rw [visit_of_ne_nil hms]
    exact exists_refused_rows _ rows fun hall => h (suits_iff.2 ⟨hms, hall⟩)

/-- Events whose values all suit the table add their rows one after another. -/
theorem visitAll_of_suits :
    ∀ {es : List Event} (rows : List (List Value)),
      (∀ v ∈ es.filterMap Walk.value?, Suits fields v) →
        visitor.visitAll es ⟨fields, rows⟩ =
          (⟨fields, rows ++ (es.filterMap Walk.value?).flatMap (rowsOf fields)⟩, none)
  | [], rows, _ => by simp [Visitor.visitAll]
  | e :: es, rows, h => by
    rw [Visitor.visitAll]
    cases e with
    | fully site =>
      have hvalue : Walk.value? (.fully site) = some site.value := rfl
      rw [List.filterMap_cons_some hvalue] at h ⊢
      obtain ⟨hsite, hes⟩ := List.forall_mem_cons.1 h
      rw [visit_of_suits rows hsite]
      dsimp only
      rw [visitAll_of_suits _ hes, List.append_assoc, List.flatMap_cons]
    | partly | miss =>
      rw [visit_of_not_fully rfl]
      exact visitAll_of_suits rows h

theorem exists_refused_all :
    ∀ {es : List Event} (rows : List (List Value)),
      ¬ (∀ v ∈ es.filterMap Walk.value?, Suits fields v) →
        ∃ t err, visitor.visitAll es ⟨fields, rows⟩ = (t, some err)
  | [], _, h => by simp at h
  | e :: es, rows, h => by
    rw [Visitor.visitAll]
    cases e with
    | fully site =>
      have hvalue : Walk.value? (.fully site) = some site.value := rfl
      rw [List.filterMap_cons_some hvalue, List.forall_mem_cons] at h
      by_cases hsite : Suits fields site.value
      · rw [visit_of_suits rows hsite]
        exact exists_refused_all _ fun hes => h ⟨hsite, hes⟩
      · obtain ⟨t, err, hrefused⟩ := exists_refused rows hsite
        rw [hrefused]
        exact ⟨t, err, rfl⟩
    | partly | miss =>
      rw [visit_of_not_fully rfl]
      exact exists_refused_all rows h

/-! ### Runs -/

/-- The rows of a table have a cell for each field. -/
def Even (fields : List String) (t : Table) : Prop :=
  t.fields = fields ∧ ∀ r ∈ t.rows, r.length = fields.length

theorem Even.addRows (place : String) :
    ∀ (ms : List (Entries Value)) {t : Table}, t.Even fields → (addRows place ms t).1.Even fields
  | [], _, h => h
  | es :: ms, t, h => by
    rw [Table.addRows]
    split
    · next r hr =>
      refine Even.addRows place ms ⟨h.1, List.forall_mem_append.2 ⟨h.2, ?_⟩⟩
      rw [h.1] at hr
      simpa using length_row hr
    · exact h

theorem Even.visit (e : Event) {t : Table} (h : t.Even fields) :
    (visitor.visit e t).1.Even fields := by
  cases e with
  | fully site =>
    by_cases hms : mappings site.value = []
    · rw [visit_of_nil hms]
      exact h
    · rw [visit_of_ne_nil hms]
      exact h.addRows _ _
  | partly | miss => exact h

variable {strict : Bool} {path : KeyPath} {doc : Value}

/-- What a run does where nothing is in the way and all values suit the table. -/
theorem run_of_suits (hp : path.hasNext) (hstop : (doc.walk strict path).stop = none)
    (h : ∀ v ∈ (doc.walk strict path).values, Suits fields v) :
    visitor.run strict path doc { fields } =
      ⟨⟨fields, (doc.walk strict path).values.flatMap (rowsOf fields)⟩, doc,
        .ok (doc.walk strict path).matched⟩ := by
  have hall := visitAll_of_suits [] h
  rw [List.nil_append] at hall
  have hfinish (t : Table) : visitor.finish doc t = (t, .ok doc) := rfl
  simp only [Visitor.run, hp, hall, hstop, hfinish, Bool.not_true, Bool.false_eq_true, if_false]
  rfl

theorem isOk_run_iff (hp : path.hasNext) :
    (visitor.run strict path doc { fields }).result.isOk ↔
      (doc.walk strict path).stop = none ∧ ∀ v ∈ (doc.walk strict path).values, Suits fields v := by
  constructor
  · intro hok
    cases hr : (visitor.run strict path doc { fields }).result with
    | error err => simp [hr, Except.isOk, Except.toBool] at hok
    | ok b =>
      refine ⟨(Visitor.stop_of_run_eq_ok hr hp).1, by_contra fun h => ?_⟩
      obtain ⟨t, err, hrefused⟩ := exists_refused_all [] h
      simp [Visitor.run, hp, hrefused] at hr
  · rintro ⟨hstop, h⟩
    rw [run_of_suits hp hstop h]
    rfl

/-- **A table is made of what is read.**  A run on a new table succeeds exactly if a read does and all
its values suit the table; both results are the same then, and the rows are, in order, the values of
the fields in each mapping that is read or is an element of a sequence that is read.  After any runs on
one table, failed ones included, each row has a cell for each field. -/
theorem rows_of_run (strict : Bool) (path : KeyPath) (doc : Value) (fields : List String) :
    let read := Read.visitor.run strict path doc {}
    let table := visitor.run strict path doc { fields }
    (table.result.isOk ↔ read.result.isOk ∧ ∀ v ∈ read.state.values, Suits fields v) ∧
      (table.result.isOk → table.result = read.result ∧
        table.state.rows.map (·.map some) = read.state.values.flatMap fun v =>
          (mappings v).map fun es => fields.map fun f => Entries.get? f es) ∧
      ∀ (js : List Job), ∀ r ∈ (visitor.after js { fields }).rows, r.length = fields.length := by
  intro read table
  have heven : ∀ js : List Job, (visitor.after js { fields }).Even fields := fun js =>
    Visitor.after_of_calls (fun e _ h => h.visit e) (fun _ _ h => h) js ⟨rfl, by simp⟩
  cases hp : path.hasNext with
  | false =>
    have hread : read = ⟨{}, doc, .ok false⟩ := Visitor.run_of_not_hasNext hp
    have htable : table = ⟨{ fields }, doc, .ok false⟩ := Visitor.run_of_not_hasNext hp
    rw [hread, htable]
    exact ⟨by simp, fun _ => ⟨rfl, rfl⟩, fun js => (heven js).2⟩
  | true =>
    have hreadOk : read.result.isOk ↔ (doc.walk strict path).stop = none :=
      Visitor.isOk_run_iff Read.accepts_visitor hp
    have hvalues (hstop : (doc.walk strict path).stop = none) :
        read.state.values = (doc.walk strict path).values := Read.values_run hstop hp
    refine ⟨?_, fun hok => ?_, fun js => (heven js).2⟩
    · rw [isOk_run_iff hp, hreadOk]
      exact and_congr_right fun hstop => by rw [hvalues hstop]
    · obtain ⟨hstop, hsuits⟩ := (isOk_run_iff hp).1 hok
      have htable : table = _ := run_of_suits hp hstop hsuits
      have hread : read.result = .ok (doc.walk strict path).matched :=
        congrArg Visitor.Outcome.result (Visitor.run_of_finish Read.accepts_visitor hp hstop rfl)
      rw [htable, hread, hvalues hstop]
      refine ⟨rfl, ?_⟩
      rw [List.map_flatMap]
      refine List.flatMap_congr fun v hv => ?_
      rw [rowsOf, List.map_map]
      exact List.map_congr_left fun es hes => map_some_cells ((suits_iff.1 (hsuits v hv)).2 es hes)

/-- A mapping and a sequence with a scalar between its mappings; and before that a document that
fails behind its first row. -/
theorem rows_of_run_sequence :
    let doc := Value.mapping [
      ("a", .mapping [("n", .number (.integer 1)), ("m", .boolean true)]),
      ("b", .sequence [.mapping [("m", .null), ("k", .null), ("n", .string "x")], .null,
        .mapping [("n", .null), ("m", .sequence [])]])]
    let bad := Value.mapping [
      ("c", .sequence [.mapping [("n", .null), ("m", .null)], .mapping [("n", .null)]])]
    ∃ path, KeyPath.parse "*" "." = .ok path ∧
      (visitor.run true path doc { fields := ["n", "m"] }).result.isOk ∧
      (Read.visitor.run true path doc {}).state.values.length = 2 ∧
      (∀ v ∈ (Read.visitor.run true path doc {}).state.values, Suits ["n", "m"] v) ∧
      (visitor.run true path doc { fields := ["n", "m"] }).state.rows.map (·.map some) =
        ((Read.visitor.run true path doc {}).state.values.flatMap fun v =>
          (mappings v).map fun es => ["n", "m"].map fun f => Entries.get? f es) ∧
      (visitor.run true path bad { fields := ["n", "m"] }).result = .error (.missingField "m" "c") ∧
      ∃ js : List Job, js.map (·.doc) = [bad, doc] ∧
        (visitor.after js { fields := ["n", "m"] }).rows.length = 4 ∧
        ∀ r ∈ (visitor.after js { fields := ["n", "m"] }).rows, r.length = 2 := by
  intro doc bad
  obtain ⟨path, hpath, hok, hread, hbad, hrows⟩ := KeyPath.exists_parse "*" "."
    (fun p => (visitor.run true p doc { fields := ["n", "m"] }).result.isOk ∧
      (Read.visitor.run true p doc {}).state.values.length = 2 ∧
      (visitor.run true p bad { fields := ["n", "m"] }).result = .error (.missingField "m" "c") ∧
      (visitor.run true p doc
        (visitor.run true p bad { fields := ["n", "m"] }).state).state.rows.length = 4)
    (by decide +kernel)
  obtain ⟨hiff, hvalues, hlength⟩ := rows_of_run true path doc ["n", "m"]
  refine ⟨path, hpath, hok, hread, (hiff.1 hok).2, (hvalues hok).2, hbad,
    [⟨bad, path, true, by decide, .parse hpath⟩, ⟨doc, path, true, by decide, .parse hpath⟩], rfl,
    hrows, fun r hr => hlength _ r hr⟩

end Table

end YamlQuery

import YamlQuery.Proofs.Edit.Deletion
import YamlQuery.Proofs.Pattern.Segments

/-!
# Proofs.Edit.Wildcard — the path of one bare wildcard

A path with one segment left is taken along the entries of a mapping without going on below them:
reading, listing and deleting are then a matter of the keys that match (`Entries.matching`).

The segment `*` stands for any characters, but the pattern for these stays in one line.  So a key
with a line feed in it is not read, not listed and not deleted.
-/

namespace YamlQuery

/-! ### Characters with a property -/

namespace Re

variable {text : List Char} {p : Char → Bool}

theorem power_set : ∀ {n i j : Nat}, Power ((set p).Spans text) n i j ↔
    j = i + n ∧ ∀ k < n, text[i + k]?.any p
  | 0, i, j => ⟨fun h => ⟨h.symm, fun k hk => absurd hk (Nat.not_lt_zero k)⟩, fun h => h.1.symm⟩
  | n + 1, i, j => by
    rw [Power]
    constructor
    · rintro ⟨k, ⟨rfl, hp⟩, h⟩
      obtain ⟨rfl, hall⟩ := power_set.1 h
      refine ⟨by omega, fun k hk => ?_⟩
      cases k with
      | zero => exact hp
      | succ k =>
        rw [Nat.add_comm k 1, ← Nat.add_assoc]
        exact hall k (Nat.lt_of_succ_lt_succ hk)
    · rintro ⟨rfl, hall⟩
      refine ⟨i + 1, ⟨rfl, hall 0 (Nat.succ_pos n)⟩, power_set.2 ⟨by omega, fun k hk => ?_⟩⟩
      rw [Nat.add_assoc, Nat.add_comm 1 k]
      exact hall (k + 1) (Nat.succ_lt_succ hk)

/-- Any number of characters with a property is a text all of whose characters have it. -/
theorem spans_times_set : (times (set p) 0 none).Spans text 0 text.length ↔ text.all p := by
  have hall : text.all p ↔ ∀ k < text.length, text[0 + k]?.any p := by
    rw [List.all_eq_true]
    constructor
    · intro h k hk
      rw [Nat.zero_add, List.getElem?_eq_getElem hk]
      exact h _ (List.getElem_mem hk)
    · intro h c hc
      obtain ⟨k, hk, rfl⟩ := List.mem_iff_getElem.1 hc
      have hp := h k hk
      rwa [Nat.zero_add, List.getElem?_eq_getElem hk] at hp
  rw [hall]
  constructor
  · rintro ⟨n, -, -, h⟩
    obtain ⟨hn, h⟩ := power_set.1 h
    rw [hn, Nat.zero_add]
    exact h
  · intro h
    exact ⟨text.length, Nat.zero_le _, fun m hm => absurd hm (by simp), power_set.2 ⟨by omega, h⟩⟩

end Re

namespace Segment

variable {engine : Pattern.Engine}

/-- The pattern that a bare wildcard stands for. -/
theorem part?_star (engine : Pattern.Engine) :
    ∃ (part : Pattern.Part) (p : Char → Bool), (∀ c, p c = (c != '\n')) ∧
      part? engine ['*'] = some part ∧ part.re = .cat (.times (.set p) 0 none) .empty :=
  ⟨_, fun c => false || !(c == '\n' || (false && c == '\r')), fun c => by simp [bne], rfl, rfl⟩

theorem isMatch_star {s : Segment} (h : ofText? ['*'] engine = some s) (key : String) :
    s.isMatch key ↔ '\n' ∉ key.toList := by
  obtain ⟨part, p, hp, hpart, hre⟩ := part?_star engine
  have hspans : (Re.cat (.times (.set p) 0 none) .empty).Spans key.toList 0 key.toList.length ↔
      key.toList.all p := by
    rw [← Re.spans_times_set]
    exact ⟨fun ⟨k, h, hk⟩ => (show k = key.toList.length from hk) ▸ h, fun h => ⟨_, h, rfl⟩⟩
  rw [isMatch_iff_part h hpart, hre, hspans, List.all_eq_true]
  constructor
  · intro h hmem
    have hc := h _ hmem
    rw [hp] at hc
    exact absurd hc (by decide)
  · intro h c hc
    rw [hp, bne_iff_ne]
    rintro rfl
    exact h hc

end Segment

/-! ### The last segment of a path -/

/-- The entries whose keys match. -/
def KeyPath.matching (path : KeyPath) (es : Entries Value) : Entries Value :=
  es.filter fun e => path.isMatch e.1

variable {strict : Bool} {path : KeyPath} {es : Entries Value}

namespace Walk

variable {parent : Address} {trail : List String}

theorem entry_last (h : path.advanced.hasNext = false) (e : String × Value) :
    entry strict path parent trail e = if path.isMatch e.1 then
      { events := [.fully ⟨parent, e.1, e.2, path, trail ++ [e.1]⟩], matched := true }
    else missKey path parent trail e.1 := by
  split
  · next hk => exact entry_ends strict parent trail hk (by simp [h])
  · next hk => exact entry_differs strict parent trail (Bool.eq_false_of_not_eq_true hk)

theorem stop_entry_last (h : path.advanced.hasNext = false) (e : String × Value) :
    (entry strict path parent trail e).stop = none := by
  rw [entry_last h]
  split <;> rfl

theorem stop_walk_last (h : path.advanced.hasNext = false) :
    ((Value.mapping es).walk strict path).stop = none := by
  rw [Value.walk]
  by_cases hes : es = []
  · rw [hes]
    rfl
  · rw [below_mapping strict path _ _ hes, stop_join]
    intro w hw
    obtain ⟨e, -, rfl⟩ := List.mem_map.1 hw
    exact stop_entry_last h e

/-- What is noted down for keys that match is noted down for each of them, in order. -/
theorem filterMap_walk_last {α : Type} {f : Event → Option α} (hf : ∀ g, f (.miss g) = none)
    (h : path.advanced.hasNext = false) :
    ((Value.mapping es).walk strict path).events.filterMap f =
      (path.matching es).filterMap fun e => f (.fully ⟨.root, e.1, e.2, path, [e.1]⟩) := by
  rw [Value.walk]
  by_cases hes : es = []
  · rw [hes]
    exact List.filterMap_cons_none (hf _)
  · rw [below_mapping strict path _ _ hes, events_join, List.filterMap_flatMap, List.flatMap_map,
      KeyPath.matching, List.filterMap_filter, List.filterMap_eq_flatMap_toList]
    · refine List.flatMap_congr fun e _ => ?_
      rw [entry_last h]
      by_cases hk : path.isMatch e.1
      · rw [if_pos hk, if_pos hk]
        exact (List.filterMap_eq_flatMap_toList f _).trans (List.flatMap_singleton _ _)
      · rw [if_neg hk, if_neg hk]
        exact List.filterMap_cons_none (hf _)
    · intro w hw
      obtain ⟨e, -, rfl⟩ := List.mem_map.1 hw
      exact stop_entry_last h e

theorem ends_last (h : path.advanced.hasNext = false) :
    ((Value.mapping es).walk strict path).ends =
      (path.matching es).map fun e => ⟨.root, e.1⟩ := by
  rw [ends, filterMap_walk_last (fun _ => rfl) h, ← List.filterMap_eq_map]
  rfl

theorem matched_last (h : path.advanced.hasNext = false) :
    ((Value.mapping es).walk strict path).matched = es.any fun e => path.isMatch e.1 := by
  have hiff : ((Value.mapping es).walk strict path).matched = true ↔
      ((Value.mapping es).walk strict path).ends ≠ [] := matched_iff
  rw [Bool.eq_iff_iff, hiff, ends_last h, Ne, List.map_eq_nil_iff, KeyPath.matching,
    List.filter_eq_nil_iff, List.any_eq_true]
  push Not
  rfl

end Walk

/-! ### Runs along the last segment -/

theorem Read.run_last (strict : Bool) (es : Entries Value) (hp : path.hasNext)
    (h : path.advanced.hasNext = false) :
    visitor.run strict path (.mapping es) {} =
      ⟨{ values := (path.matching es).values }, .mapping es,
        .ok (es.any fun e => path.isMatch e.1)⟩ := by
  rw [Visitor.run_of_finish accepts_visitor hp (Walk.stop_walk_last h) rfl, noteAll_visitor,
    Walk.filterMap_walk_last (fun _ => rfl) h, Walk.matched_last h, Entries.values,
    ← List.filterMap_eq_map]
  rfl

theorem KeyPath.joinKeys_singleton (path : KeyPath) (key : String) : path.joinKeys [key] = key :=
  String.ofList_toList

theorem ListPaths.run_last (strict : Bool) (es : Entries Value) (hp : path.hasNext)
    (h : path.advanced.hasNext = false) :
    visitor.run strict path (.mapping es) {} =
      ⟨{ paths := (path.matching es).keys }, .mapping es,
        .ok (es.any fun e => path.isMatch e.1)⟩ := by
  rw [Visitor.run_of_finish accepts_visitor hp (Walk.stop_walk_last h) rfl, noteAll_visitor,
    Walk.filterMap_walk_last (fun _ => rfl) h, Walk.matched_last h, Entries.keys,
    ← List.filterMap_eq_map]
  simp only [Walk.listed?, KeyPath.joinKeys_singleton]
  rfl

/-- What is left without the entries that match. -/
theorem Delete.without_last (h : path.advanced.hasNext = false) :
    (Value.mapping es).without (Target.addresses ((Value.mapping es).walk strict path).ends) =
      .mapping (es.filter fun e => !path.isMatch e.1) := by
  have hgone (a : Address) :
      Target.addresses ((Value.mapping es).walk strict path).ends a = true ↔
        ∃ e ∈ path.matching es, [.key e.1] = a := by
    rw [Target.addresses_iff, Walk.ends_last h]
    simp only [List.mem_map, exists_exists_and_eq_and]
    rfl
  have hkey (e : String × Value) (he : e ∈ es) :
      Target.addresses ((Value.mapping es).walk strict path).ends [.key e.1] =
        path.isMatch e.1 := by
    rw [Bool.eq_iff_iff, hgone]
    constructor
    · rintro ⟨e', he', heq⟩
      have hk : e'.1 = e.1 := Step.key.inj (List.cons.inj heq).1
      rw [← hk]
      exact (List.mem_filter.1 he').2
    · intro hk
      exact ⟨e, List.mem_filter.2 ⟨he, hk⟩, rfl⟩
  rw [Value.without, Value.withoutEntries_eq, ← List.filterMap_eq_filter]
  refine congrArg Value.mapping (List.filterMap_congr fun e he => ?_)
  rw [hkey e he]
  cases hk : path.isMatch e.1 with
  | true => simp [Option.guard, hk]
  | false =>
    have hbelow : e.2.without (fun a => Target.addresses
        ((Value.mapping es).walk strict path).ends (.key e.1 :: a)) = e.2 := by
      refine Value.without_of_forall e.2 fun a => Bool.eq_false_of_not_eq_true fun ha => ?_
      obtain ⟨e', he', heq⟩ := (hgone _).1 ha
      have hk' : e'.1 = e.1 := Step.key.inj (List.cons.inj heq).1
      rw [KeyPath.matching, List.mem_filter, hk', hk] at he'
      exact absurd he'.2 Bool.false_ne_true
    simp [Option.guard, hk, hbelow]

theorem Delete.run_last (strict : Bool) (hd : (Value.mapping es).Distinct) (hp : path.hasNext)
    (h : path.advanced.hasNext = false) :
    visitor.run strict path (.mapping es) {} =
      ⟨{ deleted := (path.matching es).length }, .mapping (es.filter fun e => !path.isMatch e.1),
        .ok (es.any fun e => path.isMatch e.1)⟩ := by
  have hstop : ((Value.mapping es).walk strict path).stop = none := Walk.stop_walk_last h
  have hrun := run_of_stop_eq_none hd hp hstop 0
  rw [without_last h, Walk.matched_last h, Walk.ends_last h, List.length_map, Nat.zero_add] at hrun
  exact hrun

/-! ### The bare wildcard -/

/-- The entries whose keys are one line. -/
def Entries.oneLine (es : Entries Value) : Entries Value :=
  es.filter fun e => !e.1.toList.contains '\n'

namespace KeyPath

open Segment

variable {delimiter : String}

theorem pieces_star (hd : delimiter ≠ "") (hs : delimiter ≠ "*") :
    pieces "*" delimiter = [['*']] := by
  have hprefix : ¬ delimiter.toList.isPrefixOf ['*'] := by
    rw [List.isPrefixOf_iff_prefix, List.prefix_cons_iff]
    rintro (h | ⟨t, h, ht⟩)
    · exact hd (String.toList_inj.1 h)
    · rw [List.prefix_nil.1 ht] at h
      exact hs (String.toList_inj.1 h)
  have htrim : Text.trim "*".toList = ['*'] := by decide +kernel
  rw [pieces, htrim, Text.splitOn, Text.splitFrom, if_neg hprefix]
  rfl

/-- The path of one bare wildcard, with any delimiter that is none. -/
theorem exists_parse_star (hd : delimiter ≠ "") (hs : delimiter ≠ "*") :
    ∃ path, parse "*" delimiter = .ok path ∧ path.hasNext ∧ path.advanced.hasNext = false ∧
      ∀ key, path.isMatch key = !key.toList.contains '\n' := by
  have hsome : (ofText? ['*']).isSome := by decide +kernel
  obtain ⟨s, hof⟩ := Option.isSome_iff_exists.1 hsome
  refine ⟨{ text := String.ofList (Text.trim "*".toList), delimiter, segments := [s] }, ?_, rfl,
    rfl, fun key => ?_⟩
  · rw [parse_eq hd (by decide +kernel), pieces_star hd hs, segmentsFrom, hof]
    rfl
  · show s.isMatch key = _
    rw [Bool.eq_iff_iff, isMatch_star hof]
    simp

/-- **A bare wildcard takes the keys of one line.**  It reads their values and lists them, in the
order of the mapping, and deletes their entries.  So it takes all keys exactly if there is no line
feed in any of them. -/
theorem runs_star {es : Entries Value} (hes : (Value.mapping es).Distinct) (hd : delimiter ≠ "")
    (hs : delimiter ≠ "*") : ∃ path, parse "*" delimiter = .ok path ∧ ∀ strict,
      let read := Read.visitor.run strict path (.mapping es) {}
      let list := ListPaths.visitor.run strict path (.mapping es) {}
      let delete := Delete.visitor.run strict path (.mapping es) {}
      let taken : Except EditError Bool := .ok (es.any fun e => !e.1.toList.contains '\n')
      read = ⟨{ values := es.oneLine.values }, .mapping es, taken⟩ ∧
      list = ⟨{ paths := es.oneLine.keys }, .mapping es, taken⟩ ∧
      delete = ⟨{ deleted := es.oneLine.length },
        .mapping (es.filter fun e => e.1.toList.contains '\n'), taken⟩ ∧
      (read.state.values = es.values ∧ list.state.paths = es.keys ∧ delete.doc = .mapping [] ↔
        ∀ k ∈ es.keys, '\n' ∉ k.toList) := by
  obtain ⟨path, hpath, hp, hlast, hmatch⟩ := exists_parse_star hd hs
  refine ⟨path, hpath, fun strict => ?_⟩
  have hone : path.matching es = es.oneLine := by
    simp only [matching, hmatch, Entries.oneLine]
  have hread := Read.run_last strict es hp hlast
  have hlist := ListPaths.run_last strict es hp hlast
  have hdelete := Delete.run_last strict hes hp hlast
  simp only [hone, hmatch, Bool.not_not] at hread hlist hdelete
  intro read list delete taken
  have hkeys : (∀ k ∈ es.keys, '\n' ∉ k.toList) ↔ ∀ e ∈ es, '\n' ∉ e.1.toList := List.forall_mem_map
  refine ⟨hread, hlist, hdelete, ?_⟩
  rw [show read = _ from hread, show list = _ from hlist, show delete = _ from hdelete, hkeys]
  constructor
  · rintro ⟨-, -, hdoc⟩ e he hmem
    have hkept := List.filter_eq_nil_iff.1 (Value.mapping.inj hdoc) e he
    exact hkept (List.contains_iff_mem.2 hmem)
  · intro h
    have hall : es.oneLine = es := List.filter_eq_self.2 fun e he => by simpa using h e he
    have hnone : (es.filter fun e => e.1.toList.contains '\n') = [] :=
      List.filter_eq_nil_iff.2 fun e he => by simpa using h e he
    rw [hall, hnone]
    exact ⟨rfl, rfl, rfl⟩

theorem runs_star_lines :
    let doc := Value.mapping [("a", .null), ("b\nc", .mapping []), ("", .boolean true)]
    doc.Distinct ∧ ", " ≠ "" ∧ ", " ≠ "*" ∧ ∃ path, parse "*" ", " = .ok path ∧ ∀ strict,
      (Read.visitor.run strict path doc {}).state.values = [.null, .boolean true] ∧
      (ListPaths.visitor.run strict path doc {}).state.paths = ["a", ""] ∧
      (Delete.visitor.run strict path doc {}).doc = .mapping [("b\nc", .mapping [])] := by
  intro doc
  have hdoc : doc.Distinct := by decide
  refine ⟨hdoc, by decide, by decide, ?_⟩
  obtain ⟨path, hpath, hruns⟩ := runs_star hdoc (by decide : ", " ≠ "") (by decide)
  refine ⟨path, hpath, fun strict => ?_⟩
  obtain ⟨hread, hlist, hdelete, -⟩ := hruns strict
  rw [hread, hlist, hdelete]
  decide +kernel

/-- A key of two lines is neither read nor listed, and it stays. -/
theorem star_misses_line_feed :
    ∃ path, parse "*" "." = .ok path ∧
      (Read.visitor.run true path (.mapping [("a\nb", .null)]) {}).state.values = [] ∧
      (ListPaths.visitor.run true path (.mapping [("a\nb", .null)]) {}).state.paths = [] ∧
      (Delete.visitor.run true path (.mapping [("a\nb", .null)]) {}).doc =
        .mapping [("a\nb", .null)] :=
  exists_parse "*" "." _ (by decide +kernel)

end KeyPath

end YamlQuery

import YamlQuery.Proofs.Edit.Pruning
import YamlQuery.Proofs.Edit.Succession

/-!
# Proofs.Edit.Skipping — inserts and elements that are passed over

An insert into a document without the elements that a walk passes over does what it does with them if
their places are not looked at (`Insert.run_without`), as if keys had matched there before
(`Insert.places_filter`).

But the places are looked at.  If one of them lies deeper than the deepest barren mappings, then
branches are created nowhere (`Insert.run_without_skipped`).
-/

namespace YamlQuery

namespace Insert

/-! ### What an insert does without the elements -/

variable {data doc : Value} {path : KeyPath} {gone : Address → Bool}

theorem distinct_moved : ∀ {kept ms : List Missing}, (∀ k ∈ kept, k.parent.Kept gone) →
    (∀ m ∈ ms, m.parent.Kept gone) →
      distinct (kept.map (·.moved gone)) (ms.map (·.moved gone)) =
        (distinct kept ms).map (·.moved gone)
  | _, [], _, _ => rfl
  | kept, m :: ms, hkept, hms => by
    obtain ⟨hm, hms⟩ := List.forall_mem_cons.1 hms
    have hany : ((kept.map (·.moved gone)).any fun k =>
        k.parent = (m.moved gone).parent && k.path.equivalent (m.moved gone).path) =
          kept.any fun k => k.parent = m.parent && k.path.equivalent m.path := by
      rw [List.any_map, Bool.eq_iff_iff, List.any_eq_true, List.any_eq_true]
      refine exists_congr fun k => and_congr_right fun hk => ?_
      show (decide (k.parent.moved gone = m.parent.moved gone) && k.path.equivalent m.path) = true ↔ _
      have hiff : k.parent.moved gone = m.parent.moved gone ↔ k.parent = m.parent :=
        ⟨Address.moved_inj (hkept k hk) hm, fun heq => by rw [heq]⟩
      rw [decide_eq_decide.2 hiff]
    have hkept' : ∀ k ∈ kept ++ [m], k.parent.Kept gone := by
      intro k hk
      rcases List.mem_append.1 hk with hk | hk
      · exact hkept k hk
      · rwa [List.mem_singleton.1 hk]
    rw [List.map_cons, distinct, distinct, hany]
    split
    · exact distinct_moved hkept hms
    · rw [← distinct_moved hkept' hms, List.map_append, List.map_singleton]

theorem deepest_moved {ms : List Missing} (hms : ∀ m ∈ ms, m.parent.Kept gone) :
    deepest (ms.map (·.moved gone)) = (deepest ms).map (·.moved gone) := by
  have hkept : ∀ m ∈ ms.filter (·.path.cursor == ms.foldl (fun d m => max d m.path.cursor) 0),
      m.parent.Kept gone := fun m hm => hms m (List.mem_filter.1 hm).1
  rw [deepest, deepest, ← distinct_moved (by simp) hkept, List.foldl_map, List.filter_map]
  rfl

/-- The places at which no key has matched are the same but for those that are taken out. -/
theorem places_without (h : Walk.TakesSkipped doc path gone) :
    places ((doc.without gone).walk false path) [] =
      ((places (doc.walk false path) []).filter fun m => !gone m.parent).map (·.moved gone) := by
  have hw := Walk.follows_walk h
  rw [places, hw.misses, List.filter_map, places, List.filter_filter, List.filter_filter]
  congr 1
  refine List.filter_congr fun m hm => ?_
  rw [Bool.and_comm]
  cases hg : gone m.parent with
  | true => rfl
  | false =>
    obtain ⟨es, hv⟩ := h.exists_visits hm hg
    have hlevel : (m.parent.moved gone, m.path.cursor) ∈ ((doc.without gone).walk false path).levels ↔
        (m.parent, m.path.cursor) ∈ (doc.walk false path).levels := by
      rw [hw.levels, List.mem_map]
      constructor
      · rintro ⟨⟨a, n⟩, hl, heq⟩
        obtain ⟨⟨fs, hfs, -⟩, -⟩ := (Walk.mem_levels_iff h.distinct h.hasNext hw.runs).1 hl
        obtain ⟨ha, rfl⟩ := Prod.mk.inj heq
        rwa [← Address.moved_inj (h.kept_of_visits hfs) (h.kept_of_visits hv) ha]
      · exact fun hl => ⟨_, hl, rfl⟩
    have hcontains : (((doc.without gone).walk false path).levels.reverse ++ []).contains
        ((m.moved gone).parent, (m.moved gone).path.cursor) =
          ((doc.walk false path).levels.reverse ++ []).contains (m.parent, m.path.cursor) := by
      rw [Bool.eq_iff_iff, List.contains_iff_mem, List.contains_iff_mem, List.append_nil,
        List.append_nil, List.mem_reverse, List.mem_reverse]
      exact hlevel
    rw [Bool.not_false, Bool.true_and, Bool.true_and]
    exact congrArg _ hcontains

theorem create?_without {m : Missing} (hk : m.parent.Kept gone)
    (hb : ∀ b, gone (m.parent ++ b) = false) (doc : Value) :
    create? data (m.moved gone) (doc.without gone) =
      (create? data m doc).map (·.without gone) := by
  have hget : (doc.without gone).get? (m.moved gone).parent = doc.get? m.parent := by
    rw [Missing.moved, Value.get?_without hk]
    cases doc.get? m.parent with
    | none => rfl
    | some u => exact congrArg some (Value.without_of_forall u hb)
  rw [create?, create?, hget, show branch? data (m.moved gone).path = branch? data m.path from rfl]
  cases branch? data m.path with
  | none => rfl
  | some e =>
    cases doc.get? m.parent with
    | none => rfl
    | some u =>
      cases u with
      | mapping es =>
        exact Value.modify?_without (g := fun _ => .mapping (Entries.put e.1 e.2 es)) hk
          (fun _ => Value.without_of_forall _ hb) doc
      | _ => rfl

theorem createAll_without :
    ∀ {ms : List Missing} {doc : Value} {n : Nat}, (∀ m ∈ ms, m.parent.Kept gone) →
      (∀ m ∈ ms, ∀ b, gone (m.parent ++ b) = false) →
        createAll data (ms.map (·.moved gone)) (doc.without gone) n =
          ((createAll data ms doc n).1.without gone, (createAll data ms doc n).2)
  | [], _, _, _, _ => rfl
  | m :: ms, doc, n, hk, hb => by
    obtain ⟨hkm, hk⟩ := List.forall_mem_cons.1 hk
    obtain ⟨hbm, hb⟩ := List.forall_mem_cons.1 hb
    rw [List.map_cons, createAll, createAll, create?_without hkm hbm]
    cases create? data m doc with
    | none => exact createAll_without hk hb
    | some w => exact createAll_without hk hb

/-- Replacing entries of which nothing is taken out. -/
theorem applyAll_replace?_without : ∀ {ts : List Target} {doc : Value} {n : Nat},
    (∀ t ∈ ts, t.address.Kept gone) → (∀ t ∈ ts, ∀ b, gone (t.address ++ b) = false) →
      Target.applyAll (·.replace? data) (ts.map (·.moved gone)) (doc.without gone) n =
        ((Target.applyAll (·.replace? data) ts doc n).1.without gone,
          (Target.applyAll (·.replace? data) ts doc n).2)
  | [], _, _, _, _ => rfl
  | t :: ts, doc, n, hk, hb => by
    obtain ⟨hkt, hk⟩ := List.forall_mem_cons.1 hk
    obtain ⟨hbt, hb⟩ := List.forall_mem_cons.1 hb
    have hreplace : (t.moved gone).replace? data (doc.without gone) =
        (t.replace? data doc).map (·.without gone) := by
      rw [Target.replace?_eq_modify?, Target.replace?_eq_modify?, Target.address_moved]
      exact Value.modify?_without (g := fun _ => data) hkt
        (fun _ => Value.without_of_forall _ hbt) doc
    rw [List.map_cons, Target.applyAll, Target.applyAll, hreplace]
    cases t.replace? data doc with
    | none => exact applyAll_replace?_without hk hb
    | some w => exact applyAll_replace?_without hk hb

/-- A mapping where a branch would be created if no elements were passed over: a deepest barren
mapping, with plain keys for the rest of the path. -/
structure Ready (doc : Value) (path : KeyPath) (a : Address) : Prop where
  barren : doc.Barren path a
  plain : keys? (path.segments.drop (path.cursor + a.keys.length)) ≠ none
  deepest : ∀ b, doc.Barren path b → (Address.keys b).length ≤ a.keys.length

/-- The places of the elements that are passed over, as levels. -/
def skipped (w : Walk) (gone : Address → Bool) : List (Address × Nat) :=
  (w.misses.filter fun m => gone m.parent).map fun m => (m.parent, m.path.cursor)

section Skipped

variable (h : Walk.TakesSkipped doc path gone)

include h

theorem mem_skipped {l : Address × Nat} : l ∈ skipped (doc.walk false path) gone ↔
    doc.Skips path l.1 ∧ path.cursor + (Address.keys l.1).length = l.2 := by
  have hs := (Walk.follows_walk h).runs
  rw [skipped, List.mem_map]
  constructor
  · rintro ⟨m, hm, rfl⟩
    obtain ⟨hm, hg⟩ := List.mem_filter.1 hm
    have hpath := ((Walk.mem_misses_iff h.distinct h.hasNext hs).1 hm).1
    refine ⟨(h.iff _).1 hg, ?_⟩
    rw [hpath]
    rfl
  · obtain ⟨a, n⟩ := l
    rintro ⟨hskips, hn⟩
    obtain rfl : path.cursor + (Address.keys a).length = n := hn
    have hm : ⟨a, path.skip (Address.keys a).length⟩ ∈ (doc.walk false path).misses :=
      (Walk.mem_misses_iff h.distinct h.hasNext hs).2 ⟨rfl, .inl hskips⟩
    exact ⟨_, List.mem_filter.2 ⟨hm, (h.iff a).2 hskips⟩, rfl⟩

/-- Taking out the elements that are passed over is as if keys had matched there before. -/
theorem places_filter :
    (places (doc.walk false path) []).filter (fun m => !gone m.parent) =
      places (doc.walk false path) (skipped (doc.walk false path) gone) := by
  rw [places, places, List.filter_filter]
  refine List.filter_congr fun m hm => ?_
  have hpath :=
    ((Walk.mem_misses_iff h.distinct h.hasNext (Walk.follows_walk h).runs).1 hm).1
  have hgone : gone m.parent ↔ (m.parent, m.path.cursor) ∈ skipped (doc.walk false path) gone := by
    rw [mem_skipped h, h.iff, hpath]
    exact (and_iff_left rfl).symm
  rw [List.append_nil, Bool.eq_iff_iff, Bool.and_eq_true, Bool.not_eq_true', Bool.not_eq_true',
    Bool.not_eq_true', ← Bool.not_eq_true, ← Bool.not_eq_true, ← Bool.not_eq_true, hgone,
    List.contains_iff_mem, List.contains_iff_mem, List.mem_append, not_or, and_comm]

theorem createsAt_skipped_iff {a : Address} :
    CreatesAt {l | l ∈ skipped (doc.walk false path) gone} doc path a ↔ Ready doc path a := by
  have hfree : ∀ b, doc.Barren path b →
      (b, path.cursor + (Address.keys b).length) ∉ skipped (doc.walk false path) gone := by
    rintro b ⟨es, hv, -⟩ hb
    have hskips := ((mem_skipped h).1 hb).1
    rw [← h.iff, h.mapping hv.node rfl] at hskips
    cases hskips
  constructor
  · rintro ⟨hbarren, -, hplain, hdeepest⟩
    exact ⟨hbarren, hplain, fun b hb => hdeepest b (.inl hb) (hfree b hb)⟩
  · rintro ⟨hbarren, hplain, hdeepest⟩
    refine ⟨hbarren, hfree a hbarren, hplain, ?_⟩
    rintro b (hb | hb) hbfree
    · exact hdeepest b hb
    · exact absurd ((mem_skipped h).2 ⟨hb, rfl⟩) hbfree

omit h in
theorem createsAt_empty_iff {a : Address} : CreatesAt ∅ doc path a ↔
    Ready doc path a ∧ ∀ b, doc.Skips path b → (Address.keys b).length ≤ a.keys.length := by
  constructor
  · rintro ⟨hbarren, -, hplain, hdeepest⟩
    exact ⟨⟨hbarren, hplain, fun b hb => hdeepest b (.inl hb) id⟩,
      fun b hb => hdeepest b (.inr hb) id⟩
  · rintro ⟨⟨hbarren, hplain, hdeepest⟩, hskips⟩
    exact ⟨hbarren, id, hplain, fun b hb _ => hb.elim (hdeepest b) (hskips b)⟩

/-- The places that are left are barren mappings. -/
theorem barren_of_mem_places {m : Missing}
    (hm : m ∈ places (doc.walk false path) (skipped (doc.walk false path) gone)) :
    doc.Barren path m.parent := by
  have hs := (Walk.follows_walk h).runs
  obtain ⟨⟨hdead, hpath⟩, hfree⟩ := (mem_places_iff h.distinct h.hasNext hs).1 hm
  refine hdead.resolve_right fun hskips => hfree ((mem_skipped h).2 ⟨hskips, ?_⟩)
  rw [hpath]
  rfl

theorem deepest_without :
    deepest (places ((doc.without gone).walk false path) []) =
      (deepest (places (doc.walk false path) (skipped (doc.walk false path) gone))).map
        (·.moved gone) := by
  rw [places_without h, places_filter h]
  exact deepest_moved fun m hm => h.kept_of_barren (barren_of_mem_places h hm)

/-- What an insert does without the elements is what it does if their places do not count. -/
theorem run_without (data : Value) :
    let w := doc.walk false path
    let out := Target.applyAll (·.replace? data) w.ends doc 0
    let made := createAll data
      (sites {l | l ∈ skipped (doc.walk false path) gone} doc path w) out.1 0
    let rest := visitor.run false path (doc.without gone) { data }
    rest.doc = made.1.without gone ∧ rest.result = .ok w.matched ∧
      rest.state.replaced = out.2 ∧ rest.state.created = made.2 := by
  intro w out made rest
  have hw := Walk.follows_walk h
  have hends : ∀ t ∈ w.ends, doc.Ends path t :=
    fun t ht => (mem_ends_iff h.distinct h.hasNext hw.runs).1 ht
  have hreplaced : Target.applyAll (·.replace? data) ((doc.without gone).walk false path).ends
      (doc.without gone) 0 = (out.1.without gone, out.2) := by
    rw [hw.ends]
    exact applyAll_replace?_without (fun t ht => h.kept_of_ends (hends t ht))
      fun t ht => h.below_ends (hends t ht)
  have hbarren : ∀ m ∈ deepest (places w (skipped w gone)), doc.Barren path m.parent :=
    fun m hm => barren_of_mem_places h (mem_of_mem_deepest hm)
  have hmade : createAll data (deepest (places ((doc.without gone).walk false path) []))
      (out.1.without gone) 0 = (made.1.without gone, made.2) := by
    rw [deepest_without h, createAll_without (fun m hm => h.kept_of_barren (hbarren m hm))
      fun m hm => h.below_barren (hbarren m hm),
      createAll_deepest_places data h.distinct h.hasNext hw.runs]
  have hrun := run_of_clean (i := { data }) rfl rfl h.hasNext hw.runs'
  dsimp only at hrun
  rw [hreplaced] at hrun
  dsimp only at hrun
  rw [hmade, Walk.matched_without h, Nat.zero_add, Nat.zero_add] at hrun
  rw [show rest = _ from hrun]
  exact ⟨rfl, rfl, rfl, rfl⟩

/-- Where a branch is to be created, one is. -/
theorem created_pos (data : Value) {left : Set (Address × Nat)} {a : Address}
    (ha : CreatesAt left doc path a) :
    let w := doc.walk false path
    let out := Target.applyAll (·.replace? data) w.ends doc 0
    0 < (createAll data (sites left doc path w) out.1 0).2 := by
  intro w out
  have hs := (Walk.follows_walk h).runs
  obtain ⟨hpath, hsite, -⟩ := sites_iff h.distinct h.hasNext hs left
  cases hsites : sites left doc path w with
  | nil =>
    rw [← hsite a, hsites] at ha
    cases ha
  | cons m ms =>
    have hm : m ∈ sites left doc path w := hsites ▸ List.mem_cons_self
    have hcreates : CreatesAt left doc path m.parent := (hsite _).1 (List.mem_map_of_mem hm)
    obtain ⟨es, hv, -⟩ := id hcreates.barren
    have hget : out.1.get? m.parent = some (.mapping es) :=
      (get?_replaced data h.distinct h.hasNext hs (.inl hcreates.barren)).trans hv.node
    obtain ⟨k, ks, -, hbranch⟩ := hcreates.exists_keys
    rw [createAll]
    cases hc : create? data m out.1 with
    | none =>
      have hnone := branch?_of_create?_eq_none hc hget
      rw [hpath m hm, hbranch] at hnone
      cases hnone
    | some u =>
      dsimp only
      rw [createAll_count]
      omega

end Skipped

/-- **Inserts and elements that are passed over.**  If sequences are not strict, an insert finds and
replaces the same entries with the elements that are no mappings as without them.  It creates the
same branches too, unless such an element lies deeper than a mapping where a branch would be created
without it: then the insert creates nothing at all. -/
theorem run_without_skipped {data doc : Value} {path : KeyPath} (hd : doc.Distinct) :
    ∃ gone : Address → Bool, (∀ a, gone a = true ↔ doc.Skips path a) ∧
      let out := visitor.run false path doc { data }
      let rest := visitor.run false path (doc.without gone) { data }
      rest.result = out.result ∧ rest.state.replaced = out.state.replaced ∧
      ((∀ a b, Ready doc path a → doc.Skips path b →
          (Address.keys b).length ≤ (Address.keys a).length) →
        rest.doc = out.doc.without gone ∧ rest.state.created = out.state.created) ∧
      ∀ a b, Ready doc path a → doc.Skips path b →
        (Address.keys a).length < (Address.keys b).length →
          out.state.created = 0 ∧ 0 < rest.state.created := by
  classical
  let gone : Address → Bool := fun a => decide (doc.Skips path a)
  have hgone : ∀ a, gone a = true ↔ doc.Skips path a := fun a => decide_eq_true_iff
  refine ⟨gone, hgone, ?_⟩
  intro out rest
  cases hp : path.hasNext with
  | false =>
    have hnone : ∀ a, ¬ doc.Skips path a := fun a ha => by simp [ha.hasNext] at hp
    have hsame : doc.without gone = doc :=
      Value.without_of_forall doc fun a => by simpa [gone] using hnone a
    have hout : out = ⟨{ data }, doc, .ok false⟩ := Visitor.run_of_not_hasNext hp
    have hrest : rest = ⟨{ data }, doc.without gone, .ok false⟩ := Visitor.run_of_not_hasNext hp
    rw [hout, hrest]
    exact ⟨rfl, rfl, fun _ => ⟨rfl, rfl⟩, fun _ b _ hb => absurd hb (hnone b)⟩
  | true =>
    have h : Walk.TakesSkipped doc path gone := ⟨hd, hp, hgone⟩
    have hs := (Walk.follows_walk h).runs
    obtain ⟨hdoc, hresult, hreplaced, hcreated⟩ := run_without h data
    have hout := run_of_clean (i := { data }) rfl rfl hp hs
    have hempty : {l | l ∈ ([] : List (Address × Nat))} = ∅ := by simp
    dsimp only at hout
    rw [createAll_deepest_places data hd hp hs, hempty, Nat.zero_add, Nat.zero_add] at hout
    rw [show out = _ from hout]
    refine ⟨hresult, hreplaced, fun hle => ?_, fun a b ha hb hlt => ⟨?_, ?_⟩⟩
    · have hsites : ∀ a, CreatesAt ∅ doc path a ↔
          CreatesAt {l | l ∈ skipped (doc.walk false path) gone} doc path a := fun a => by
        rw [createsAt_empty_iff, createsAt_skipped_iff h]
        exact and_iff_left_of_imp fun ha b => hle a b ha
      rw [sites_congr hsites]
      exact ⟨hdoc, hcreated⟩
    · have hnone : ∀ c, ¬ CreatesAt ∅ doc path c := by
        intro c hc
        obtain ⟨hready, hskips⟩ := createsAt_empty_iff.1 hc
        have hbc := hskips b hb
        have hca := ha.deepest c hready.barren
        omega
      rw [sites_eq_nil hnone]
      rfl
    · rw [show rest.state.created = _ from hcreated]
      exact created_pos h data ((createsAt_skipped_iff h).2 ha)

/-- One branch is created, in a mapping behind an element that is passed over; another such element
is not deeper. -/
theorem run_without_skipped_level :
    let data := Value.string "new"
    let doc := Value.mapping [("a", .mapping [("x", .sequence [.null])]),
      ("b", .mapping [("x", .sequence [.null, .mapping []])])]
    let out := Value.mapping [("a", .mapping [("x", .sequence [.null])]),
      ("b", .mapping [("x", .sequence [.null, .mapping [("y", data)]])])]
    ∃ path, KeyPath.parse "*.x.y" "." = .ok path ∧ doc.Distinct ∧
      (visitor.run false path doc { data }).doc = out ∧
      (visitor.run false path doc { data }).state.created = 1 ∧
      ∃ gone : Address → Bool, (∀ a, gone a = true ↔ doc.Skips path a) ∧
        (visitor.run false path (doc.without gone) { data }).doc = out.without gone ∧
        (visitor.run false path (doc.without gone) { data }).state.created = 1 := by
  intro data doc out
  obtain ⟨path, hpath, hout, hcreated⟩ := KeyPath.exists_parse "*.x.y" "."
    (fun p => (visitor.run false p doc { data }).doc = out ∧
      (visitor.run false p doc { data }).state.created = 1) (by decide +kernel)
  have hd : doc.Distinct := by decide
  obtain ⟨gone, hgone, -, -, hsame, hless⟩ := @run_without_skipped data doc path hd
  have hle : ∀ a b, Ready doc path a → doc.Skips path b →
      (Address.keys b).length ≤ (Address.keys a).length := by
    intro a b ha hb
    refine Nat.le_of_not_lt fun hlt => ?_
    have hzero := (hless a b ha hb hlt).1
    rw [hcreated] at hzero
    cases hzero
  obtain ⟨hdoc, hcount⟩ := hsame hle
  rw [hout] at hdoc
  exact ⟨path, hpath, hd, hout, hcreated, gone, hgone, hdoc, hcount.trans hcreated⟩

/-- An element that is passed over keeps an insert from creating a branch in a mapping elsewhere. -/
theorem creates_nothing_beside_skipped :
    let data := Value.string "new"
    let doc := Value.mapping [("a", .mapping [("x", .sequence [.null])]), ("b", .mapping [])]
    let place : Address := [.key "a", .key "x", .index 0]
    let rest := Value.mapping [("a", .mapping [("x", .sequence [])]), ("b", .mapping [])]
    ∃ path, KeyPath.parse "*.x.y" "." = .ok path ∧ (∀ a, doc.Skips path a ↔ a = place) ∧
      doc.without (· = place) = rest ∧
      (visitor.run false path doc { data }).doc = doc ∧
      (visitor.run false path doc { data }).state.created = 0 ∧
      (visitor.run false path rest { data }).doc =
        .mapping [("a", .mapping [("x", .sequence [])]),
          ("b", .mapping [("x", .mapping [("y", data)])])] ∧
      (visitor.run false path rest { data }).state.created = 1 := by
  intro data doc place rest
  obtain ⟨path, hpath, hp, hmisses, hruns⟩ := KeyPath.exists_parse "*.x.y" "."
    (fun p => p.hasNext ∧ (doc.walk false p).misses.map (·.parent) = [place, [.key "b"]] ∧
      (visitor.run false p doc { data }).doc = doc ∧
      (visitor.run false p doc { data }).state.created = 0 ∧
      (visitor.run false p rest { data }).doc =
        .mapping [("a", .mapping [("x", .sequence [])]),
          ("b", .mapping [("x", .mapping [("y", data)])])] ∧
      (visitor.run false p rest { data }).state.created = 1) (by decide +kernel)
  have hd : doc.Distinct := by decide
  have hs : (doc.walk false path).stop = none := Walk.stop_below_lenient
  refine ⟨path, hpath, fun a => ⟨fun ha => ?_, ?_⟩, rfl, hruns⟩
  · have hm : a ∈ (doc.walk false path).misses.map (·.parent) := List.mem_map.2
      ⟨⟨a, path.skip (Address.keys a).length⟩, (Walk.mem_misses_iff hd hp hs).2 ⟨rfl, .inl ha⟩, rfl⟩
    rw [hmisses, List.mem_cons, List.mem_singleton] at hm
    rcases hm with hm | rfl
    · exact hm
    · obtain ⟨v, hv, hnot⟩ := ha.node
      cases hv
      cases hnot
  · rintro rfl
    have hm : place ∈ (doc.walk false path).misses.map (·.parent) := by
      rw [hmisses]
      exact List.mem_cons_self
    obtain ⟨m, hm, hparent⟩ := List.mem_map.1 hm
    rcases ((Walk.mem_misses_iff hd hp hs).1 hm).2 with hskips | ⟨es, hv, -⟩
    · rwa [hparent] at hskips
    · have hnode := hv.node
      rw [hparent] at hnode
      cases hnode

end Insert

end YamlQuery

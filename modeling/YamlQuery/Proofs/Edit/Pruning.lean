import YamlQuery.Proofs.Document.Without
import YamlQuery.Proofs.Edit.DeadEnds

/-!
# Proofs.Edit.Pruning — walks through documents without the elements that are passed over

A walk that is not strict passes over the elements of sequences that are no mappings.  If they are
taken out of the document (`Walk.TakesSkipped`), the walk meets the same keys and the same mappings
at the addresses to which they have moved (`Walk.follows_walk`), and nothing is taken out at or below
a key where it ends or a barren mapping.
-/

namespace YamlQuery

/-- The entry in the mapping where it is once other nodes are taken out. -/
def Target.moved (gone : Address → Bool) (t : Target) : Target := ⟨t.parent.moved gone, t.key⟩

theorem Target.address_moved (gone : Address → Bool) (t : Target) :
    (t.moved gone).address = t.address.moved gone :=
  (Address.moved_child gone t.parent (.key t.key)).symm

def Missing.moved (gone : Address → Bool) (m : Missing) : Missing := ⟨m.parent.moved gone, m.path⟩

namespace Walk

/-! ### Two walks in step -/

/-- The second walk meets what the first does, but for the places that are taken out. -/
structure Follows (gone : Address → Bool) (w w' : Walk) : Prop where
  runs : w.stop = none
  runs' : w'.stop = none
  ends : w'.ends = w.ends.map (·.moved gone)
  levels : w'.levels = w.levels.map fun l => (l.1.moved gone, l.2)
  misses : w'.misses = (w.misses.filter fun m => !gone m.parent).map (·.moved gone)

namespace Follows

variable {gone : Address → Bool} {a b a' b' : Walk} {path : KeyPath} {parent : Address}
  {trail : List String} {k : String} {v : Value}

theorem empty : Follows gone {} {} := ⟨rfl, rfl, rfl, rfl, rfl⟩

theorem andThen (ha : Follows gone a a') (hb : Follows gone b b') :
    Follows gone (a.andThen b) (a'.andThen b') := by
  refine ⟨stop_andThen.2 ⟨ha.runs, hb.runs⟩, stop_andThen.2 ⟨ha.runs', hb.runs'⟩, ?_, ?_, ?_⟩
  · simp only [Walk.ends, events_andThen ha.runs, events_andThen ha.runs', List.filterMap_append,
      List.map_append]
    exact congrArg₂ _ ha.ends hb.ends
  · simp only [Walk.levels, events_andThen ha.runs, events_andThen ha.runs', List.filterMap_append,
      List.map_append]
    exact congrArg₂ _ ha.levels hb.levels
  · simp only [Walk.misses, events_andThen ha.runs, events_andThen ha.runs', List.filterMap_append,
      List.filter_append, List.map_append]
    exact congrArg₂ _ ha.misses hb.misses

/-- A place without a match, in a mapping that stays. -/
theorem miss (h : gone parent = false) (key key' : Option String) :
    Follows gone (single (.miss ⟨parent, key, path, trail⟩))
      (single (.miss ⟨parent.moved gone, key', path, trail⟩)) := by
  refine ⟨rfl, rfl, rfl, rfl, ?_⟩
  simp [Walk.misses, single, Event.missing?, h, Missing.moved]

theorem partly (v' : Value) :
    Follows gone (single (.partly ⟨parent, k, v, path, trail⟩))
      (single (.partly ⟨parent.moved gone, k, v', path, trail⟩)) := ⟨rfl, rfl, rfl, rfl, rfl⟩

theorem fully (v' : Value) :
    Follows gone { events := [.fully ⟨parent, k, v, path, trail⟩], matched := true }
      { events := [.fully ⟨parent.moved gone, k, v', path, trail⟩], matched := true } :=
  ⟨rfl, rfl, rfl, rfl, rfl⟩

/-- An element that is passed over and taken out. -/
theorem item (h : gone parent = true) : Follows gone (missItem false path parent trail v) {} := by
  refine ⟨rfl, rfl, rfl, rfl, ?_⟩
  simp [Walk.misses, missItem, Event.missing?, h]

end Follows

section Skipping

variable {doc : Value} {path : KeyPath} {gone : Address → Bool}

/-- The nodes that are taken out are the elements that the walk passes over. -/
structure TakesSkipped (doc : Value) (path : KeyPath) (gone : Address → Bool) : Prop where
  distinct : doc.Distinct
  hasNext : path.hasNext
  iff : ∀ a, gone a = true ↔ doc.Skips path a

namespace TakesSkipped

variable {a : Address} (h : TakesSkipped doc path gone)

include h

theorem key (a : Address) (k : String) : gone (a.child (.key k)) = false := by
  rw [← Bool.not_eq_true, h.iff]
  intro hskips
  obtain ⟨b, i, hb⟩ := hskips.element
  exact Address.child_key_ne_child_index hb

theorem mapping {v : Value} (hv : doc.get? a = some v) (hm : v.isMapping) : gone a = false := by
  rw [← Bool.not_eq_true, h.iff]
  intro hskips
  obtain ⟨u, hu, hnot⟩ := hskips.node
  rw [hv] at hu
  cases hu
  rw [hm] at hnot
  cases hnot

theorem index {p : KeyPath} {items : List Value} {i : Nat} {c : Value}
    (hr : Reaches path doc a p (.sequence items)) (hi : items[i]? = some c) :
    gone (a.child (.index i)) = !c.isMapping := by
  have hc : doc.get? (a.child (.index i)) = some c := by
    rw [Value.get?_child, hr.get? h.distinct]
    exact hi
  cases hm : c.isMapping with
  | true => exact h.mapping hc hm
  | false =>
    exact (h.iff _).2 ((Value.skips_iff h.distinct h.hasNext).2 ⟨a, p, items, i, c, hr, hi, hm, rfl⟩)

end TakesSkipped

/-- The rest of an address behind a child is the rest behind the step to it. -/
theorem append_child (gone : Address → Bool) (a : Address) (s : Step) :
    (fun b => gone (a ++ s :: b)) = fun b => gone (a.child s ++ b) := by
  simp [Address.child]

mutual

/-- Below a node that the walk gets to. -/
theorem follows_below (h : TakesSkipped doc path gone) :
    ∀ (v : Value) {p : KeyPath} {a : Address} (trail : List String), Reaches path doc a p v →
      Follows gone (below false p a trail v)
        (below false p (a.moved gone) trail (v.without fun b => gone (a ++ b)))
  | .null, _, _, _, _ | .boolean _, _, _, _, _ | .number _, _, _, _, _ | .string _, _, _, _, _ =>
    .empty
  | .sequence items, p, a, trail, hr => by
    refine follows_elements h items 0 trail fun i c hi => ?_
    rw [Nat.zero_add]
    exact ⟨h.index hr hi, fun hc => hr.trans (.element hi hc (.here _ _))⟩
  | .mapping [], p, a, trail, hr => .miss (h.mapping (hr.get? h.distinct) rfl) none none
  | .mapping ((k, v) :: es), p, a, trail, hr => by
    have hentries := follows_entries h ((k, v) :: es) trail (h.mapping (hr.get? h.distinct) rfl)
      fun l c hm hk hc hn => hr.trans (.entry hm hk hc hn (.here _ _))
    show Follows gone (entries false p a trail ((k, v) :: es)) (below false p (a.moved gone) trail
      (.mapping (Value.withoutEntries (fun b => gone (a ++ b)) ((k, v) :: es))))
    rw [Value.withoutEntries, show gone (a ++ [.key k]) = false from h.key a k,
      if_neg Bool.false_ne_true] at hentries ⊢
    exact hentries

/-- Through entries of a mapping that the walk gets to. -/
theorem follows_entries (h : TakesSkipped doc path gone) :
    ∀ (es : List (String × Value)) {p : KeyPath} {a : Address} (trail : List String),
      gone a = false →
      (∀ k c, (k, c) ∈ es → p.isMatch k → c.isContainer → p.advanced.hasNext →
        Reaches path doc (a.child (.key k)) p.advanced c) →
      Follows gone (entries false p a trail es)
        (entries false p (a.moved gone) trail (Value.withoutEntries (fun b => gone (a ++ b)) es))
  | [], _, _, _, _, _ => .empty
  | (k, v) :: es, p, a, trail, ha, hes => by
    have ih := follows_entries h es trail ha fun l c hm => hes l c (List.mem_cons_of_mem _ hm)
    rw [Value.withoutEntries, show gone (a ++ [.key k]) = false from h.key a k,
      if_neg Bool.false_ne_true, entries, entries, Value.isContainer_without]
    refine Follows.andThen ?_ ih
    cases hk : p.isMatch k with
    | false => exact .miss ha _ _
    | true =>
      cases hn : v.isContainer && p.advanced.hasNext with
      | false => exact .fully _
      | true =>
        obtain ⟨hc, hnext⟩ := Bool.and_eq_true_iff.1 hn
        have hv := follows_below h v (trail ++ [k]) (hes k v List.mem_cons_self hk hc hnext)
        rw [Address.moved_child_key, ← append_child] at hv
        exact (Follows.partly _).andThen hv

/-- Through elements of a sequence that the walk gets to, from an index on. -/
theorem follows_elements (h : TakesSkipped doc path gone) :
    ∀ (items : List Value) (n : Nat) {p : KeyPath} {a : Address} (trail : List String),
      (∀ i c, items[i]? = some c → gone (a.child (.index (n + i))) = !c.isMapping ∧
        (c.isMapping → Reaches path doc (a.child (.index (n + i))) p c)) →
      Follows gone (elements false p a trail n items)
        (elements false p (a.moved gone) trail
          ((List.range n).countP fun j => !gone (a ++ [.index j]))
          (Value.withoutItems (fun b => gone (a ++ b)) n items))
  | [], _, _, _, _, _ => .empty
  | v :: vs, n, p, a, trail, hitems => by
    obtain ⟨hgone, hreaches⟩ : gone (a ++ [.index n]) = !v.isMapping ∧
        (v.isMapping → Reaches path doc (a.child (.index n)) p v) := hitems 0 v rfl
    have ih := follows_elements h vs (n + 1) (p := p) (a := a) trail fun i c hi => by
      rw [Nat.add_assoc, Nat.add_comm 1]
      exact hitems (i + 1) c hi
    rw [List.range_succ, List.countP_append, List.countP_singleton, hgone] at ih
    rw [Value.withoutItems, hgone, elements]
    cases hv : v.isMapping with
    | false =>
      rw [hv] at hgone ih
      exact (Follows.item hgone).andThen ih
    | true =>
      rw [hv] at ih
      have hv' := follows_below h v trail (hreaches hv)
      rw [Address.moved_child, ← append_child] at hv'
      rw [if_neg (show ¬ (!true) = true by decide), elements, Value.isMapping_without, hv]
      exact hv'.andThen ih

end

/-- **In step.**  Without the elements that are passed over the walk meets the same keys. -/
theorem follows_walk (h : TakesSkipped doc path gone) :
    Follows gone (doc.walk false path) ((doc.without gone).walk false path) :=
  follows_below h doc [] (.here path doc)

theorem matched_without (h : TakesSkipped doc path gone) :
    ((doc.without gone).walk false path).matched = (doc.walk false path).matched := by
  have hends : ((doc.without gone).walk false path).ends ≠ [] ↔ (doc.walk false path).ends ≠ [] := by
    rw [(follows_walk h).ends, Ne, List.map_eq_nil_iff]
  rw [Bool.eq_iff_iff]
  exact matched_iff.trans (hends.trans matched_iff.symm)

end Skipping

/-! ### What stays -/

namespace TakesSkipped

variable {doc : Value} {path : KeyPath} {gone : Address → Bool} {a : Address}
  (h : TakesSkipped doc path gone)

include h

theorem kept {v : Value} (hs : a.Sparse) (hal : path.Along a.keys) (hv : doc.get? a = some v)
    (ha : gone a = false) : a.Kept gone := by
  refine Address.kept_of_forall fun b hb hba => ?_
  have hdead : doc.DeadEnd path b := .inr ((h.iff b).1 hb)
  rw [hdead.eq_of_prefix hs hal hv hba, ha] at hb
  cases hb

theorem kept_of_visits {es : Entries Value} (hv : doc.Visits path a es) : a.Kept gone :=
  h.kept hv.sparse hv.along hv.node (h.mapping hv.node rfl)

theorem kept_of_barren (ha : doc.Barren path a) : a.Kept gone := by
  obtain ⟨es, hv, -⟩ := ha
  exact h.kept_of_visits hv

theorem kept_of_ends {t : Target} (ht : doc.Ends path t) : t.address.Kept gone := by
  obtain ⟨v, hv⟩ := ht.exists_get?
  exact h.kept ht.sparse_address (t.keys_address ▸ ht.along) hv (h.key _ _)

/-- Nothing is taken out below a barren mapping. -/
theorem below_barren (ha : doc.Barren path a) (b : Address) : gone (a ++ b) = false := by
  rw [← Bool.not_eq_true, h.iff]
  intro hskips
  obtain ⟨v, hv, -⟩ := id hskips.node
  have hdead : doc.DeadEnd path a := .inl ha
  have heq := hdead.eq_of_prefix hskips.sparse hskips.along hv (List.prefix_append a b)
  obtain ⟨es, hvisits, -⟩ := ha
  rw [← heq, ← h.iff, h.mapping hvisits.node rfl] at hskips
  cases hskips

/-- Nothing is taken out of the value of a key where the walk ends. -/
theorem below_ends {t : Target} (ht : doc.Ends path t) (b : Address) :
    gone (t.address ++ b) = false := by
  rw [← Bool.not_eq_true, h.iff]
  exact fun hskips => ht.not_prefix (.inr hskips) (List.prefix_append t.address b)

/-- A place without a match that stays is in a mapping that the walk visits. -/
theorem exists_visits {m : Missing} (hm : m ∈ (doc.walk false path).misses)
    (hg : gone m.parent = false) : ∃ es, doc.Visits path m.parent es := by
  obtain ⟨-, hskips | ⟨es, hv, -⟩⟩ :=
    (Walk.mem_misses_iff h.distinct h.hasNext (follows_walk h).runs).1 hm
  · rw [← h.iff, hg] at hskips
    cases hskips
  · exact ⟨es, hv⟩

end TakesSkipped

end Walk

end YamlQuery

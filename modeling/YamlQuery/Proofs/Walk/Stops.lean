import YamlQuery.Proofs.Walk.Matches

/-!
# Proofs.Walk.Stops — where a walk stops, and how it begins

A walk that stops has met the element of a sequence that it stops at (`exists_item_of_stop`).  And
whatever a walk meets below its first mappings, it has met a key that leads there before
(`Walk.first_events`).
-/

namespace YamlQuery

variable {strict : Bool} {path : KeyPath} {parent : Address} {trail : List String} {e : Event}

/-- A walk that stops has met an element of a sequence that is no mapping. -/
theorem exists_item_of_stop {v : Value} :
    (Walk.below strict path parent trail v).stop ≠ none →
      ∃ a p items i c, Reaches path v a p (.sequence items) ∧ items[i]? = some c ∧
        c.isMapping = false ∧
        .miss ⟨(parent ++ a).child (.index i), none, p, trail ++ Address.keys a⟩ ∈
          (Walk.below strict path parent trail v).events := by
  induction v using Value.induct generalizing path parent trail with
  | scalar v hv =>
    rw [Walk.below_scalar strict path parent trail hv]
    exact fun h => absurd rfl h
  | sequence items ih =>
    rw [Walk.below_sequence]
    intro h
    obtain ⟨w, hw, hstop, hsub⟩ := Walk.exists_first_stop h
    obtain ⟨⟨c, i⟩, hi, rfl⟩ := List.mem_map.1 hw
    have hi : items[i]? = some c := List.mem_zipIdx_iff_getElem?.1 hi
    cases hc : c.isMapping with
    | true =>
      rw [Walk.element_mapping strict parent trail hc] at hstop hsub
      obtain ⟨a, p, items', j, d, hr, hj, hd, he⟩ := ih c (List.mem_of_getElem? hi) hstop
      refine ⟨.index i :: a, p, items', j, d, .element hi hc hr, hj, hd, hsub ?_⟩
      simpa [Address.child] using he
    | false =>
      refine ⟨[], path, items, i, c, .here path _, hi, hc, hsub ?_⟩
      rw [Walk.element_other strict parent trail hc]
      simp [Walk.missItem, Address.keys]
  | mapping es ih =>
    by_cases hes : es = []
    · subst hes
      exact fun h => absurd rfl h
    · rw [Walk.below_mapping strict path parent trail hes]
      intro h
      obtain ⟨w, hw, hstop, hsub⟩ := Walk.exists_first_stop h
      obtain ⟨⟨k, c⟩, hm, rfl⟩ := List.mem_map.1 hw
      cases Walk.atEntry path k c with
      | differs hk =>
        rw [Walk.entry_differs strict parent trail hk] at hstop
        exact absurd rfl hstop
      | leads hk hc hn =>
        rw [Walk.entry_leads strict parent trail hk hc hn] at hstop hsub
        have hbelow : (Walk.below strict path.advanced (parent.child (.key k)) (trail ++ [k])
            c).stop ≠ none := fun hs => hstop (Walk.stop_andThen.2 ⟨rfl, hs⟩)
        obtain ⟨a, p, items', j, d, hr, hj, hd, he⟩ := ih (k, c) hm hbelow
        refine ⟨.key k :: a, p, items', j, d, .entry hm hk hc hn hr, hj, hd, hsub ?_⟩
        rw [Walk.events_andThen rfl]
        exact List.mem_append_right _ (by simpa [Address.child] using he)
      | ends hk hn =>
        rw [Walk.entry_ends strict parent trail hk hn] at hstop
        exact absurd rfl hstop

namespace Walk

/-- What a walk meets in a mapping comes after a key of the mapping that matches, unless it is a key
that does not, or the mapping is empty. -/
theorem first_events_mapping {es : List (String × Value)}
    (h : e ∈ (below strict path parent trail (.mapping es)).events) :
    (∃ g, e = .miss g ∧ g.path = path ∧ g.parent = parent) ∨
      ∃ site, (.partly site ∈ (below strict path parent trail (.mapping es)).events ∨
        .fully site ∈ (below strict path parent trail (.mapping es)).events) ∧
        site.path = path ∧ site.parent = parent := by
  by_cases hes : es = []
  · subst hes
    obtain rfl : e = _ := List.mem_singleton.1 h
    exact .inl ⟨_, rfl, rfl, rfl⟩
  · rw [below_mapping strict path parent trail hes] at h ⊢
    obtain ⟨w, hw, he, hsub⟩ := exists_of_mem_events_join h
    obtain ⟨⟨k, c⟩, -, rfl⟩ := List.mem_map.1 hw
    rcases mem_events_entry.1 he with ⟨-, rfl⟩ | ⟨hk, hc, hn, -⟩ | ⟨hk, hn, rfl⟩
    · exact .inl ⟨_, rfl, rfl, rfl⟩
    · refine .inr ⟨⟨parent, k, c, path, trail ++ [k]⟩, .inl (hsub ?_), rfl, rfl⟩
      exact mem_events_entry.2 (.inr (.inl ⟨hk, hc, hn, .inl rfl⟩))
    · exact .inr ⟨_, .inr (hsub he), rfl, rfl⟩

/-- An address that no key leads to: that of the document, or of an element of it. -/
def Top (a : Address) : Prop := a = [] ∨ ∃ i, a = [.index i]

theorem Top.keys {a : Address} (h : Top a) : Address.keys a = [] := by
  rcases h with rfl | ⟨i, rfl⟩ <;> rfl

/-- What a walk meets in a document comes after a key of one of its first mappings that matches,
unless it is a place in these without a match. -/
theorem first_events {doc : Value} (h : e ∈ (doc.walk strict path).events) :
    (∃ g, e = .miss g ∧ g.path = path ∧ Top g.parent) ∨
      ∃ site, (.partly site ∈ (doc.walk strict path).events ∨
        .fully site ∈ (doc.walk strict path).events) ∧ site.path = path ∧ Top site.parent := by
  cases doc with
  | mapping es =>
    rcases first_events_mapping h with ⟨g, he, hpath, hparent⟩ | ⟨site, hsite, hpath, hparent⟩
    · exact .inl ⟨g, he, hpath, .inl hparent⟩
    · exact .inr ⟨site, hsite, hpath, .inl hparent⟩
  | sequence items =>
    rw [Value.walk, below_sequence] at h ⊢
    obtain ⟨w, hw, he, hsub⟩ := exists_of_mem_events_join h
    obtain ⟨⟨c, i⟩, -, rfl⟩ := List.mem_map.1 hw
    cases c with
    | mapping es =>
      rw [element_mapping strict _ _ rfl] at he hsub
      rcases first_events_mapping he with ⟨g, he, hpath, hparent⟩ | ⟨site, hsite, hpath, hparent⟩
      · exact .inl ⟨g, he, hpath, .inr ⟨i, hparent⟩⟩
      · exact .inr ⟨site, hsite.imp (hsub ·) (hsub ·), hpath, .inr ⟨i, hparent⟩⟩
    | _ =>
      rw [element_other strict _ _ rfl] at he
      obtain rfl : e = _ := List.mem_singleton.1 he
      exact .inl ⟨_, rfl, rfl, .inr ⟨i, rfl⟩⟩
  | _ => simp [Value.walk, below] at h

end Walk

end YamlQuery

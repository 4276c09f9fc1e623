import YamlQuery.Proofs.Document.Nodes

/-!
# Proofs.Document.Without — documents with some nodes taken out

`Value.without` takes entries of mappings and elements of sequences out of a document, all that are
at the addresses of a given set, and leaves the order of the others as it is.

What stays is found again: `Address.Kept` says that neither a node nor any node above it is taken
out, `Address.moved` is where the node is afterwards, since the elements behind one that is taken
out move up (`Value.get?_without`, `Value.modify?_without`).  If only entries are taken out
(`OnlyEntries`), nothing moves, and taking out some entries and then others is taking out all of them
at once (`Value.without_without`).
-/

namespace YamlQuery

namespace Value

mutual

/-- The document without the nodes at some addresses below its root. -/
def without (gone : Address → Bool) : Value → Value
  | .null => .null
  | .boolean b => .boolean b
  | .number n => .number n
  | .string s => .string s
  | .sequence items => .sequence (withoutItems gone 0 items)
  | .mapping entries => .mapping (withoutEntries gone entries)

/-- The elements of a sequence, from an index on, that are not at one of the addresses. -/
def withoutItems (gone : Address → Bool) (index : Nat) : List Value → List Value
  | [] => []
  | v :: vs =>
    if gone [.index index] then withoutItems gone (index + 1) vs
    else (v.without fun a => gone (.index index :: a)) :: withoutItems gone (index + 1) vs

/-- The entries of a mapping that are not at one of the addresses. -/
def withoutEntries (gone : Address → Bool) : List (String × Value) → List (String × Value)
  | [] => []
  | (k, v) :: es =>
    if gone [.key k] then withoutEntries gone es
    else (k, v.without fun a => gone (.key k :: a)) :: withoutEntries gone es

end

end Value

/-- The step to a child once others are taken out: the elements behind them move up. -/
def Step.moved (gone : Address → Bool) : Step → Step
  | .key k => .key k
  | .index i => .index ((List.range i).countP fun j => !gone [.index j])

namespace Step

variable {gone : Address → Bool} {s t : Step}

/-- An element that stays counts for those behind it. -/
theorem countP_range_lt {i j : Nat} (hij : i < j) (hi : gone [.index i] = false) :
    (List.range i).countP (fun n => !gone [.index n]) <
      (List.range j).countP fun n => !gone [.index n] := by
  have hsucc : (List.range (i + 1)).countP (fun n => !gone [.index n]) =
      (List.range i).countP (fun n => !gone [.index n]) + 1 := by
    rw [List.range_succ, List.countP_append]
    simp [hi]
  have hmono : (List.range (i + 1)).countP (fun n => !gone [.index n]) ≤
      (List.range j).countP fun n => !gone [.index n] :=
    (List.range_sublist.2 hij).countP_le
  omega

/-- Steps to children that stay do not become one step. -/
theorem moved_inj (hs : gone [s] = false) (ht : gone [t] = false)
    (h : s.moved gone = t.moved gone) : s = t := by
  cases s with
  | key k =>
    cases t with
    | key l => exact h
    | index j => cases h
  | index i =>
    cases t with
    | key l => cases h
    | index j =>
      have hcount := Step.index.inj h
      rcases Nat.lt_trichotomy i j with hij | rfl | hij
      · exact absurd hcount (Nat.ne_of_lt (countP_range_lt hij hs))
      · rfl
      · exact absurd hcount.symm (Nat.ne_of_lt (countP_range_lt hij ht))

end Step

namespace Address

variable {gone : Address → Bool} {a b : Address} {s : Step}

/-- The address of a node once others are taken out. -/
def moved (gone : Address → Bool) : Address → Address
  | [] => []
  | s :: a => s.moved gone :: moved (fun b => gone (s :: b)) a

theorem moved_append (gone : Address → Bool) (a b : Address) :
    (a ++ b).moved gone = a.moved gone ++ b.moved fun c => gone (a ++ c) := by
  induction a generalizing gone with
  | nil => rfl
  | cons s a ih => simp only [List.cons_append, moved, ih]

theorem moved_child (gone : Address → Bool) (a : Address) (s : Step) :
    (a.child s).moved gone = (a.moved gone).child (s.moved fun b => gone (a ++ b)) :=
  moved_append gone a [s]

theorem moved_child_key (gone : Address → Bool) (a : Address) (k : String) :
    (a.child (.key k)).moved gone = (a.moved gone).child (.key k) := moved_child gone a (.key k)

/-- Neither the node at the address nor any node above it, the root apart, is taken out. -/
def Kept (gone : Address → Bool) (a : Address) : Prop := ∀ b, b ≠ [] → b <+: a → gone b = false

theorem kept_nil : Kept gone [] := fun _ hne hb => absurd (List.prefix_nil.1 hb) hne

theorem kept_cons : Kept gone (s :: a) ↔ gone [s] = false ∧ Kept (fun b => gone (s :: b)) a := by
  constructor
  · intro h
    refine ⟨h [s] (by simp) ⟨a, rfl⟩, fun b _ hb => h (s :: b) (by simp) ?_⟩
    exact List.cons_prefix_cons.2 ⟨rfl, hb⟩
  · rintro ⟨hs, ha⟩ b hne hb
    obtain ⟨t, b, rfl⟩ := List.exists_cons_of_ne_nil hne
    obtain ⟨rfl, hba⟩ := List.cons_prefix_cons.1 hb
    by_cases hnil : b = []
    · rw [hnil]
      exact hs
    · exact ha b hnil hba

theorem kept_or {g h : Address → Bool} :
    Kept (fun b => g b || h b) a ↔ Kept g a ∧ Kept h a := by
  simp only [Kept, Bool.or_eq_false_iff, forall_and]

theorem Kept.of_prefix (h : Kept gone b) (hab : a <+: b) : Kept gone a :=
  fun c hne hc => h c hne (hc.trans hab)

/-- An address is kept if nothing above it, nor itself, is taken out. -/
theorem kept_of_forall (h : ∀ b, gone b = true → ¬ b <+: a) : Kept gone a := by
  intro b _ hb
  cases hgone : gone b with
  | true => exact absurd hb (h b hgone)
  | false => rfl

/-- Nodes that stay do not move to one address. -/
theorem moved_inj (ha : a.Kept gone) (hb : b.Kept gone) (h : a.moved gone = b.moved gone) :
    a = b := by
  induction a generalizing gone b with
  | nil =>
    cases b with
    | nil => rfl
    | cons t b => cases h
  | cons s a ih =>
    cases b with
    | nil => cases h
    | cons t b =>
      obtain ⟨hs, ha⟩ := kept_cons.1 ha
      obtain ⟨ht, hb⟩ := kept_cons.1 hb
      obtain ⟨hstep, hrest⟩ := List.cons.inj h
      obtain rfl := Step.moved_inj hs ht hstep
      rw [ih ha hb hrest]

end Address

namespace Value

variable {gone : Address → Bool} {v c : Value} {s : Step} {a b : Address}

/-! ### Items and entries that stay -/

theorem withoutEntries_eq (gone : Address → Bool) (es : Entries Value) :
    withoutEntries gone es = es.filterMap fun e =>
      if gone [.key e.1] then none else some (e.1, e.2.without fun a => gone (.key e.1 :: a)) := by
  induction es with
  | nil => rfl
  | cons e es ih =>
    obtain ⟨k, v⟩ := e
    rw [withoutEntries, ih, List.filterMap_cons]
    by_cases h : gone [.key k] = true
    · simp [h]
    · simp [h]

theorem mem_withoutEntries {es : Entries Value} {k : String} {d : Value} :
    (k, d) ∈ withoutEntries gone es ↔
      ∃ c, (k, c) ∈ es ∧ gone [.key k] = false ∧ d = c.without fun a => gone (.key k :: a) := by
  rw [withoutEntries_eq, List.mem_filterMap]
  constructor
  · rintro ⟨⟨l, c⟩, hm, h⟩
    by_cases hl : gone [.key l] = true
    · simp [hl] at h
    · simp only [hl, Bool.false_eq_true, if_false, Option.some.injEq, Prod.mk.injEq] at h
      obtain ⟨rfl, rfl⟩ := h
      exact ⟨c, hm, by simpa using hl, rfl⟩
  · rintro ⟨c, hm, hk, rfl⟩
    exact ⟨(k, c), hm, by simp [hk]⟩

theorem keys_withoutEntries (gone : Address → Bool) (es : Entries Value) :
    Entries.keys (withoutEntries gone es) = (Entries.keys es).filter fun k => !gone [.key k] := by
  induction es with
  | nil => rfl
  | cons e es ih =>
    obtain ⟨k, v⟩ := e
    rw [withoutEntries]
    by_cases h : gone [.key k] = true
    · simpa [h, Entries.keys] using ih
    · simpa [h, Entries.keys] using ih

theorem get?_withoutEntries {k : String} (h : gone [.key k] = false) (es : Entries Value) :
    Entries.get? k (withoutEntries gone es) =
      (Entries.get? k es).map (·.without fun a => gone (.key k :: a)) := by
  induction es with
  | nil => rfl
  | cons e es ih =>
    obtain ⟨l, v⟩ := e
    rw [withoutEntries]
    by_cases hl : l = k
    · subst hl
      simp [h, Entries.get?]
    · by_cases hgone : gone [.key l] = true
      · simpa [hgone, Entries.get?, hl] using ih
      · simpa [hgone, Entries.get?, hl] using ih

theorem exists_of_mem_withoutItems {d : Value} : ∀ {items : List Value} {n : Nat},
    d ∈ withoutItems gone n items → ∃ c ∈ items, ∃ g, d = c.without g
  | v :: vs, n, h => by
    rw [withoutItems] at h
    have hvs : d ∈ withoutItems gone (n + 1) vs → ∃ c ∈ v :: vs, ∃ g, d = c.without g := by
      intro hd
      obtain ⟨c, hc, g, hcg⟩ := exists_of_mem_withoutItems hd
      exact ⟨c, List.mem_cons_of_mem v hc, g, hcg⟩
    by_cases hn : gone [.index n] = true
    · rw [if_pos hn] at h
      exact hvs h
    · rw [if_neg hn] at h
      rcases List.mem_cons.1 h with rfl | h
      · exact ⟨v, List.mem_cons_self, _, rfl⟩
      · exact hvs h

theorem put_withoutEntries {k : String} (h : gone [.key k] = false) (c : Value)
    (es : Entries Value) : withoutEntries gone (Entries.put k c es) =
      Entries.put k (c.without fun a => gone (.key k :: a)) (withoutEntries gone es) := by
  induction es with
  | nil => simp [Entries.put, withoutEntries, h]
  | cons e es ih =>
    obtain ⟨l, v⟩ := e
    by_cases hl : l = k
    · subst hl
      simp [Entries.put, withoutEntries, h]
    · by_cases hgone : gone [.key l] = true
      · simpa [Entries.put, withoutEntries, hl, hgone] using ih
      · simpa [Entries.put, withoutEntries, hl, hgone] using ih

theorem getElem?_withoutItems :
    ∀ (items : List Value) {n i : Nat}, gone [.index (n + i)] = false →
      (withoutItems gone n items)[(List.range' n i).countP fun j => !gone [.index j]]? =
        items[i]?.map (·.without fun a => gone (.index (n + i) :: a))
  | [], _, _, _ => by simp [withoutItems]
  | v :: vs, n, 0, h => by
    have h : gone [.index n] = false := h
    simp [withoutItems, h]
  | v :: vs, n, i + 1, h => by
    have hi : n + (i + 1) = n + 1 + i := by omega
    rw [hi] at h ⊢
    have ih := getElem?_withoutItems vs h
    rw [withoutItems, List.range'_succ, List.countP_cons]
    by_cases hn : gone [.index n] = true
    · simpa [hn] using ih
    · simpa [hn] using ih

theorem set_withoutItems (c : Value) :
    ∀ (items : List Value) {n i : Nat}, gone [.index (n + i)] = false →
      withoutItems gone n (items.set i c) =
        (withoutItems gone n items).set ((List.range' n i).countP fun j => !gone [.index j])
          (c.without fun a => gone (.index (n + i) :: a))
  | [], _, _, _ => by simp [withoutItems]
  | v :: vs, n, 0, h => by
    have h : gone [.index n] = false := h
    simp [withoutItems, h]
  | v :: vs, n, i + 1, h => by
    have hi : n + (i + 1) = n + 1 + i := by omega
    rw [hi] at h ⊢
    have ih := set_withoutItems c vs h
    rw [List.set_cons_succ, withoutItems, withoutItems, List.range'_succ, List.countP_cons, ih]
    by_cases hn : gone [.index n] = true
    · simp [hn]
    · simp [hn]

/-! ### Children and nodes that stay -/

@[simp] theorem isMapping_without (gone : Address → Bool) (v : Value) :
    (v.without gone).isMapping = v.isMapping := by
  cases v <;> rfl

@[simp] theorem isContainer_without (gone : Address → Bool) (v : Value) :
    (v.without gone).isContainer = v.isContainer := by
  cases v <;> rfl

@[simp] theorem isScalar_without (gone : Address → Bool) (v : Value) :
    (v.without gone).isScalar = v.isScalar := by
  cases v <;> rfl

theorem without_scalar (gone : Address → Bool) (h : v.isScalar) : v.without gone = v := by
  cases v <;> first | rfl | cases h

theorem child?_without (h : gone [s] = false) (v : Value) :
    (v.without gone).child? (s.moved gone) =
      (v.child? s).map (·.without fun a => gone (s :: a)) := by
  cases s with
  | key k =>
    cases v with
    | mapping es => exact get?_withoutEntries h es
    | _ => rfl
  | index i =>
    cases v with
    | sequence items =>
      have h0 : gone [.index (0 + i)] = false := by simpa using h
      have hget := getElem?_withoutItems items h0
      simpa [without, child?, Step.moved, List.range_eq_range'] using hget
    | _ => rfl

theorem setChild_without (h : gone [s] = false) (v c : Value) :
    (v.setChild s c).without gone =
      (v.without gone).setChild (s.moved gone) (c.without fun a => gone (s :: a)) := by
  cases s with
  | key k =>
    cases v with
    | mapping es => exact congrArg mapping (put_withoutEntries h c es)
    | _ => rfl
  | index i =>
    cases v with
    | sequence items =>
      have h0 : gone [.index (0 + i)] = false := by simpa using h
      have hset := set_withoutItems c items h0
      simpa [without, setChild, Step.moved, List.range_eq_range'] using hset
    | _ => rfl

theorem get?_without (h : a.Kept gone) (v : Value) :
    (v.without gone).get? (a.moved gone) = (v.get? a).map (·.without fun b => gone (a ++ b)) := by
  induction a generalizing gone v with
  | nil => simp [Address.moved]
  | cons s a ih =>
    obtain ⟨hs, ha⟩ := Address.kept_cons.1 h
    rw [Address.moved, get?_cons, get?_cons, child?_without hs]
    cases v.child? s with
    | none => rfl
    | some c => exact ih ha c

/-- A change of a node that stays, where it has moved to. -/
theorem modify?_without {f g : Value → Value} (h : a.Kept gone)
    (hfg : ∀ u, (f u).without (fun b => gone (a ++ b)) = g (u.without fun b => gone (a ++ b)))
    (v : Value) :
    (v.without gone).modify? g (a.moved gone) = (v.modify? f a).map (·.without gone) := by
  induction a generalizing gone v with
  | nil => simpa [Address.moved] using (hfg v).symm
  | cons s a ih =>
    obtain ⟨hs, ha⟩ := Address.kept_cons.1 h
    rw [Address.moved, modify?_cons, modify?_cons, child?_without hs]
    cases v.child? s with
    | none => rfl
    | some c =>
      simp only [Option.map_some, Option.bind_some, ih ha hfg c, Option.map_map]
      refine Option.map_congr fun d _ => ?_
      exact (setChild_without hs v d).symm

theorem withoutEntries_append_of_gone {k : String} (h : gone [.key k] = true) (es : Entries Value)
    (v : Value) : withoutEntries gone (es ++ [(k, v)]) = withoutEntries gone es := by
  rw [withoutEntries_eq, withoutEntries_eq, List.filterMap_append]
  simp [h]

/-! ### What is taken out matters, not how it is said -/

mutual

/-- A document from which nothing is taken out stays as it is. -/
theorem without_of_forall : ∀ (v : Value) {gone : Address → Bool}, (∀ a, gone a = false) →
    v.without gone = v
  | .null, _, _ | .boolean _, _, _ | .number _, _, _ | .string _, _, _ => rfl
  | .sequence items, _, h => congrArg sequence (withoutItems_of_forall items 0 fun _ _ _ => h _)
  | .mapping es, _, h => congrArg mapping (withoutEntries_of_forall es fun _ _ _ => h _)

theorem withoutItems_of_forall : ∀ (items : List Value) (n : Nat) {gone : Address → Bool},
    (∀ i, n ≤ i → ∀ a, gone (.index i :: a) = false) → withoutItems gone n items = items
  | [], _, _, _ => rfl
  | v :: vs, n, gone, h => by
    have hv := without_of_forall v (h n (Nat.le_refl n))
    have hvs := withoutItems_of_forall vs (n + 1) fun i hi => h i (Nat.le_of_succ_le hi)
    rw [withoutItems, h n (Nat.le_refl n) [], if_neg Bool.false_ne_true, hv, hvs]

theorem withoutEntries_of_forall : ∀ (es : List (String × Value)) {gone : Address → Bool},
    (∀ k ∈ Entries.keys es, ∀ a, gone (.key k :: a) = false) → withoutEntries gone es = es
  | [], _, _ => rfl
  | (k, v) :: es, gone, h => by
    have hk := h k List.mem_cons_self
    have hes := withoutEntries_of_forall es fun l hl => h l (List.mem_cons_of_mem k hl)
    rw [withoutEntries, hk [], if_neg Bool.false_ne_true, without_of_forall v hk, hes]

end

mutual

/-- Where nothing is to be taken out, the document stays as it is. -/
theorem Distinct.without_of_absent : ∀ {v : Value} {gone : Address → Bool}, v.Distinct →
    (∀ a, gone a = true → v.get? a = none) → v.without gone = v
  | .null, _, _, _ | .boolean _, _, _, _ | .number _, _, _, _ | .string _, _, _, _ => rfl
  | .sequence items, _, hd, h => by
    refine congrArg sequence (withoutItems_of_absent 0 hd fun i c hc a ha => ?_)
    have hnone := h _ ha
    rwa [get?_cons, child?, Nat.zero_add, hc] at hnone
  | .mapping es, _, hd, h => by
    refine congrArg mapping (withoutEntries_of_absent hd.2 fun k c hc a ha => ?_)
    have hnone := h _ ha
    rwa [get?_cons, child?, (Entries.get?_eq_some_iff hd.1).2 hc] at hnone

theorem withoutItems_of_absent : ∀ {items : List Value} (n : Nat) {gone : Address → Bool},
    DistinctItems items →
      (∀ i c, items[i]? = some c → ∀ a, gone (.index (n + i) :: a) = true → c.get? a = none) →
        withoutItems gone n items = items
  | [], _, _, _, _ => rfl
  | v :: vs, n, gone, hd, h => by
    have hn : gone [.index n] ≠ true := fun hn => by simpa using h 0 v rfl [] hn
    have hv : (v.without fun a => gone (.index n :: a)) = v :=
      Distinct.without_of_absent hd.1 (h 0 v rfl)
    have hvs : withoutItems gone (n + 1) vs = vs :=
      withoutItems_of_absent (n + 1) hd.2 fun i c hc a ha =>
        h (i + 1) c (by simpa using hc) a (by rwa [← Nat.add_assoc, Nat.add_right_comm])
    rw [withoutItems, if_neg hn, hv, hvs]

theorem withoutEntries_of_absent : ∀ {es : List (String × Value)} {gone : Address → Bool},
    DistinctEntries es →
      (∀ k c, (k, c) ∈ es → ∀ a, gone (.key k :: a) = true → c.get? a = none) →
        withoutEntries gone es = es
  | [], _, _, _ => rfl
  | (k, v) :: es, gone, hd, h => by
    have hk : gone [.key k] ≠ true := fun hk => by simpa using h k v List.mem_cons_self [] hk
    have hv : (v.without fun a => gone (.key k :: a)) = v :=
      Distinct.without_of_absent hd.1 (h k v List.mem_cons_self)
    have hes : withoutEntries gone es = es :=
      withoutEntries_of_absent hd.2 fun l c hc => h l c (List.mem_cons_of_mem _ hc)
    rw [withoutEntries, if_neg hk, hv, hes]

end

theorem withoutItems_eq_set : ∀ {items : List Value} {n i : Nat}, items[i]? = some c →
    gone [.index (n + i)] = false → (∀ j, j ≠ n + i → ∀ a, gone (.index j :: a) = false) →
      withoutItems gone n items = items.set i (c.without fun a => gone (.index (n + i) :: a))
  | v :: vs, n, 0, hc, hs, ho => by
    obtain rfl : v = c := by simpa using hc
    have hvs : withoutItems gone (n + 1) vs = vs :=
      withoutItems_of_forall vs (n + 1) fun j hj => ho j (by omega)
    have hs : gone [.index n] = false := hs
    rw [withoutItems, hs, if_neg Bool.false_ne_true, hvs]
    rfl
  | v :: vs, n, i + 1, hc, hs, ho => by
    have hi : n + (i + 1) = n + 1 + i := by omega
    rw [hi] at hs ho ⊢
    have hn := ho n (by omega)
    have ih := withoutItems_eq_set (by simpa using hc : vs[i]? = some c) hs ho
    rw [withoutItems, hn [], if_neg Bool.false_ne_true, without_of_forall v hn, ih,
      List.set_cons_succ]

theorem withoutEntries_eq_put {es : Entries Value} {k : String} (hd : Entries.Distinct es)
    (hc : Entries.get? k es = some c) (hs : gone [.key k] = false)
    (ho : ∀ l, l ≠ k → ∀ a, gone (.key l :: a) = false) :
    withoutEntries gone es = Entries.put k (c.without fun a => gone (.key k :: a)) es := by
  induction es with
  | nil => simp at hc
  | cons e es ih =>
    obtain ⟨l, v⟩ := e
    obtain ⟨hl, hes⟩ := Entries.distinct_cons.1 hd
    rw [withoutEntries, Entries.put]
    by_cases hlk : l = k
    · subst hlk
      have hv : v = c := by simpa [Entries.get?] using hc
      have hrest : withoutEntries gone es = es :=
        withoutEntries_of_forall es fun m hm => ho m fun hml => hl (hml ▸ hm)
      rw [hs, if_neg Bool.false_ne_true, if_pos rfl, hrest, hv]
    · have hget : Entries.get? k es = some c := by simpa [Entries.get?, hlk] using hc
      rw [ho l hlk [], if_neg Bool.false_ne_true, if_neg hlk, without_of_forall v (ho l hlk),
        ih hes hget]

/-- Where all that is taken out is in one child, only that child changes. -/
theorem without_eq_setChild (hd : v.Distinct) (hc : v.child? s = some c) (hs : gone [s] = false)
    (ho : ∀ t, t ≠ s → ∀ a, gone (t :: a) = false) :
    v.without gone = v.setChild s (c.without fun a => gone (s :: a)) := by
  obtain ⟨es, k, rfl, rfl, hk⟩ | ⟨items, i, rfl, rfl, hi⟩ := child?_eq_some_iff.1 hc
  · exact congrArg mapping
      (withoutEntries_eq_put hd.1 hk hs fun l hl => ho (.key l) (by simpa using hl))
  · have hitems := withoutItems_eq_set (n := 0) hi (by simpa using hs)
      fun j hj => ho (.index j) (by simpa using hj)
    simpa [without, setChild] using hitems

/-- The same nodes stay. -/
def SameKept (g h : Address → Bool) : Prop := ∀ a, Address.Kept g a ↔ Address.Kept h a

theorem SameKept.eq {g h : Address → Bool} (hgh : SameKept g h) (s : Step) : g [s] = h [s] := by
  have hs := hgh [s]
  rw [Address.kept_cons, Address.kept_cons] at hs
  simpa [Address.kept_nil] using hs

theorem SameKept.below {g h : Address → Bool} (hgh : SameKept g h) (hs : g [s] = false) :
    SameKept (fun a => g (s :: a)) fun a => h (s :: a) := by
  intro a
  have ha := hgh (s :: a)
  rw [Address.kept_cons, Address.kept_cons, ← hgh.eq s] at ha
  simpa [hs] using ha

mutual

/-- Below a node that is taken out it does not matter what else is. -/
theorem without_congr : ∀ (v : Value) {g h : Address → Bool}, SameKept g h →
    v.without g = v.without h
  | .null, _, _, _ | .boolean _, _, _, _ | .number _, _, _, _ | .string _, _, _, _ => rfl
  | .sequence items, _, _, hgh => congrArg sequence (withoutItems_congr items 0 hgh)
  | .mapping es, _, _, hgh => congrArg mapping (withoutEntries_congr es hgh)

theorem withoutItems_congr : ∀ (items : List Value) (n : Nat) {g h : Address → Bool},
    SameKept g h → withoutItems g n items = withoutItems h n items
  | [], _, _, _, _ => rfl
  | v :: vs, n, g, h, hgh => by
    rw [withoutItems, withoutItems, withoutItems_congr vs (n + 1) hgh, ← hgh.eq]
    by_cases hn : g [.index n] = true
    · rw [if_pos hn, if_pos hn]
    · rw [if_neg hn, if_neg hn, without_congr v (hgh.below (by simpa using hn))]

theorem withoutEntries_congr : ∀ (es : List (String × Value)) {g h : Address → Bool},
    SameKept g h → withoutEntries g es = withoutEntries h es
  | [], _, _, _ => rfl
  | (k, v) :: es, g, h, hgh => by
    rw [withoutEntries, withoutEntries, withoutEntries_congr es hgh, ← hgh.eq]
    by_cases hk : g [.key k] = true
    · rw [if_pos hk, if_pos hk]
    · rw [if_neg hk, if_neg hk, without_congr v (hgh.below (by simpa using hk))]

end

/-! ### Entries alone -/

/-- No element of a sequence is taken out. -/
def OnlyEntries (gone : Address → Bool) : Prop := ∀ a i, gone (a ++ [.index i]) = false

theorem OnlyEntries.below (h : OnlyEntries gone) (s : Step) :
    OnlyEntries fun a => gone (s :: a) := fun a i => h (s :: a) i

/-- Nothing moves. -/
theorem OnlyEntries.moved_eq (h : OnlyEntries gone) (a : Address) : a.moved gone = a := by
  induction a generalizing gone with
  | nil => rfl
  | cons s a ih =>
    rw [Address.moved, ih (h.below s)]
    cases s with
    | key k => rfl
    | index i =>
      have hall : (List.range i).countP (fun j => !gone [.index j]) = i := by
        rw [List.countP_eq_length.2 fun j _ => by simpa using h [] j, List.length_range]
      rw [Step.moved, hall]

theorem OnlyEntries.child?_without (h : OnlyEntries gone) (hs : gone [s] = false) (v : Value) :
    (v.without gone).child? s = (v.child? s).map (·.without fun a => gone (s :: a)) := by
  have hmoved : s.moved gone = s := by simpa [Address.moved] using h.moved_eq [s]
  have hchild := Value.child?_without hs v
  rwa [hmoved] at hchild

/-- The elements of a sequence stay where they are. -/
theorem OnlyEntries.getElem?_withoutItems (h : OnlyEntries gone) (items : List Value) (i : Nat) :
    (withoutItems gone 0 items)[i]? = items[i]?.map (·.without fun a => gone (.index i :: a)) :=
  h.child?_without (h [] i) (.sequence items)

theorem get?_without_of_kept (hg : OnlyEntries gone) (h : a.Kept gone) (v : Value) :
    (v.without gone).get? a = (v.get? a).map (·.without fun b => gone (a ++ b)) := by
  have hget := get?_without h v
  rwa [hg.moved_eq] at hget

/-- Changes of nodes that stay. -/
theorem modifyAll_without {α : Type} {place : α → Address} {f g : α → Value → Value}
    (hg : OnlyEntries gone) : ∀ {xs : List α} {v : Value},
      (∀ x ∈ xs, (place x).Kept gone ∧ ∀ u, (f x u).without (fun b => gone (place x ++ b)) =
        g x (u.without fun b => gone (place x ++ b))) →
        (v.modifyAll (xs.map fun x => (place x, f x))).without gone =
          (v.without gone).modifyAll (xs.map fun x => (place x, g x))
  | [], _, _ => rfl
  | x :: xs, v, h => by
    obtain ⟨⟨hk, hfg⟩, h⟩ := List.forall_mem_cons.1 h
    have hx := modify?_without hk hfg v
    rw [hg.moved_eq] at hx
    rw [List.map_cons, List.map_cons, modifyAll_cons, modifyAll_cons, hx]
    cases v.modify? (f x) (place x) with
    | none => exact modifyAll_without hg h
    | some w => exact modifyAll_without hg h

theorem get?_withoutEntries_of_gone {k : String} (h : gone [.key k] = true) (es : Entries Value) :
    Entries.get? k (withoutEntries gone es) = none := by
  rw [Entries.get?_eq_none_iff, keys_withoutEntries]
  intro hm
  simp [h] at hm

/-- What is taken out is not found any more. -/
theorem get?_without_of_not_kept (hg : OnlyEntries gone) (h : ¬ a.Kept gone) (v : Value) :
    (v.without gone).get? a = none := by
  induction a generalizing gone v with
  | nil => exact absurd Address.kept_nil h
  | cons s a ih =>
    rw [get?_cons]
    cases hs : gone [s] with
    | true =>
      cases s with
      | key k =>
        cases v with
        | mapping es =>
          show (Entries.get? k (withoutEntries gone es)).bind _ = none
          rw [get?_withoutEntries_of_gone hs]
          rfl
        | _ => rfl
      | index i =>
        have hi : gone [.index i] = false := hg [] i
        rw [hi] at hs
        cases hs
    | false =>
      rw [hg.child?_without hs]
      cases v.child? s with
      | none => rfl
      | some c => exact ih (hg.below s) (fun ha => h (Address.kept_cons.2 ⟨hs, ha⟩)) c

mutual

/-- Taking out some entries, and then others. -/
theorem without_without : ∀ (v : Value) {g : Address → Bool} (h : Address → Bool), OnlyEntries g →
    (v.without g).without h = v.without fun a => g a || h a
  | .null, _, _, _ | .boolean _, _, _, _ | .number _, _, _, _ | .string _, _, _, _ => rfl
  | .sequence items, _, h, hg => congrArg sequence (withoutItems_withoutItems items 0 h hg)
  | .mapping es, _, h, hg => congrArg mapping (withoutEntries_withoutEntries es h hg)

theorem withoutItems_withoutItems : ∀ (items : List Value) (n : Nat) {g : Address → Bool}
    (h : Address → Bool), OnlyEntries g →
      withoutItems h n (withoutItems g n items) = withoutItems (fun a => g a || h a) n items
  | [], _, _, _, _ => rfl
  | v :: vs, n, g, h, hg => by
    have hn : g [.index n] = false := hg [] n
    rw [withoutItems, hn, if_neg Bool.false_ne_true, withoutItems, withoutItems,
      withoutItems_withoutItems vs (n + 1) h hg, without_without v _ (hg.below _), hn,
      Bool.false_or]

theorem withoutEntries_withoutEntries : ∀ (es : List (String × Value)) {g : Address → Bool}
    (h : Address → Bool), OnlyEntries g →
      withoutEntries h (withoutEntries g es) = withoutEntries (fun a => g a || h a) es
  | [], _, _, _ => rfl
  | (k, v) :: es, g, h, hg => by
    have ih := withoutEntries_withoutEntries es h hg
    rw [withoutEntries, withoutEntries]
    by_cases hk : g [.key k] = true
    · rw [if_pos hk, hk, Bool.true_or, if_pos rfl, ih]
    · have hk' : g [.key k] = false := by simpa using hk
      rw [if_neg hk, withoutEntries, ih, without_without v _ (hg.below _), hk', Bool.false_or]

end

theorem Distinct.without {v : Value} (h : v.Distinct) (gone : Address → Bool) :
    (v.without gone).Distinct := by
  induction v using Value.induct generalizing gone with
  | scalar v hv => rwa [without_scalar gone hv]
  | sequence items ih =>
    refine distinctItems_iff.2 fun d hd => ?_
    obtain ⟨c, hc, g, rfl⟩ := exists_of_mem_withoutItems hd
    exact ih c hc (distinctItems_iff.1 h c hc) g
  | mapping es ih =>
    refine ⟨?_, distinctEntries_iff.2 ?_⟩
    · show (Entries.keys (withoutEntries gone es)).Nodup
      rw [keys_withoutEntries]
      exact h.1.sublist List.filter_sublist
    · rintro ⟨k, d⟩ hd
      obtain ⟨c, hc, -, rfl⟩ := mem_withoutEntries.1 hd
      exact ih (k, c) hc (distinctEntries_iff.1 h.2 _ hc) _

end Value

end YamlQuery

import YamlQuery.Document.Address

/-!
# Proofs.Document.Nodes — the nodes of a document and changes of single nodes

`Value.child?` is one step of `get?`, `Value.setChild` one step of `modify?`; the laws of addresses
follow from the laws of these two.  A change at an address leaves every node alone that lies neither
above nor below it, and of the nodes above it leaves what `Value.outline` shows: the keys of a
mapping and their order, the length of a sequence.

`Value.modifyAll` makes several changes one after another.  If no address lies above another, each
change finds the node that was there in the beginning.
-/

namespace YamlQuery

namespace Entries

variable {α : Type} {k : String} {v : α}

theorem distinct_cons {e : String × α} {es : Entries α} :
    Distinct (e :: es) ↔ e.1 ∉ keys es ∧ Distinct es := by
  simp [Distinct, keys]

theorem mem_of_get? : ∀ {es : Entries α}, get? k es = some v → (k, v) ∈ es
  | [], h => by simp at h
  | (l, w) :: es, h => by
    by_cases hk : l = k
    · rw [get?, if_pos hk] at h
      cases h
      simp [hk]
    · rw [get?, if_neg hk] at h
      exact List.mem_cons_of_mem _ (mem_of_get? h)

theorem mem_keys {es : Entries α} : k ∈ es.keys ↔ ∃ v, (k, v) ∈ es := by
  simp [keys]

/-- In a map with distinct keys, lookup finds exactly the entries. -/
theorem get?_eq_some_iff {es : Entries α} (h : es.Distinct) : get? k es = some v ↔ (k, v) ∈ es := by
  refine ⟨mem_of_get?, fun hm => ?_⟩
  induction es with
  | nil => simp at hm
  | cons e es ih =>
    obtain ⟨hk, hd⟩ := distinct_cons.1 h
    rcases List.mem_cons.1 hm with rfl | hm
    · simp [get?]
    · have hne : e.1 ≠ k := by
        rintro rfl
        exact hk (mem_keys.2 ⟨v, hm⟩)
      rw [get?, if_neg hne]
      exact ih hd hm

theorem isSome_get?_iff {es : Entries α} : (get? k es).isSome ↔ k ∈ es.keys := by
  rw [← Option.ne_none_iff_isSome, Ne, get?_eq_none_iff, Decidable.not_not]

/-- Entries behind a map are found only where the map has no key. -/
theorem get?_append_of_mem {es : Entries α} (h : k ∈ es.keys) (fs : Entries α) :
    get? k (es ++ fs) = get? k es := by
  induction es with
  | nil => simp [keys] at h
  | cons e es ih =>
    by_cases he : e.1 = k
    · simp [get?, he]
    · have hk : k ∈ keys es := by simpa [keys, Ne.symm he] using h
      simpa [get?, he] using ih hk

/-- Maps with the same keys in the same order are equal if lookup finds the same. -/
theorem eq_of_keys_of_get? : ∀ {es fs : Entries α}, keys es = keys fs → es.Distinct →
    (∀ k ∈ keys es, get? k es = get? k fs) → es = fs
  | [], fs, h, _, _ => (List.map_eq_nil_iff.1 h.symm).symm
  | e :: es, fs, h, hd, hget => by
    obtain ⟨f, fs, rfl, hf, hfs⟩ := List.map_eq_cons_iff.1 h.symm
    obtain ⟨he, hes⟩ := distinct_cons.1 hd
    have hfirst : some e.2 = some f.2 := by
      simpa [get?, hf] using hget e.1 List.mem_cons_self
    have hrest : ∀ k ∈ keys es, get? k es = get? k fs := by
      intro k hk
      have hne : e.1 ≠ k := fun heq => he (heq ▸ hk)
      have hne' : f.1 ≠ k := fun heq => hne (hf.symm.trans heq)
      simpa [get?, hne, hne'] using hget k (List.mem_cons_of_mem _ hk)
    rw [eq_of_keys_of_get? hfs.symm hes hrest, Prod.ext hf.symm (Option.some.inj hfirst)]

theorem put_of_get? : ∀ {es : Entries α}, get? k es = some v → put k v es = es
  | [], h => by simp at h
  | e :: es, h => by
    by_cases he : e.1 = k
    · rw [get?, if_pos he] at h
      rw [put, if_pos he, ← Option.some.inj h]
    · rw [get?, if_neg he] at h
      rw [put, if_neg he, put_of_get? h]

theorem mem_of_mem_put {e : String × α} {es : Entries α} (h : e ∈ put k v es) :
    e = (k, v) ∨ e ∈ es := by
  induction es with
  | nil => exact .inl (List.mem_singleton.1 h)
  | cons f es ih =>
    by_cases hf : f.1 = k
    · rw [put, if_pos hf, List.mem_cons] at h
      exact h.imp (by rintro rfl; rw [hf]) (List.mem_cons_of_mem f)
    · rw [put, if_neg hf, List.mem_cons] at h
      rcases h with rfl | h
      · exact .inr List.mem_cons_self
      · exact (ih h).imp_right (List.mem_cons_of_mem f)

theorem sizeOf_put_lt [SizeOf α] {w : α} (hw : sizeOf w < sizeOf v) :
    ∀ {es : Entries α}, get? k es = some v → sizeOf (put k w es) < sizeOf es
  | [], h => by simp at h
  | (l, u) :: es, h => by
    by_cases hl : l = k
    · rw [get?, if_pos hl] at h
      cases h
      rw [put, if_pos hl]
      simp only [List.cons.sizeOf_spec, Prod.mk.sizeOf_spec]
      omega
    · rw [get?, if_neg hl] at h
      have := sizeOf_put_lt hw h
      rw [put, if_neg hl]
      simp only [List.cons.sizeOf_spec]
      omega

theorem sizeOf_erase_lt [SizeOf α] :
    ∀ {es : Entries α}, get? k es = some v → sizeOf (erase k es) < sizeOf es
  | [], h => by simp at h
  | (l, u) :: es, h => by
    by_cases hl : l = k
    · rw [erase, if_pos hl]
      simp only [List.cons.sizeOf_spec]
      omega
    · rw [get?, if_neg hl] at h
      have := sizeOf_erase_lt h
      rw [erase, if_neg hl]
      simp only [List.cons.sizeOf_spec]
      omega

end Entries

/-- Neither of two addresses lies above the other, and they are not the same. -/
def Address.Apart (a b : Address) : Prop := ¬ a <+: b ∧ ¬ b <+: a

theorem Address.Apart.symm {a b : Address} (h : a.Apart b) : b.Apart a := ⟨h.2, h.1⟩

namespace Value

/-! ### Induction over documents -/

/-- A property of all scalars that passes from the children of a container to the container holds
of every document. -/
@[elab_as_elim]
theorem induct {P : Value → Prop} (scalar : ∀ v, v.isScalar → P v)
    (sequence : ∀ items, (∀ v ∈ items, P v) → P (.sequence items))
    (mapping : ∀ es : Entries Value, (∀ e ∈ es, P e.2) → P (.mapping es)) (v : Value) : P v := by
  refine @Value.rec P (fun items => ∀ v ∈ items, P v) (fun es => ∀ e ∈ es, P e.2) (fun e => P e.2)
    (scalar _ rfl) (fun _ => scalar _ rfl) (fun _ => scalar _ rfl) (fun _ => scalar _ rfl)
    sequence mapping (by simp) ?_ (by simp) ?_ (fun _ _ h => h) v
  · intro v vs hv hvs w hw
    rcases List.mem_cons.1 hw with rfl | hw
    · exact hv
    · exact hvs w hw
  · intro e es he hes f hf
    rcases List.mem_cons.1 hf with rfl | hf
    · exact he
    · exact hes f hf

/-! ### Properties of all nodes -/

section

variable {P Q : Value → Prop} {items : List Value} {entries : List (String × Value)}

mutual

/-- The document and all nodes in it have a property. -/
def Each (P : Value → Prop) : Value → Prop
  | .sequence items => P (.sequence items) ∧ EachItem P items
  | .mapping entries => P (.mapping entries) ∧ EachEntry P entries
  | v => P v

def EachItem (P : Value → Prop) : List Value → Prop
  | [] => True
  | v :: vs => Each P v ∧ EachItem P vs

def EachEntry (P : Value → Prop) : List (String × Value) → Prop
  | [] => True
  | (_, v) :: es => Each P v ∧ EachEntry P es

end

theorem eachItem_iff : EachItem P items ↔ ∀ v ∈ items, v.Each P := by
  induction items with
  | nil => simp [EachItem]
  | cons v vs ih => simp [EachItem, ih]

theorem eachEntry_iff : EachEntry P entries ↔ ∀ e ∈ entries, e.2.Each P := by
  induction entries with
  | nil => simp [EachEntry]
  | cons e es ih => simp [EachEntry, ih]

theorem each_sequence :
    (sequence items).Each P ↔ P (.sequence items) ∧ ∀ v ∈ items, v.Each P := by
  rw [Each, eachItem_iff]

theorem each_mapping :
    (mapping entries).Each P ↔ P (.mapping entries) ∧ ∀ e ∈ entries, e.2.Each P := by
  rw [Each, eachEntry_iff]

theorem each_scalar {v : Value} (h : v.isScalar) : v.Each P ↔ P v := by
  cases v with
  | sequence | mapping => cases h
  | null | boolean | number | string => rfl

theorem Each.mono {v : Value} (h : v.Each P) (hPQ : ∀ u, P u → Q u) : v.Each Q := by
  induction v using Value.induct with
  | scalar v hv => exact (each_scalar hv).2 (hPQ v ((each_scalar hv).1 h))
  | sequence items ih =>
    rw [each_sequence] at h ⊢
    exact ⟨hPQ _ h.1, fun v hv => ih v hv (h.2 v hv)⟩
  | mapping entries ih =>
    rw [each_mapping] at h ⊢
    exact ⟨hPQ _ h.1, fun e he => ih e he (h.2 e he)⟩

end

/-! ### Children -/

/-- The child that a step leads to. -/
def child? : Value → Step → Option Value
  | .mapping es, .key k => Entries.get? k es
  | .sequence items, .index i => items[i]?
  | _, _ => none

/-- The node with another child at a step. -/
def setChild : Value → Step → Value → Value
  | .mapping es, .key k, c => .mapping (Entries.put k c es)
  | .sequence items, .index i, c => .sequence (items.set i c)
  | v, _, _ => v

/-- What a node is apart from its children. -/
inductive Outline
  | mapping (keys : List String)
  | sequence (length : Nat)
  | scalar (v : Value)

def outline : Value → Outline
  | .mapping es => .mapping (Entries.keys es)
  | .sequence items => .sequence items.length
  | v => .scalar v

/-- A key leads into a mapping and an index into a sequence. -/
theorem child?_eq_some_iff {v c : Value} {s : Step} : v.child? s = some c ↔
    (∃ es k, v = .mapping es ∧ s = .key k ∧ Entries.get? k es = some c) ∨
      ∃ items i, v = .sequence items ∧ s = .index i ∧ items[i]? = some c := by
  cases v <;> cases s <;> simp [child?]

theorem child?_setChild_self {v d : Value} {s : Step} (h : v.child? s = some d) (c : Value) :
    (v.setChild s c).child? s = some c := by
  obtain ⟨es, k, rfl, rfl, -⟩ | ⟨items, i, rfl, rfl, h⟩ := child?_eq_some_iff.1 h
  · exact Entries.get?_put_self k c es
  · obtain ⟨hi, -⟩ := List.getElem?_eq_some_iff.1 h
    simp [child?, setChild, hi]

theorem child?_setChild_of_ne {s t : Step} (h : s ≠ t) (v c : Value) :
    (v.setChild s c).child? t = v.child? t := by
  cases v <;> cases s <;> cases t <;> try rfl
  case sequence.index.index items i j =>
    have hij : i ≠ j := fun hij => h (by rw [hij])
    simp only [setChild, child?, List.getElem?_set_ne hij]
  case mapping.key.key es k l =>
    have hkl : l ≠ k := fun hkl => h (by rw [hkl])
    simp only [setChild, child?, Entries.get?_put, if_neg hkl]

theorem setChild_of_child? {v c : Value} {s : Step} (h : v.child? s = some c) :
    v.setChild s c = v := by
  obtain ⟨es, k, rfl, rfl, hk⟩ | ⟨items, i, rfl, rfl, hi⟩ := child?_eq_some_iff.1 h
  · exact congrArg mapping (Entries.put_of_get? hk)
  · obtain ⟨hlt, rfl⟩ := List.getElem?_eq_some_iff.1 hi
    exact congrArg sequence (List.set_getElem_self hlt)

theorem outline_setChild {v d : Value} {s : Step} (h : v.child? s = some d) (c : Value) :
    (v.setChild s c).outline = v.outline := by
  obtain ⟨es, k, rfl, rfl, hk⟩ | ⟨items, i, rfl, rfl, -⟩ := child?_eq_some_iff.1 h
  · have hk : k ∈ Entries.keys es := Entries.isSome_get?_iff.1 (by rw [hk]; rfl)
    simp only [setChild, outline, Entries.keys_put_of_mem hk]
  · simp [setChild, outline]

theorem kind_of_outline {u v : Value} (h : u.outline = v.outline) :
    u.isMapping = v.isMapping ∧ u.isScalar = v.isScalar := by
  cases u <;> cases v <;> first | exact ⟨rfl, rfl⟩ | cases h

theorem exists_mapping_of_outline {u v : Option Value} (h : u.map outline = v.map outline)
    {es : Entries Value} (hv : v = some (.mapping es)) :
    ∃ fs, u = some (.mapping fs) ∧ Entries.keys fs = Entries.keys es := by
  subst hv
  obtain ⟨w, rfl, hw⟩ := Option.map_eq_some_iff.1 h
  cases w with
  | mapping fs => exact ⟨fs, rfl, Outline.mapping.inj hw⟩
  | _ => cases hw

/-! ### Addresses -/

theorem get?_cons (v : Value) (s : Step) (a : Address) :
    v.get? (s :: a) = (v.child? s).bind (·.get? a) := by
  cases v <;> cases s <;> rfl

theorem modify?_cons (f : Value → Value) (v : Value) (s : Step) (a : Address) :
    v.modify? f (s :: a) = (v.child? s).bind fun c => (c.modify? f a).map (v.setChild s) := by
  cases v <;> cases s <;> rfl

theorem get?_append (v : Value) (a b : Address) :
    v.get? (a ++ b) = (v.get? a).bind (·.get? b) := by
  induction a generalizing v with
  | nil => simp
  | cons s a ih => simp only [List.cons_append, get?_cons, Option.bind_assoc, ih]

theorem get?_child (v : Value) (a : Address) (s : Step) :
    v.get? (a.child s) = (v.get? a).bind (·.child? s) := by
  simp [Address.child, get?_append, get?_cons]

/-- What `modify?` does to the one child it changes. -/
theorem modify?_cons_eq_some_iff {f : Value → Value} {v w : Value} {s : Step} {a : Address} :
    v.modify? f (s :: a) = some w ↔
      ∃ c d, v.child? s = some c ∧ c.modify? f a = some d ∧ v.setChild s d = w := by
  simp only [modify?_cons, Option.bind_eq_some_iff, Option.map_eq_some_iff]
  constructor
  · rintro ⟨c, hc, d, hd, hw⟩
    exact ⟨c, d, hc, hd, hw⟩
  · rintro ⟨c, d, hc, hd, hw⟩
    exact ⟨c, hc, d, hd, hw⟩

variable {f : Value → Value} {v w : Value} {a b : Address}

theorem modify?_eq_none_iff : v.modify? f a = none ↔ v.get? a = none := by
  rw [← Option.not_isSome_iff_eq_none, isSome_modify?, Option.not_isSome_iff_eq_none]

/-- A change takes place where there is a node. -/
theorem exists_modify? {u : Value} (h : v.get? a = some u) (f : Value → Value) :
    ∃ w, v.modify? f a = some w := by
  rw [← Option.isSome_iff_exists, isSome_modify?, h]
  rfl

theorem get?_modify? (h : v.modify? f a = some w) : w.get? a = (v.get? a).map f := by
  induction a generalizing v w with
  | nil => simpa using h.symm
  | cons s a ih =>
    obtain ⟨c, d, hc, hd, rfl⟩ := modify?_cons_eq_some_iff.1 h
    rw [get?_cons, get?_cons, child?_setChild_self hc d, hc]
    exact ih hd

theorem get?_modify?_of_disjoint (h : v.modify? f a = some w) (hab : ¬ a <+: b) (hba : ¬ b <+: a) :
    w.get? b = v.get? b := by
  induction a generalizing v w b with
  | nil => exact absurd List.nil_prefix hab
  | cons s a ih =>
    obtain _ | ⟨t, b⟩ := b
    · exact absurd List.nil_prefix hba
    obtain ⟨c, d, hc, hd, rfl⟩ := modify?_cons_eq_some_iff.1 h
    by_cases hst : s = t
    · subst hst
      rw [get?_cons, get?_cons, child?_setChild_self hc d, hc]
      exact ih hd (fun hp => hab (List.cons_prefix_cons.2 ⟨rfl, hp⟩))
        (fun hp => hba (List.cons_prefix_cons.2 ⟨rfl, hp⟩))
    · rw [get?_cons, get?_cons, child?_setChild_of_ne hst]

/-- A node that does not lie below a change keeps its outline. -/
theorem outline_get?_modify? (h : v.modify? f a = some w) (hab : ¬ a <+: b) :
    (w.get? b).map outline = (v.get? b).map outline := by
  induction a generalizing v w b with
  | nil => exact absurd List.nil_prefix hab
  | cons s a ih =>
    obtain ⟨c, d, hc, hd, rfl⟩ := modify?_cons_eq_some_iff.1 h
    obtain _ | ⟨t, b⟩ := b
    · simp [outline_setChild hc]
    · by_cases hst : s = t
      · subst hst
        rw [get?_cons, get?_cons, child?_setChild_self hc d, hc]
        exact ih hd fun hp => hab (List.cons_prefix_cons.2 ⟨rfl, hp⟩)
      · rw [get?_cons, get?_cons, child?_setChild_of_ne hst]

/-- A change below an address is a change of the node there. -/
theorem modify?_append (f : Value → Value) (v : Value) (a b : Address) :
    v.modify? f (a ++ b) =
      (v.get? a).bind fun u => (u.modify? f b).bind fun w => v.replace? a w := by
  induction a generalizing v with
  | nil => simp [replace?]
  | cons s a ih =>
    rw [List.cons_append, modify?_cons, get?_cons]
    cases hc : v.child? s with
    | none => rfl
    | some c =>
      simp only [Option.bind_some, ih, replace?, modify?_cons, hc, Option.map_bind]
      exact Option.bind_congr fun _ _ => Option.map_bind

/-- What `modify?` does where the node is known. -/
theorem replace?_of_get? {u : Value} (h : v.get? a = some u) (f : Value → Value) :
    v.replace? a (f u) = v.modify? f a := by
  rw [← List.append_nil a, modify?_append, List.append_nil, h]
  rfl

/-- A change that leaves the node as it is. -/
theorem modify?_of_eq {u : Value} (h : v.get? a = some u) (hf : f u = u) : v.modify? f a = some v := by
  induction a generalizing v with
  | nil =>
    obtain rfl : v = u := by simpa using h
    rw [modify?_root, hf]
  | cons s a ih =>
    rw [get?_cons] at h
    obtain ⟨c, hc, h⟩ := Option.bind_eq_some_iff.1 h
    exact modify?_cons_eq_some_iff.2 ⟨c, c, hc, ih h, setChild_of_child? hc⟩

/-! ### Changes at several addresses -/

/-- Makes changes one after another; one whose address is not there is left out. -/
def modifyAll (v : Value) (changes : List (Address × (Value → Value))) : Value :=
  changes.foldl (fun v c => (v.modify? c.2 c.1).getD v) v

theorem modifyAll_cons (v : Value) (c : Address × (Value → Value))
    (changes : List (Address × (Value → Value))) :
    v.modifyAll (c :: changes) = ((v.modify? c.2 c.1).getD v).modifyAll changes := rfl

theorem modifyAll_append (v : Value) (cs ds : List (Address × (Value → Value))) :
    v.modifyAll (cs ++ ds) = (v.modifyAll cs).modifyAll ds := List.foldl_append

theorem modifyAll_of_get?_eq_none :
    ∀ {changes : List (Address × (Value → Value))} {v : Value},
      (∀ c ∈ changes, v.get? c.1 = none) → v.modifyAll changes = v
  | [], _, _ => rfl
  | c :: changes, v, h => by
    have hc : v.modify? c.2 c.1 = none := modify?_eq_none_iff.2 (h c List.mem_cons_self)
    rw [modifyAll_cons, hc, Option.getD_none]
    exact modifyAll_of_get?_eq_none fun d hd => h d (List.mem_cons_of_mem _ hd)

/-- Changes that leave the nodes as they are. -/
theorem modifyAll_of_eq :
    ∀ {changes : List (Address × (Value → Value))} {v : Value},
      (∀ c ∈ changes, ∀ u, v.get? c.1 = some u → c.2 u = u) → v.modifyAll changes = v
  | [], _, _ => rfl
  | c :: changes, v, h => by
    obtain ⟨hc, h⟩ := List.forall_mem_cons.1 h
    have hsame : (v.modify? c.2 c.1).getD v = v := by
      cases hu : v.get? c.1 with
      | some u => rw [modify?_of_eq hu (hc u hu), Option.getD_some]
      | none => rw [modify?_eq_none_iff.2 hu, Option.getD_none]
    rw [modifyAll_cons, hsame]
    exact modifyAll_of_eq h

/-- A node that lies neither above nor below a change stays as it is. -/
theorem get?_modifyAll_of_apart :
    ∀ {changes : List (Address × (Value → Value))} {v : Value}, (∀ c ∈ changes, c.1.Apart b) →
      (v.modifyAll changes).get? b = v.get? b
  | [], _, _ => rfl
  | c :: changes, v, h => by
    rw [modifyAll_cons, get?_modifyAll_of_apart fun d hd => h d (List.mem_cons_of_mem _ hd)]
    cases hw : v.modify? c.2 c.1 with
    | none => rfl
    | some w =>
      obtain ⟨hcb, hbc⟩ := h c List.mem_cons_self
      exact get?_modify?_of_disjoint hw hcb hbc

/-- A node that lies below no change keeps its outline. -/
theorem outline_get?_modifyAll :
    ∀ {changes : List (Address × (Value → Value))} {v : Value}, (∀ c ∈ changes, ¬ c.1 <+: b) →
      ((v.modifyAll changes).get? b).map outline = (v.get? b).map outline
  | [], _, _ => rfl
  | c :: changes, v, h => by
    rw [modifyAll_cons, outline_get?_modifyAll fun d hd => h d (List.mem_cons_of_mem _ hd)]
    cases hw : v.modify? c.2 c.1 with
    | none => rfl
    | some w => exact outline_get?_modify? hw (h c List.mem_cons_self)

/-- Changes at addresses of which none lies above another all take place. -/
theorem get?_modifyAll_of_mem :
    ∀ {changes : List (Address × (Value → Value))} {v : Value},
      changes.Pairwise (fun c d => c.1.Apart d.1) →
        ∀ c ∈ changes, (v.modifyAll changes).get? c.1 = (v.get? c.1).map c.2
  | [], _, _, _, hc => by simp at hc
  | c :: changes, v, hp, d, hd => by
    obtain ⟨hpc, hp⟩ := List.pairwise_cons.1 hp
    rw [modifyAll_cons]
    rcases List.mem_cons.1 hd with rfl | hd
    · rw [get?_modifyAll_of_apart fun e he => (hpc e he).symm]
      cases hw : v.modify? d.2 d.1 with
      | some w => exact get?_modify? hw
      | none => rw [Option.getD_none, modify?_eq_none_iff.1 hw, Option.map_none]
    · rw [get?_modifyAll_of_mem hp d hd]
      cases hw : v.modify? c.2 c.1 with
      | none => rfl
      | some w =>
        rw [Option.getD_some, get?_modify?_of_disjoint hw (hpc d hd).1 (hpc d hd).2]

/-! ### Distinct keys -/

mutual

def decDistinct : (v : Value) → Decidable v.Distinct
  | .null | .boolean _ | .number _ | .string _ => .isTrue trivial
  | .sequence items => decDistinctItems items
  | .mapping es => @instDecidableAnd _ _ (inferInstanceAs (Decidable (Entries.Distinct es)))
      (decDistinctEntries es)

def decDistinctItems : (items : List Value) → Decidable (DistinctItems items)
  | [] => .isTrue trivial
  | v :: vs => @instDecidableAnd _ _ (decDistinct v) (decDistinctItems vs)

def decDistinctEntries : (es : List (String × Value)) → Decidable (DistinctEntries es)
  | [] => .isTrue trivial
  | (_, v) :: es => @instDecidableAnd _ _ (decDistinct v) (decDistinctEntries es)

end

instance (v : Value) : Decidable v.Distinct := v.decDistinct

theorem Distinct.child? {s : Step} {c : Value} (h : v.Distinct) (hc : v.child? s = some c) :
    c.Distinct := by
  obtain ⟨es, k, rfl, rfl, hc⟩ | ⟨items, i, rfl, rfl, hc⟩ := child?_eq_some_iff.1 hc
  · exact distinctEntries_iff.1 h.2 _ (Entries.mem_of_get? hc)
  · exact distinctItems_iff.1 h _ (List.mem_of_getElem? hc)

theorem Distinct.get? {u : Value} (h : v.Distinct) (hu : v.get? a = some u) : u.Distinct := by
  induction a generalizing v with
  | nil => simpa using (Option.some.inj ((get?_root v).symm.trans hu)) ▸ h
  | cons s a ih =>
    rw [get?_cons] at hu
    obtain ⟨c, hc, hu⟩ := Option.bind_eq_some_iff.1 hu
    exact ih (h.child? hc) hu

theorem Distinct.setChild {c : Value} {s : Step} (h : v.Distinct) (hc : c.Distinct) :
    (v.setChild s c).Distinct := by
  cases v <;> cases s <;> try exact h
  case sequence.index items i =>
    refine distinctItems_iff.2 fun u hu => ?_
    rcases List.mem_or_eq_of_mem_set hu with hu | rfl
    · exact distinctItems_iff.1 h u hu
    · exact hc
  case mapping.key es k =>
    refine ⟨Entries.Distinct.put h.1 k c, distinctEntries_iff.2 fun e he => ?_⟩
    rcases Entries.mem_of_mem_put he with rfl | he
    · exact hc
    · exact distinctEntries_iff.1 h.2 e he

theorem Distinct.modify? (h : v.Distinct) (hf : ∀ u : Value, u.Distinct → (f u).Distinct)
    (hw : v.modify? f a = some w) : w.Distinct := by
  induction a generalizing v w with
  | nil => simpa using (Option.some.inj ((modify?_root f v).symm.trans hw)) ▸ hf v h
  | cons s a ih =>
    obtain ⟨c, d, hc, hd, rfl⟩ := modify?_cons_eq_some_iff.1 hw
    exact h.setChild (ih (h.child? hc) hd)

/-- Changes that make no key come twice. -/
theorem Distinct.modifyAll :
    ∀ {changes : List (Address × (Value → Value))} {v : Value}, v.Distinct →
      changes.Pairwise (fun c d => c.1.Apart d.1) →
        (∀ c ∈ changes, ∀ u, v.get? c.1 = some u → (c.2 u).Distinct) →
          (v.modifyAll changes).Distinct
  | [], _, hd, _, _ => hd
  | c :: changes, v, hd, hp, h => by
    obtain ⟨hpc, hp⟩ := List.pairwise_cons.1 hp
    obtain ⟨hc, h⟩ := List.forall_mem_cons.1 h
    rw [modifyAll_cons]
    cases hw : v.modify? c.2 c.1 with
    | none => exact Distinct.modifyAll hd hp h
    | some w =>
      obtain ⟨u, hu⟩ : ∃ u, v.get? c.1 = some u := by
        rw [← Option.isSome_iff_exists, ← isSome_modify? c.2, hw]
        rfl
      have hdw : w.Distinct := by
        rw [← replace?_of_get? hu] at hw
        exact Distinct.modify? hd (fun _ _ => hc u hu) hw
      refine Distinct.modifyAll hdw hp fun d hm x hx => h d hm x ?_
      rwa [← get?_modify?_of_disjoint hw (hpc d hm).1 (hpc d hm).2]

/-- A document is known from the outlines of its nodes. -/
theorem eq_of_outline {v w : Value} (hv : v.Distinct)
    (h : ∀ a, (w.get? a).map outline = (v.get? a).map outline) : w = v := by
  have hroot : w.outline = v.outline := by simpa using h []
  induction v using Value.induct generalizing w with
  | scalar v hscalar =>
    cases v with
    | sequence | mapping => cases hscalar
    | null | boolean | number | string =>
      cases w with
      | sequence | mapping => cases hroot
      | null | boolean | number | string => exact Outline.scalar.inj hroot
  | sequence items ih =>
    have houtline : w.outline = .sequence items.length := hroot
    cases w with
    | sequence ws =>
      refine congrArg sequence (List.ext_getElem (Outline.sequence.inj houtline) fun i hi hi' => ?_)
      have hitem := List.getElem_mem hi'
      have hbelow (a : Address) :
          (ws[i].get? a).map outline = (items[i].get? a).map outline := by
        simpa [get?_cons, child?, hi, hi'] using h (.index i :: a)
      exact ih _ hitem (distinctItems_iff.1 hv _ hitem) hbelow (by simpa using hbelow [])
    | _ => cases houtline
  | mapping es ih =>
    have houtline : w.outline = .mapping (Entries.keys es) := hroot
    cases w with
    | mapping fs =>
      refine congrArg mapping (Entries.eq_of_keys_of_get? (Outline.mapping.inj houtline).symm hv.1
        fun k hk => ?_).symm
      obtain ⟨c, hc⟩ := Entries.mem_keys.1 hk
      have hget := (Entries.get?_eq_some_iff hv.1).2 hc
      obtain ⟨d, hd⟩ : ∃ d, Entries.get? k fs = some d := by
        rw [← Option.isSome_iff_exists, Entries.isSome_get?_iff, Outline.mapping.inj houtline]
        exact hk
      have hbelow (a : Address) : (d.get? a).map outline = (c.get? a).map outline := by
        simpa [get?_cons, child?, hget, hd] using h (.key k :: a)
      rw [hget, hd,
        ih (k, c) hc (distinctEntries_iff.1 hv.2 _ hc) hbelow (by simpa using hbelow [])]
    | _ => cases houtline

/-! ### Changes that make a document smaller -/

theorem sizeOf_set_lt {c d : Value} (h : sizeOf d < sizeOf c) :
    ∀ {items : List Value} {i : Nat}, items[i]? = some c → sizeOf (items.set i d) < sizeOf items
  | [], _, hi => by simp at hi
  | u :: items, 0, hi => by
    obtain rfl : u = c := by simpa using hi
    simp only [List.set_cons_zero, List.cons.sizeOf_spec]
    omega
  | u :: items, i + 1, hi => by
    have hlt : sizeOf (items.set i d) < sizeOf items := sizeOf_set_lt h (by simpa using hi)
    simp only [List.set_cons_succ, List.cons.sizeOf_spec]
    omega

theorem sizeOf_setChild_lt {c d : Value} {s : Step} (hc : v.child? s = some c)
    (h : sizeOf d < sizeOf c) : sizeOf (v.setChild s d) < sizeOf v := by
  obtain ⟨es, k, rfl, rfl, hk⟩ | ⟨items, i, rfl, rfl, hi⟩ := child?_eq_some_iff.1 hc
  · have := Entries.sizeOf_put_lt h hk
    simp only [setChild, mapping.sizeOf_spec]
    omega
  · have := sizeOf_set_lt h hi
    simp only [setChild, sequence.sizeOf_spec]
    omega

theorem sizeOf_modify?_lt {u : Value} (hu : v.get? a = some u) (h : sizeOf (f u) < sizeOf u)
    (hw : v.modify? f a = some w) : sizeOf w < sizeOf v := by
  induction a generalizing v w with
  | nil =>
    obtain rfl : v = u := by simpa using hu
    obtain rfl : f v = w := by simpa using hw
    exact h
  | cons s a ih =>
    obtain ⟨c, d, hc, hd, rfl⟩ := modify?_cons_eq_some_iff.1 hw
    rw [get?_cons, hc] at hu
    exact sizeOf_setChild_lt hc (ih hu hd)

end Value

end YamlQuery

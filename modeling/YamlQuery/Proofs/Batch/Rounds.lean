import YamlQuery.Proofs.Batch.Balance
import YamlQuery.Proofs.Batch.Effects

/-!
# Proofs.Batch.Rounds — what a loop says about its rounds

The number and the key of a round are properties of the set `batch`, and the element is a stored
value.  A loop inside the loop writes over all three and brings back what it has found.  As long as no
statement meddles with the three names (`Machine.Spares`), they speak of the innermost loop at every
point of its body (`Turn.Shown`), and behind a loop they say what they said before it
(`Machine.looks`).

Between two points of a script the names that are set in `batch` keep their values there, and those
that no other set has are still in none (`Machine.Keeps`).  The rounds of a loop keep the second
alone, which is enough for the end of the loop.
-/

namespace YamlQuery.Batch

open Relation (ReflTransGen)

namespace Machine

/-- What holds of a machine from the start on: the set `batch` comes first, and neither there nor in
memory a name occurs twice. -/
structure Lawful (m : Machine) : Prop where
  ownFirst : m.properties.OwnFirst
  own : Entries.Distinct m.properties.ownSet
  memory : m.session.memory.Distinct

/-- What is found under the names of a round: the number, the key and the element. -/
def looks (m : Machine) : Option String × Option String × Option Value :=
  (m.properties.get? roundIndex, m.properties.get? roundKey, m.session.memory.get? roundValue)

/-- The statement does not meddle with the names of a round: it neither sets the properties, nor
loads a set `batch` or a set that has them, nor saves a value under the name of the element. -/
def Spares (m : Machine) : Statement → Prop
  | .setProperty key _ => key ∉ roundNames
  | .properties name reference => name ≠ PropertySets.own ∧
      ∀ ps, m.loadProperties (m.expand reference) = .ok ps →
        ∀ n ∈ roundNames, Entries.get? n ps = none
  | .saveTo target => (Reference.parse (m.expand target)).memoryName? ≠ some roundValue
  | _ => True

/-- The second machine has what the first says about a round. -/
structure Keeps (m m' : Machine) : Prop where
  lawful : m'.Lawful
  own : ∀ n ∈ roundNames, ∀ x, Entries.get? n m.properties.ownSet = some x →
    Entries.get? n m'.properties.ownSet = some x
  others : ∀ n ∈ roundNames, m.properties.others n = none → m'.properties.others n = none
  memory : m'.session.memory.get? roundValue = m.session.memory.get? roundValue

variable {m m' before : Machine} {v : Value} {st : Statement}

theorem Keeps.refl (h : m.Lawful) : Keeps m m where
  lawful := h
  own _ _ _ := id
  others _ _ := id
  memory := rfl

theorem Keeps.trans {m'' : Machine} (h : Keeps m m') (h' : Keeps m' m'') : Keeps m m'' where
  lawful := h'.lawful
  own n hn x := h'.own n hn x ∘ h.own n hn x
  others n hn := h'.others n hn ∘ h.others n hn
  memory := h'.memory.trans h.memory

theorem Keeps.of_properties_eq (hm : m.Lawful) (h : m'.properties = m.properties)
    (hd : m'.session.memory.Distinct)
    (hv : m'.session.memory.get? roundValue = m.session.memory.get? roundValue) : Keeps m m' where
  lawful := ⟨h ▸ hm.ownFirst, h ▸ hm.own, hd⟩
  own n _ x hx := by rw [h, hx]
  others n _ hn := by rw [h, hn]
  memory := hv

theorem Keeps.of_insert {name : String} {ps : Properties} (hm : m.Lawful)
    (hname : name ≠ PropertySets.own) (hps : ∀ n ∈ roundNames, Entries.get? n ps = none)
    (h : m'.properties = m.properties.insert name ps)
    (hmemory : m'.session.memory = m.session.memory) : Keeps m m' := by
  have hown : m'.properties.ownSet = m.properties.ownSet := by
    rw [h, PropertySets.ownSet_insert_of_ne hname]
  refine ⟨⟨?_, hown ▸ hm.own, hmemory ▸ hm.memory⟩, fun n _ x hx => ?_, fun n hn hothers => ?_, ?_⟩
  · rw [h]
    exact hm.ownFirst.insert name ps
  · rw [hown, hx]
  · rw [h]
    exact PropertySets.others_insert_of_ne hm.ownFirst hname hothers (hps n hn)
  · rw [hmemory]

theorem Keeps.of_set {key value : String} (hm : m.Lawful) (hkey : key ∉ roundNames)
    (h : m'.properties = m.properties.set key value)
    (hmemory : m'.session.memory = m.session.memory) : Keeps m m' := by
  have hown : m'.properties.ownSet = m.properties.ownSet.put key value := by
    rw [h, PropertySets.set, PropertySets.ownSet_insert_own]
  refine ⟨⟨?_, ?_, hmemory ▸ hm.memory⟩, fun n hn x hx => ?_, fun n _ hothers => ?_, ?_⟩
  · rw [h]
    exact hm.ownFirst.insert PropertySets.own _
  · rw [hown]
    exact hm.own.put key value
  · rw [hown, Entries.get?_put, if_neg (ne_of_mem_of_not_mem hn hkey), hx]
  · rw [h, PropertySets.set, PropertySets.others_insert_own hm.ownFirst, hothers]
  · rw [hmemory]

theorem Keeps.of_effect (hm : m.Lawful) (hst : m.Spares st) (h : m.Effect v m' st) :
    Keeps m m' := by
  cases h with
  | @load name reference ps hload hproperties hmemory =>
    exact .of_insert hm hst.1 (hst.2 ps hload) hproperties hmemory
  | set hproperties hmemory => exact .of_set hm hst hproperties hmemory
  | @save target name hname hproperties hmemory =>
    have hne : roundValue ≠ name := by
      rintro rfl
      exact hst hname
    refine .of_properties_eq hm hproperties ?_ ?_
    · rw [hmemory]
      exact hm.memory.put name v
    · rw [hmemory, Entries.get?_put, if_neg hne]
  | none hproperties hmemory =>
    exact .of_properties_eq hm hproperties (hmemory ▸ hm.memory) (by rw [hmemory])

/-! ### The start of a round and the end of a loop -/

theorem Lawful.enterRound (h : m.Lawful) (index : Nat) (key : Option String) (v : Value) :
    (m.enterRound index key v).Lawful where
  ownFirst := by
    rw [enterRound_properties]
    exact h.ownFirst.insert PropertySets.own _
  own := by
    rw [enterRound_properties, PropertySets.ownSet_insert_own]
    exact (h.own.put roundIndex _).putIf roundKey key
  memory := h.memory.put roundValue v

theorem others_enterRound (h : m.Lawful) (index : Nat) (key : Option String) (v : Value) :
    (m.enterRound index key v).properties.others = m.properties.others := by
  rw [enterRound_properties, PropertySets.others_insert_own h.ownFirst]

theorem Lawful.leaveLoop (h : m.Lawful) (before : Machine) : (before.leaveLoop m).Lawful where
  ownFirst := by
    rw [leaveLoop_properties]
    exact h.ownFirst.insert PropertySets.own _
  own := by
    rw [leaveLoop_properties, PropertySets.ownSet_insert_own]
    exact (h.own.assign roundIndex _).assign roundKey _
  memory := by
    rw [leaveLoop_memory]
    exact h.memory.assign roundValue _

theorem others_leaveLoop (h : m.Lawful) (before : Machine) :
    (before.leaveLoop m).properties.others = m.properties.others := by
  rw [leaveLoop_properties, PropertySets.others_insert_own h.ownFirst]

/-- Behind a loop the set `batch` has what was looked up before the loop in all sets. -/
theorem ownSet_leaveLoop (h : m.Lawful) {n : String} (hn : n ∈ roundNames) :
    Entries.get? n (before.leaveLoop m).properties.ownSet = before.properties.get? n := by
  rw [leaveLoop_properties, PropertySets.ownSet_insert_own]
  simp only [roundNames, List.mem_cons, List.not_mem_nil, or_false] at hn
  obtain rfl | rfl := hn
  · rw [Entries.get?_assign_of_ne roundKey_ne_roundIndex.symm, Entries.get?_assign_self h.own]
  · rw [Entries.get?_assign_self (h.own.assign roundIndex _)]

theorem memory_leaveLoop (h : m.session.memory.Distinct) :
    (before.leaveLoop m).session.memory.get? roundValue =
      before.session.memory.get? roundValue := by
  rw [leaveLoop_memory, Entries.get?_assign_self h]

section Loop

variable (hb : before.Lawful) (h : m.Lawful)
  (ho : ∀ n ∈ roundNames, before.properties.others n = none → m.properties.others n = none)
include hb h ho

theorem get?_leaveLoop {n : String} (hn : n ∈ roundNames) :
    (before.leaveLoop m).properties.get? n = before.properties.get? n := by
  rw [PropertySets.get?_eq (h.leaveLoop before).ownFirst, ownSet_leaveLoop h hn,
    others_leaveLoop h before]
  rcases hx : before.properties.get? n with _ | x
  · rw [Option.none_or, ho n hn ((PropertySets.get?_eq_none_iff hb.ownFirst).1 hx).2]
  · rfl

/-- **A loop brings back what it has found.** -/
theorem looks_leaveLoop : (before.leaveLoop m).looks = before.looks := by
  rw [looks, get?_leaveLoop hb h ho (by decide), get?_leaveLoop hb h ho (by decide),
    memory_leaveLoop h.memory, looks]

theorem keeps_leaveLoop : Keeps before (before.leaveLoop m) where
  lawful := h.leaveLoop before
  own n hn x hx := by
    rw [ownSet_leaveLoop h hn, PropertySets.get?_of_own hb.ownFirst hx]
  others n hn hnone := by
    rw [others_leaveLoop h before, ho n hn hnone]
  memory := memory_leaveLoop h.memory

end Loop

/-- If the first machine is as it should be, the second keeps what it says. -/
def Preserves (m m' : Machine) : Prop := m.Lawful → Keeps m m'

/-- Rounds write to the set `batch` and to memory alone. -/
theorem others_of_rounds (hm : m.Lawful) (h : ReflTransGen (Point.AfterRound Preserves) m m') :
    m'.Lawful ∧
      ∀ n ∈ roundNames, m.properties.others n = none → m'.properties.others n = none := by
  induction h with
  | refl => exact ⟨hm, fun _ _ => id⟩
  | @tail m₁ m₂ _ hround ih =>
    obtain ⟨hm₁, ho⟩ := ih
    obtain ⟨index, key, v, hkeeps⟩ := hround
    have hkeeps := hkeeps (hm₁.enterRound index key v)
    refine ⟨hkeeps.lawful, fun n hn hnone => hkeeps.others n hn ?_⟩
    rw [others_enterRound hm₁]
    exact ho n hn hnone

theorem compatible_preserves : Point.Compatible Preserves where
  refl _ := Keeps.refl
  trans h h' hm := (h hm).trans (h' (h hm).lawful)
  loop h hm :=
    have hrounds := others_of_rounds hm h
    keeps_leaveLoop hm hrounds.1 hrounds.2
  -- Another script may set properties, but only its own.
  script h hm := ⟨⟨hm.ownFirst, hm.own, (h hm).lawful.memory⟩, fun _ _ _ => id, fun _ _ => id,
    (h hm).memory⟩

end Machine

/-- The keys and the elements that a loop over a value goes through. -/
def elements : Value → List (Option String × Value)
  | .sequence items => items.map (none, ·)
  | .mapping es => es.map fun (k, v) => (some k, v)
  | _ => []

theorem elements_of_rounds {v : Value} {rs : List Round} (h : rounds v = .ok rs) :
    elements v = rs.map fun r => (r.key, r.value) := by
  unfold rounds at h
  split at h
  · split at h <;> cases h
    simp [elements]
  · split at h <;> cases h
    simp [elements]
  · cases h

/-- Properties and memory tell the round: its number in decimal, its element, and its key if it has
one. -/
def Turn.ToldBy (t : Turn) (property? : String → Option String) (memory : Memory) : Prop :=
  ∃ key v, (elements t.input)[t.index]? = some (key, v) ∧
    property? roundIndex = some (String.ofList (Text.decimal t.index)) ∧
    (∀ k, key = some k → property? roundKey = some k) ∧ memory.get? roundValue = some v

/-- What is looked up in the machine tells the round. -/
def Turn.Shown (t : Turn) (m : Machine) : Prop :=
  t.ToldBy (fun n => m.properties.get? n) m.session.memory

/-- The set `batch` of the machine tells the round. -/
def Turn.Held (t : Turn) (m : Machine) : Prop :=
  t.ToldBy (fun n => Entries.get? n m.properties.ownSet) m.session.memory

namespace Turn

variable {t : Turn} {m m' : Machine}

theorem Held.shown (h : t.Held m) (hm : m.Lawful) : t.Shown m := by
  obtain ⟨key, v, helement, hindex, hkey, hvalue⟩ := h
  exact ⟨key, v, helement, PropertySets.get?_of_own hm.ownFirst hindex,
    fun k hk => PropertySets.get?_of_own hm.ownFirst (hkey k hk), hvalue⟩

theorem Held.of_keeps (h : t.Held m) (hm : Machine.Keeps m m') : t.Held m' := by
  obtain ⟨key, v, helement, hindex, hkey, hvalue⟩ := h
  exact ⟨key, v, helement, hm.own _ (by decide) _ hindex,
    fun k hk => hm.own _ (by decide) _ (hkey k hk), hm.memory.trans hvalue⟩

theorem held_enterRound {input : Value} {rs : List Round} {i : Nat} {r : Round}
    (hrounds : rounds input = .ok rs) (hr : rs[i]? = some r) (m : Machine) :
    Turn.Held ⟨input, i⟩ (m.enterRound i r.key r.value) := by
  rw [Held, Machine.enterRound_properties, PropertySets.ownSet_insert_own,
    Machine.enterRound_memory]
  refine ⟨r.key, r.value, ?_, ?_, fun k hk => ?_, Entries.get?_put_self _ _ _⟩
  · dsimp only
    rw [elements_of_rounds hrounds, List.getElem?_map, hr]
    rfl
  · exact (Entries.get?_putIf_of_ne roundKey_ne_roundIndex.symm _ _).trans
      (Entries.get?_put_self _ _ _)
  · exact (Entries.get?_putIf_self _ _ _).trans (by rw [hk, Option.some_or])

end Turn

namespace Point

variable {p q : Point} {l : Line} {t : Script}

/-- The next statement does not meddle with the names of a round. -/
def Spares (p : Point) : Prop := ∀ l t st, p.Next l t st → p.machine.Spares st

theorem Spares.obeys (h : p.Spares) : p.Obeys Machine.Preserves :=
  fun _ _ _ _ _ hnext _ hexec hm =>
    .of_effect hm (h _ _ _ hnext) (Machine.effect_of_execute hexec)

/-- The machine at a point is as it should be, and it tells the round that is under way. -/
structure Tells (p : Point) : Prop where
  lawful : p.machine.Lawful
  held : ∀ turn, p.turn = some turn → turn.Held p.machine

theorem Passes.turn_eq (h : p.Passes q) : q.turn = p.turn := by
  cases h <;> rfl

section Reaches

variable (hspares : ∀ q, p.Reaches q → q.Spares)
include hspares

theorem Tells.of_passes (hp : p.Tells) (h : p.Passes q) : q.Tells := by
  have hkeeps : Machine.Keeps p.machine q.machine :=
    Machine.compatible_preserves.of_passes (fun r hr => (hspares r hr).obeys) h hp.lawful
  refine ⟨hkeeps.lawful, fun turn hturn => ?_⟩
  rw [h.turn_eq] at hturn
  exact (hp.held turn hturn).of_keeps hkeeps

theorem Tells.of_enters (hp : p.Tells) (h : p.Enters q) : q.Tells := by
  cases h with
  | @round l body t rs i r vs m hloop hrounds hr hrun =>
    have hsteps := Machine.compatible_preserves.of_rounds (fun r hr => (hspares r hr).obeys) hloop
      hrounds hrun
    have hm := (Machine.others_of_rounds hp.lawful hsteps).1
    refine ⟨hm.enterRound i r.key r.value, fun turn hturn => ?_⟩
    cases hturn
    exact Turn.held_enterRound hrounds hr m
  | script => exact ⟨hp.lawful, nofun⟩

/-- Behind a loop the names of a round say what they said before it. -/
theorem looks_of_passes (hp : p.Tells) (hnext : p.Next l t .foreach) (h : p.Passes q) :
    q.machine.looks = p.machine.looks := by
  obtain ⟨m, hsteps, hm⟩ := Compatible.exists_leaveLoop (R := Machine.Preserves) hnext
    (fun r hr v m => Machine.compatible_preserves.of_outcome
      fun r' hr' => (hspares r' (hr.reaches.trans hr')).obeys) h
  obtain ⟨hlawful, hothers⟩ := Machine.others_of_rounds hp.lawful hsteps
  rw [hm, Machine.looks_leaveLoop hp.lawful hlawful hothers]

end Reaches

theorem Reaches.tells (h : p.Reaches q) (hspares : ∀ q, p.Reaches q → q.Spares) (hp : p.Tells) :
    q.Tells := by
  induction h with
  | refl => exact hp
  | @tail q r hq hstep ih =>
    have hrest (r : Point) (hr : q.Reaches r) : r.Spares := hspares r (Reaches.trans hq hr)
    exact hstep.elim (ih.of_passes hrest) (ih.of_enters hrest)

end Point

namespace Script

variable {s : Script} {v : Value} {m : Machine}

/-- **Loops tell their rounds.**  If no statement that a run comes to meddles with the names of a
round, then at every point in the body of a loop they tell the round of this loop, whatever loops
inside it have been run before, and behind a loop they say what they said before it.  Statements that
run other scripts need not be excluded. -/
theorem shown_of_reaches {depth : Nat} (hm : m.Lawful)
    (hspares : ∀ q, (s.begin depth v m).Reaches q → q.Spares) :
    (∀ q turn, (s.begin depth v m).Reaches q → q.turn = some turn → turn.Shown q.machine) ∧
      ∀ q r l t, (s.begin depth v m).Reaches q → q.Next l t .foreach → q.Passes r →
        r.machine.looks = q.machine.looks := by
  have hbegin : (s.begin depth v m).Tells := ⟨hm, nofun⟩
  refine ⟨fun q turn hq hturn => ?_, fun q r l t hq hnext hr => ?_⟩
  · have htells := hq.tells hspares hbegin
    exact (htells.held turn hturn).shown htells.lawful
  · exact Point.looks_of_passes (fun r hr => hspares r (hq.trans hr)) (hq.tells hspares hbegin)
      hnext hr

theorem shown_of_reaches_nested :
    let s := parse "main" <|
      "foreach\nforeach\nprint ${foreach.iteration.key}\nend\nprint ${foreach.index}\nend"
    let v : Value := .sequence [.mapping [("a", .string "x"), ("b", .string "y")]]
    Machine.Lawful {} ∧ (∀ q, (s.begin deepest v {}).Reaches q → q.Spares) ∧
      (∀ q turn, (s.begin deepest v {}).Reaches q → q.turn = some turn → turn.Shown q.machine) ∧
      (∀ q r l t, (s.begin deepest v {}).Reaches q → q.Next l t .foreach → q.Passes r →
        r.machine.looks = q.machine.looks) ∧
      (run s v {}).2.output = "ab0" := by
  intro s v
  have hm : Machine.Lawful {} := ⟨PropertySets.ownFirst_default, by decide, by decide⟩
  have hstatements : s.statements =
      [.ok .foreach, .ok .foreach, .ok (.print "${foreach.iteration.key}"), .ok .close,
        .ok (.print "${foreach.index}"), .ok .close] := by
    decide +kernel
  have hspares (q : Point) (hq : (s.begin deepest v {}).Reaches q) : q.Spares := by
    intro l t st hnext
    have hs : s.Holds s := holds_parse _ _
    have hmem := hq.mem_statements hs (by simp [hstatements]) hnext
    rw [hstatements] at hmem
    simp only [List.mem_cons, Except.ok.injEq, List.not_mem_nil, or_false] at hmem
    obtain rfl | rfl | rfl | rfl | rfl | rfl := hmem <;> trivial
  obtain ⟨hshown, hlooks⟩ := shown_of_reaches hm hspares
  exact ⟨hm, hspares, hshown, hlooks, by decide +kernel⟩

end Script

end YamlQuery.Batch

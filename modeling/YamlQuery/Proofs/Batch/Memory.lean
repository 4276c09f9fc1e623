import YamlQuery.Proofs.Batch.Rounds

/-!
# Proofs.Batch.Memory — what a run leaves in memory

No name goes from memory that was there before a run, and the names keep their order.  The element of
a round is brought back to what it was where a loop ends well (`Machine.Accrues`).  A run that fails
leaves its loops without that: memory then has the element of the innermost round that was under way,
be it in a script that has run the one that fails (`Point.Inside`).
-/

namespace YamlQuery.Batch

open Relation (ReflTransGen)

/-- The element that a round is about. -/
def Turn.element? (t : Turn) : Option Value := ((elements t.input)[t.index]?).map (·.2)

theorem Turn.element?_of_rounds {input : Value} {rs : List Round} {i : Nat} {r : Round}
    (hrounds : rounds input = .ok rs) (hr : rs[i]? = some r) :
    Turn.element? ⟨input, i⟩ = some r.value := by
  dsimp only [element?]
  rw [elements_of_rounds hrounds, List.getElem?_map, hr]
  rfl

namespace Machine

variable {m m' before : Machine}

/-- The second machine has the names in memory that the first has, in the same order and before all
others. -/
structure Extends (m m' : Machine) : Prop where
  distinct : m'.session.memory.Distinct
  keys : m.session.memory.keys <+: m'.session.memory.keys

/-- Besides that, it has the same element of a round. -/
structure Accrues (m m' : Machine) : Prop extends Extends m m' where
  element : m'.session.memory.get? roundValue = m.session.memory.get? roundValue

theorem Extends.trans {m'' : Machine} (h : Extends m m') (h' : Extends m' m'') :
    Extends m m'' where
  distinct := h'.distinct
  keys := h.keys.trans h'.keys

theorem extends_of_put {name : String} {v : Value} (hm : m.session.memory.Distinct)
    (h : m'.session.memory = m.session.memory.put name v) : Extends m m' where
  distinct := h ▸ hm.put name v
  keys := h ▸ Entries.keys_prefix_put name v _

theorem Accrues.of_memory_eq (hm : m.session.memory.Distinct)
    (h : m'.session.memory = m.session.memory) : Accrues m m' where
  distinct := h ▸ hm
  keys := h ▸ List.prefix_refl _
  element := h ▸ rfl

theorem Accrues.trans {m'' : Machine} (h : Accrues m m') (h' : Accrues m' m'') :
    Accrues m m'' where
  toExtends := h.toExtends.trans h'.toExtends
  element := h'.element.trans h.element

/-- The end of a loop brings back the element from before the loop, or takes it away where there was
none. -/
theorem Extends.leaveLoop (h : Extends before m) : Accrues before (before.leaveLoop m) := by
  refine ⟨⟨?_, ?_⟩, memory_leaveLoop h.distinct⟩ <;> rw [leaveLoop_memory]
  · exact h.distinct.assign roundValue _
  · rcases hvalue : before.session.memory.get? roundValue with _ | v
    · exact Entries.prefix_keys_erase h.keys ((Entries.get?_eq_none_iff _ _).1 hvalue)
    · exact h.keys.trans (Entries.keys_prefix_put roundValue v _)

/-- If no name occurs twice in memory, the second machine has more of it. -/
def Saves (m m' : Machine) : Prop := m.session.memory.Distinct → Accrues m m'

/-- Between the rounds of a loop the element is that of some round. -/
theorem extends_of_rounds (hm : m.session.memory.Distinct)
    (h : ReflTransGen (Point.AfterRound Saves) m m') : Extends m m' := by
  induction h with
  | refl => exact ⟨hm, List.prefix_refl _⟩
  | @tail m₁ m₂ _ hround ih =>
    obtain ⟨index, key, v, hsaves⟩ := hround
    have henter : Extends m₁ (m₁.enterRound index key v) :=
      extends_of_put ih.distinct (enterRound_memory m₁ index key v)
    exact (ih.trans henter).trans (hsaves henter.distinct).toExtends

theorem compatible_saves : Point.Compatible Saves where
  refl _ hm := .of_memory_eq hm rfl
  trans h h' hm := (h hm).trans (h' (h hm).distinct)
  loop h hm := (extends_of_rounds hm h).leaveLoop
  script h hm := { h hm with }

end Machine

namespace Point

/-- The next statement saves nothing under the name of the element of a round. -/
def SparesElement (p : Point) : Prop := ∀ l t target, p.Next l t (.saveTo target) →
  (Reference.parse (p.machine.expand target)).memoryName? ≠ some roundValue

/-- A run has come from the first point to the second, and the innermost round of a loop that is
under way since then is the given one, if there is any: a round of this script, or of one that has
run it. -/
inductive Inside (p : Point) : Option Turn → Point → Prop
  | start : Inside p none p
  | passes {turn : Option Turn} {q r : Point} :
      Inside p turn q → q.Passes r → Inside p turn r
  | enters {turn : Option Turn} {q r : Point} :
      Inside p turn q → q.Enters r → Inside p (r.turn.or turn) r

variable {p q : Point} {turn : Option Turn}

theorem SparesElement.obeys (h : p.SparesElement) : p.Obeys Machine.Saves := by
  intro l t st v m hnext _ hexec hm
  cases Machine.effect_of_execute hexec with
  | load _ _ hmemory => exact .of_memory_eq hm hmemory
  | set _ hmemory => exact .of_memory_eq hm hmemory
  | @save target name hname _ hput =>
    have hne : roundValue ≠ name := by
      rintro rfl
      exact h l t target hnext hname
    refine ⟨Machine.extends_of_put hm hput, ?_⟩
    rw [hput, Entries.get?_put, if_neg hne]
  | none _ hmemory => exact .of_memory_eq hm hmemory

theorem Inside.reaches (h : p.Inside turn q) : p.Reaches q := by
  induction h with
  | start => exact .refl p
  | passes _ hstep ih => exact ih.trans hstep.reaches
  | enters _ hstep ih => exact ih.trans hstep.reaches

theorem Reaches.exists_inside (h : p.Reaches q) : ∃ turn, p.Inside turn q := by
  induction h with
  | refl => exact ⟨none, .start⟩
  | tail _ hstep ih =>
    obtain ⟨turn, hq⟩ := ih
    exact hstep.elim (fun h => ⟨_, hq.passes h⟩) (fun h => ⟨_, hq.enters h⟩)

/-- In a run whose script neither saves values nor runs other scripts, no statement meddles with the
element. -/
theorem Reaches.sparesElement {s : Script} (h : p.Reaches q) (hs : s.Holds p.script)
    (hscript : ∀ path, .ok (.script path) ∉ s.statements)
    (hsave : ∀ target, .ok (.saveTo target) ∉ s.statements) : q.SparesElement :=
  fun _ _ target hnext => absurd (h.mem_statements hs hscript hnext) (hsave target)

/-- Memory at a point inside a round: the names from before, and the element of the round. -/
theorem Inside.memory (hp : p.machine.session.memory.Distinct)
    (hspares : ∀ q, p.Reaches q → q.SparesElement) (h : p.Inside turn q) :
    Machine.Extends p.machine q.machine ∧ q.machine.session.memory.get? roundValue =
      turn.elim (p.machine.session.memory.get? roundValue) Turn.element? := by
  induction h with
  | start => exact ⟨⟨hp, List.prefix_refl _⟩, rfl⟩
  | @passes turn q r hq hstep ih =>
    obtain ⟨hextends, helement⟩ := ih
    have haccrues : Machine.Accrues q.machine r.machine :=
      Machine.compatible_saves.of_passes (fun r hr => (hspares r (hq.reaches.trans hr)).obeys)
        hstep hextends.distinct
    exact ⟨hextends.trans haccrues.toExtends, haccrues.element.trans helement⟩
  | @enters turn q r hq hstep ih =>
    obtain ⟨hextends, helement⟩ := ih
    cases hstep with
    | @round l body t rs i round vs m hloop hrounds hround hrun =>
      have hsteps := Machine.compatible_saves.of_rounds
        (fun r hr => (hspares r (hq.reaches.trans hr)).obeys) hloop hrounds hrun
      have hbetween := Machine.extends_of_rounds hextends.distinct hsteps
      have henter := Machine.extends_of_put hbetween.distinct
        (Machine.enterRound_memory m i round.key round.value)
      refine ⟨(hextends.trans hbetween).trans henter, ?_⟩
      rw [Machine.enterRound_memory, Entries.get?_put_self]
      exact (Turn.element?_of_rounds hrounds hround).symm
    | script => exact ⟨hextends, helement⟩

end Point

namespace Script

variable {s : Script} {v : Value} {m m' : Machine} {x : Except Failure Value}

/-- **What a run leaves in memory.**  If no statement that a run executes saves anything under the
name of the element of a round, then all names in memory from before keep their order.  A run that
ends well leaves the element as it was before.  A run that fails at a point leaves the element of the
innermost round that is under way there, if there is one, and else the element from before; so the
element is as it was before exactly if no round is under way or its element is the same. -/
theorem element_of_run {depth : Nat} (hm : m.session.memory.Distinct)
    (hspares : ∀ q, (s.begin depth v m).Reaches q → q.SparesElement)
    (hrun : runTo depth s v m = (x, m')) :
    m.session.memory.keys <+: m'.session.memory.keys ∧
      (∀ w, x = .ok w →
        m'.session.memory.get? roundValue = m.session.memory.get? roundValue) ∧
      ∀ e, x = .error e → ∃ q turn, (s.begin depth v m).Inside turn q ∧ q.Faults e ∧
        m'.session.memory.get? roundValue =
          turn.elim (m.session.memory.get? roundValue) Turn.element? ∧
        (m'.session.memory.get? roundValue = m.session.memory.get? roundValue ↔
          ∀ t, turn = some t → t.element? = m.session.memory.get? roundValue) := by
  have hout : (s.begin depth v m).outcome = (x, m') := hrun
  rcases x with e | w
  · obtain ⟨q, hq, hfaults, hsession⟩ := Point.exists_faults_session hout
    obtain ⟨turn, hinside⟩ := hq.exists_inside
    obtain ⟨hextends, helement⟩ := hinside.memory hm hspares
    rw [← hsession] at helement
    have hkeys := hextends.keys
    rw [← hsession] at hkeys
    refine ⟨hkeys, nofun, fun e' he => ?_⟩
    cases he
    refine ⟨q, turn, hinside, hfaults, helement, ?_⟩
    rw [helement]
    cases turn with
    | none => exact iff_of_true rfl nofun
    | some t => exact ⟨fun h _ ht => Option.some.inj ht ▸ h, fun h => h t rfl⟩
  · have haccrues : Machine.Accrues m m' :=
      Machine.compatible_saves.of_outcome (fun q hq => (hspares q hq).obeys) hout hm
    exact ⟨haccrues.keys, fun _ _ => haccrues.element, nofun⟩

theorem element_of_run_nested :
    let s := parse "main" "foreach\n  foreach\n  end\n  print !x\nend\n"
    let element : Value := .mapping [("a", .null)]
    let v : Value := .sequence [element]
    let m : Machine := { session := { memory := [("k", .null)] } }
    let e : Failure := ⟨"main", 4, "  print !x", .reference (.nothingStored "x")⟩
    m.session.memory.Distinct ∧ (∀ q, (s.begin deepest v m).Reaches q → q.SparesElement) ∧
      (run s v m).1 = .error e ∧ (run s v m).2.session.memory.get? roundValue = some element ∧
      m.session.memory.keys <+: (run s v m).2.session.memory.keys ∧
      ∃ q turn, (s.begin deepest v m).Inside turn q ∧ q.Faults e ∧
        (run s v m).2.session.memory.get? roundValue =
          turn.elim (m.session.memory.get? roundValue) Turn.element? ∧
        ((run s v m).2.session.memory.get? roundValue = m.session.memory.get? roundValue ↔
          ∀ t, turn = some t → t.element? = m.session.memory.get? roundValue) := by
  intro s element v m e
  have hstatements : s.statements = [.ok .foreach, .ok .foreach, .ok .close,
      .ok (.print "!x"), .ok .close] := by decide +kernel
  have hm : m.session.memory.Distinct := by decide
  have hs : s.Holds s := holds_parse _ _
  have hspares (q : Point) (hq : (s.begin deepest v m).Reaches q) : q.SparesElement :=
    hq.sparesElement hs (by simp [hstatements]) (by simp [hstatements])
  have hrun : (run s v m).1 = .error e := by decide +kernel
  obtain ⟨hkeys, -, herror⟩ := element_of_run hm hspares (Prod.ext hrun rfl)
  exact ⟨hm, hspares, hrun, by decide +kernel, hkeys, herror e rfl⟩

/-- A run that fails in a loop leaves the element of its round in the place of what was stored under
that name. -/
theorem element_after_failure :
    let s := parse "main.batch" "foreach\nprint !nowhere\nend"
    let v : Value := .sequence [.string "v"]
    let m : Machine := { session := { memory := [(roundValue, .string "mine")] } }
    (∀ q, (s.begin deepest v m).Reaches q → q.SparesElement) ∧
      (run s v m).1 =
        .error ⟨"main.batch", 2, "print !nowhere", .reference (.nothingStored "nowhere")⟩ ∧
      (run s v m).2.session.memory.get? roundValue = some (.string "v") ∧
      m.session.memory.get? roundValue = some (.string "mine") := by
  intro s v m
  have hstatements : s.statements =
      [.ok .foreach, .ok (.print "!nowhere"), .ok .close] := by decide +kernel
  have hs : s.Holds s := holds_parse _ _
  refine ⟨fun q hq => ?_, by decide +kernel, by decide +kernel, by decide +kernel⟩
  exact hq.sparesElement hs (by simp [hstatements]) (by simp [hstatements])

end Script

end YamlQuery.Batch

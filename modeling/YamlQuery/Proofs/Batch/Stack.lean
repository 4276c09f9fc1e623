import Mathlib.Logic.Relation
import YamlQuery.Proofs.Batch.Balance

/-!
# Proofs.Batch.Stack — runs step by step

A run of a script that runs no others needs no more than a stack of the loops that are under way.  A
step takes one line, or goes on with a loop whose round has come to its end (`Process.step`); nothing
in it is recursive.

Whatever loops are under way below, the steps over the lines of a script come to what the run of the
script gives (`Process.comes_runWith`).  So the steps from the start of a script come to an end, and it
is the end of its run.  On the way the stack is never higher than the script has lines that open
loops, each loop has a body that is shorter than the lines behind its first one, and its rounds are
those that it started with (`Script.ends_of_runsNoOther`).
-/

namespace YamlQuery.Batch

open Relation (ReflTransGen)

/-- A loop under way: the value that it goes through, the machine before it, the script behind its
first line, its body, the script behind its end, how many rounds have been begun, the rounds that
are left, and the results so far. -/
structure OpenLoop where
  input : Value
  before : Machine
  opened : Script
  body : Script
  behind : Script
  begun : Nat
  left : List Round
  results : List Value

/-- A run under way: the lines that are left of the current script, the current value, the machine,
and the loops under way, the innermost first. -/
structure Process where
  script : Script
  value : Value
  machine : Machine
  loops : List OpenLoop := []

/-- The loop goes on with the next round, or the run goes on behind it. -/
def OpenLoop.goOn (f : OpenLoop) (m : Machine) (loops : List OpenLoop) : Process :=
  match f.left with
  | [] => ⟨f.behind, .sequence f.results, f.before.leaveLoop m, loops⟩
  | r :: rs =>
    ⟨f.body, r.input, m.enterRound f.begun r.key r.value,
      { f with begun := f.begun + 1, left := rs } :: loops⟩

/-- What a run gives. -/
abbrev Outcome := Except Failure Value × Machine

namespace Process

/-- The step that takes a line: it leads to the outcome of the run, or the run goes on.  Other scripts
are not run. -/
def stepAt (p : Process) (l : Line) (t : Script) : Outcome ⊕ Process :=
  match Statement.parse l.content with
  | .error e => .inl (.error ((Fault.malformed e).at p.script l), p.machine)
  | .ok .close => .inl (.error (Fault.strayEnd.at p.script l), p.machine)
  | .ok .foreach =>
    match t.takeBlock? with
    | none => .inl (.error (Fault.openLoop.at p.script l), p.machine)
    | some (body, behind) =>
      match rounds p.value with
      | .error f => .inl (.error (f.at p.script l), p.machine)
      | .ok left =>
        .inr (OpenLoop.goOn ⟨p.value, p.machine, t, body, behind, 0, left, []⟩ p.machine p.loops)
  | .ok (.script _) => .inl (.error (Fault.tooDeep.at p.script l), p.machine)
  | .ok statement =>
    match p.machine.execute p.value statement with
    | (.error f, m) => .inl (.error (f.at p.script l), m)
    | (.ok v, m) => .inr { p with script := t, value := v, machine := m }

/-- A step takes the next line.  Where no line is left, the round of the innermost loop has ended, or
the run has. -/
def step (p : Process) : Outcome ⊕ Process :=
  match p.script.next?, p.loops with
  | some (l, t), _ => p.stepAt l t
  | none, f :: loops => .inr ({ f with results := f.results ++ [p.value] }.goOn p.machine loops)
  | none, [] => .inl (.ok p.value, p.machine)

/-- The run goes on from one process to the other. -/
def Steps : Process → Process → Prop := ReflTransGen fun p q => p.step = .inr q

/-- The steps end with an outcome. -/
def Ends (p : Process) (x : Outcome) : Prop := ∃ q, p.Steps q ∧ q.step = .inl x

/-- The steps over a statement come to an outcome: to the script behind it, or to a failure. -/
inductive Passes (p : Process) (t : Script) : Outcome → Prop
  | ok {v : Value} {m : Machine} : p.Steps ⟨t, v, m, p.loops⟩ → Passes p t (.ok v, m)
  | error {e : Failure} {m : Machine} : p.Ends (.error e, m) → Passes p t (.error e, m)

/-- The steps over the lines of the current script come to an outcome: to the end of the lines, or to
a failure. -/
inductive Comes (p : Process) : Outcome → Prop
  | ok {t : Script} {v : Value} {m : Machine} :
      t.next? = none → p.Steps ⟨t, v, m, p.loops⟩ → Comes p (.ok v, m)
  | error {e : Failure} {m : Machine} : p.Ends (.error e, m) → Comes p (.error e, m)

variable {p q : Process} {s t body behind : Script} {l : Line} {x : Outcome}

theorem step_of_next (h : p.script.next? = some (l, t)) : p.step = p.stepAt l t := by
  rw [step, h]

theorem Ends.of_steps (h : p.Steps q) (hq : q.Ends x) : p.Ends x := by
  obtain ⟨r, hr, hx⟩ := hq
  exact ⟨r, ReflTransGen.trans h hr, hx⟩

theorem Ends.of_step (h : p.step = .inl x) : p.Ends x := ⟨p, .refl, h⟩

/-- The steps over a statement, and then those over the lines behind it. -/
theorem Passes.comes {next : Runner} (h : p.Passes t x)
    (hnext : ∀ v m, (⟨t, v, m, p.loops⟩ : Process).Comes (next v m)) :
    p.Comes (andThen x next) := by
  cases h with
  | error h => exact .error h
  | @ok v m h =>
    have hbehind := hnext v m
    rw [andThen]
    generalize next v m = y at hbehind
    cases hbehind with
    | error hbehind => exact .error (.of_steps h hbehind)
    | ok hu hsteps => exact .ok hu (ReflTransGen.trans h hsteps)

/-! ### Loops -/

/-- The rounds that are left of a loop, if the steps over its body come to what the body gives. -/
theorem steps_goOn {run : Runner} (m' : Machine) (loops : List OpenLoop) : ∀ {rs : List Round}
    {f : OpenLoop} {m : Machine}, f.left = rs →
    (∀ v m loops, (⟨f.body, v, m, loops⟩ : Process).Comes (run v m)) →
      (∀ vs, runRounds run f.begun rs m = (.ok vs, m') → (f.goOn m loops).Steps
        ⟨f.behind, .sequence (f.results ++ vs), f.before.leaveLoop m', loops⟩) ∧
      ∀ e, runRounds run f.begun rs m = (.error e, m') → (f.goOn m loops).Ends (.error e, m')
  | [], f, m, hleft, _ => by
    rw [OpenLoop.goOn, hleft, runRounds]
    refine ⟨fun vs h => ?_, fun e h => by cases h⟩
    cases h
    rw [List.append_nil]
    exact .refl
  | r :: rs, f, m, hleft, hbody => by
    rw [OpenLoop.goOn, hleft, runRounds]
    dsimp only
    generalize hg : ({ f with begun := f.begun + 1, left := rs } : OpenLoop) = g
    have hround := hbody r.input (m.enterRound f.begun r.key r.value) (g :: loops)
    generalize run r.input (m.enterRound f.begun r.key r.value) = x at hround
    cases hround with
    | error h =>
      refine ⟨fun vs hvs => (by cases hvs), fun e he => ?_⟩
      cases he
      exact h
    | @ok t v m₁ ht hround =>
      dsimp only
      -- the round has come to the end of its lines, and the loop goes on with its result
      have hback : Process.step ⟨t, v, m₁, g :: loops⟩ =
          .inr ({ g with results := g.results ++ [v] }.goOn m₁ loops) := by
        rw [step, ht]
      have hsteps := ReflTransGen.tail hround hback
      obtain ⟨hok, herror⟩ := steps_goOn m' loops (m := m₁)
        (f := { g with results := g.results ++ [v] }) (by rw [← hg]) (by rw [← hg]; exact hbody)
      subst hg
      dsimp only at hok herror
      rcases hrs : runRounds run (f.begun + 1) rs m₁ with ⟨e | vs, m₂⟩
      · refine ⟨fun vs hvs => (by cases hvs), fun e he => ?_⟩
        cases he
        exact .of_steps hsteps (herror e hrs)
      · refine ⟨fun vs hvs => ?_, fun e he => by cases he⟩
        cases hvs
        have hrest := hok _ hrs
        rw [List.append_assoc] at hrest
        exact hsteps.trans hrest

theorem passes_loop {run : Runner} (hnext : p.script.next? = some (l, t))
    (hparse : Statement.parse l.content = .ok .foreach) (hblock : t.takeBlock? = some (body, behind))
    (hbody : ∀ v m loops, (⟨body, v, m, loops⟩ : Process).Comes (run v m)) :
    p.Passes behind (runLoop (·.at p.script l) run p.value p.machine) := by
  rw [runLoop]
  rcases hrounds : rounds p.value with f | rs
  · exact .error (.of_step (by simp only [step_of_next hnext, stepAt, hparse, hblock, hrounds]))
  · have hopen : p.step = .inr (OpenLoop.goOn ⟨p.value, p.machine, t, body, behind, 0, rs, []⟩
        p.machine p.loops) := by
      simp only [step_of_next hnext, stepAt, hparse, hblock, hrounds]
    dsimp only
    rcases hrs : runRounds run 0 rs p.machine with ⟨e | vs, m⟩ <;>
      obtain ⟨hok, herror⟩ := steps_goOn m p.loops (m := p.machine)
        (f := ⟨p.value, p.machine, t, body, behind, 0, rs, []⟩) rfl hbody
    · exact .error (.of_steps (ReflTransGen.single hopen) (herror e hrs))
    · exact .ok (ReflTransGen.head hopen (hok vs hrs))

/-! ### Runs -/

theorem passes_plain {statement : Statement} (hnext : p.script.next? = some (l, t))
    (hparse : Statement.parse l.content = .ok statement) (hplain : statement.IsPlain) :
    p.Passes t (p.machine.executeAt p.script l p.value statement) := by
  have hstep : p.step = match p.machine.execute p.value statement with
      | (.error f, m) => .inl (.error (f.at p.script l), m)
      | (.ok v, m) => .inr { p with script := t, value := v, machine := m } := by
    rw [step_of_next hnext, stepAt, hparse]
    cases statement with
    | foreach | close | script => exact hplain.elim
    | _ => rfl
  rw [Machine.executeAt]
  rcases hexec : p.machine.execute p.value statement with ⟨f | v, m⟩
  · rw [hexec] at hstep
    exact .error (.of_step hstep)
  · rw [hexec] at hstep
    exact .ok (ReflTransGen.single hstep)

end Process

/-- No line that is left runs another script. -/
def Script.RunsNoOther (s : Script) : Prop := s.Each fun st => ∀ path, st ≠ .script path

/-- The steps over the lines that are left come to what their run gives, whatever loops are under way
below. -/
theorem Process.comes_runWith (other : (Fault → Failure) → String → Runner) (s : Script) :
    s.RunsNoOther → ∀ v m loops, (⟨s, v, m, loops⟩ : Process).Comes (runWith other s v m) := by
  induction s using Script.induction_rest with
  | h s ih =>
    intro hs v m loops
    rcases hnext : s.next? with _ | ⟨l, t⟩
    · rw [runWith_of_finished hnext]
      exact .ok hnext .refl
    have hlen := Script.length_rest_of_next? hnext
    have ht := hs.next hnext
    rw [runWith_of_next hnext, runLine]
    have hstep := step_of_next (p := ⟨s, v, m, loops⟩) hnext
    rcases hparse : Statement.parse l.content with e | statement
    · exact .error (.of_step (by simp only [hstep, stepAt, hparse]))
    have hplain (h : statement.IsPlain) : (⟨s, v, m, loops⟩ : Process).Comes
        (andThen (m.executeAt s l v statement) (runWith other t)) :=
      (passes_plain hnext hparse h).comes fun v m => ih t hlen ht v m loops
    cases statement with
    | close => exact .error (.of_step (by simp only [hstep, stepAt, hparse]))
    | foreach =>
      dsimp only
      rcases hblock : t.takeBlock? with _ | ⟨body, behind⟩
      · exact .error (.of_step (by simp only [hstep, stepAt, hparse, hblock]))
      · have hlen' := Script.length_rest_of_takeBlock? hblock
        obtain ⟨hbody, hbehind⟩ := ht.takeBlock hblock
        exact (passes_loop hnext hparse hblock (ih body (by omega) hbody)).comes
          fun v m => ih behind (by omega) hbehind v m loops
    | script path => exact absurd rfl (hs.statement hnext hparse path)
    | _ => exact hplain trivial

/-! ### What holds on the way -/

/-- The loop has the block behind its first line as its body, and the rounds that are left of it are
the last of those that it started with. -/
structure OpenLoop.Holds (f : OpenLoop) : Prop where
  block : f.opened.takeBlock? = some (f.body, f.behind)
  rounds_left : ∃ rs, rounds f.input = .ok rs ∧ f.left = rs.drop f.begun

/-- With the loops below a loop, neither its body nor the lines behind it open more than `limit`. -/
def LoopsFit (limit : Nat) : List OpenLoop → Prop
  | [] => True
  | f :: loops => openings f.body.rest + loops.length + 1 ≤ limit ∧
      openings f.behind.rest + loops.length ≤ limit ∧ LoopsFit limit loops

theorem openings_le_cons (l : Line) (ls : List Line) : openings ls ≤ openings (l :: ls) :=
  (List.sublist_cons_self l ls).countP_le

namespace Process

/-- The loops under way and those that the current lines open are no more than `limit`. -/
structure Fits (limit : Nat) (p : Process) : Prop where
  script : openings p.script.rest + p.loops.length ≤ limit
  loops : LoopsFit limit p.loops
  holds : ∀ f ∈ p.loops, f.Holds

variable {p q : Process} {limit : Nat} {x : Outcome}

/-- A step goes on with a loop whose round has ended, or passes a plain statement, or opens a
loop. -/
theorem step_cases (h : p.step = .inr q) :
    (∃ f loops, p.loops = f :: loops ∧
      q = { f with results := f.results ++ [p.value] }.goOn p.machine loops) ∨
    ∃ l t, p.script.next? = some (l, t) ∧
      ((∃ v m, q = { p with script := t, value := v, machine := m }) ∨
      ∃ body behind rs, Statement.parse l.content = .ok .foreach ∧
        t.takeBlock? = some (body, behind) ∧ rounds p.value = .ok rs ∧
        q = OpenLoop.goOn ⟨p.value, p.machine, t, body, behind, 0, rs, []⟩ p.machine p.loops) := by
  rcases hnext : p.script.next? with _ | ⟨l, t⟩
  · rw [step, hnext] at h
    rcases hloops : p.loops with _ | ⟨f, loops⟩
    · rw [hloops] at h
      cases h
    · rw [hloops] at h
      exact .inl ⟨f, loops, rfl, (Sum.inr.inj h).symm⟩
  · refine .inr ⟨l, t, rfl, ?_⟩
    rw [step_of_next hnext, stepAt] at h
    split at h
    · cases h
    · cases h
    · next hparse =>
      split at h
      · cases h
      · next body behind hblock =>
        split at h
        · cases h
        · next rs hrounds =>
          exact .inr ⟨body, behind, rs, hparse, hblock, hrounds, (Sum.inr.inj h).symm⟩
    · cases h
    · split at h
      · cases h
      · next v m _ => exact .inl ⟨v, m, (Sum.inr.inj h).symm⟩

theorem fits_goOn {f : OpenLoop} {loops : List OpenLoop} (m : Machine) (hf : f.Holds)
    (hfits : LoopsFit limit (f :: loops)) (hloops : ∀ g ∈ loops, g.Holds) :
    (f.goOn m loops).Fits limit := by
  obtain ⟨hbody, hbehind, hrest⟩ := hfits
  obtain ⟨rs, hrounds, hleft⟩ := hf.rounds_left
  rw [OpenLoop.goOn]
  split
  · exact ⟨hbehind, hrest, hloops⟩
  · next r left hcons =>
    refine ⟨hbody, ⟨hbody, hbehind, hrest⟩, ?_⟩
    intro g hg
    obtain rfl | hg := List.mem_cons.1 hg
    · refine ⟨hf.block, rs, hrounds, ?_⟩
      rw [hcons] at hleft
      dsimp only
      rw [← List.tail_drop, ← hleft, List.tail_cons]
    · exact hloops g hg

theorem Fits.of_step (hp : p.Fits limit) (h : p.step = .inr q) : q.Fits limit := by
  obtain ⟨f, loops, hloops, rfl⟩ | ⟨l, t, hnext, ⟨v, m, rfl⟩ |
    ⟨body, behind, rs, hparse, hblock, hrounds, rfl⟩⟩ := step_cases h
  · have hfits := hp.loops
    have hholds := hp.holds
    rw [hloops] at hfits hholds
    have hf := hholds f List.mem_cons_self
    exact fits_goOn p.machine ⟨hf.block, hf.rounds_left⟩ hfits
      fun g hg => hholds g (List.mem_cons_of_mem f hg)
  · refine ⟨?_, hp.loops, hp.holds⟩
    have hopenings := hp.script
    rw [Script.rest_of_next? hnext] at hopenings
    exact le_trans (Nat.add_le_add_right (openings_le_cons l t.rest) _) hopenings
  · obtain ⟨e, hrest⟩ := Script.rest_of_takeBlock? hblock
    have hopenings := hp.script
    have hkeyword := Line.keyword_of_parse (d := .opening) hparse
    rw [Script.rest_of_next? hnext, (openings_cons_of_open hkeyword).1, hrest, openings_append]
      at hopenings
    have hbehind := openings_le_cons e behind.rest
    refine fits_goOn p.machine ⟨hblock, rs, hrounds, rfl⟩ ⟨?_, ?_, hp.loops⟩ hp.holds <;>
      dsimp only <;> omega

theorem Fits.of_steps (hp : p.Fits limit) (h : p.Steps q) : q.Fits limit := by
  induction h with
  | refl => exact hp
  | tail _ hstep ih => exact ih.of_step hstep

/-- All steps of a run lie on the way to its end. -/
theorem Ends.behind (h : p.Ends x) (hq : p.Steps q) : q.Ends x := by
  obtain ⟨r, hr, hx⟩ := h
  have hunique : Relator.RightUnique fun p q : Process => p.step = .inr q :=
    fun _ _ _ h h' => Sum.inr.inj (h.symm.trans h')
  obtain hqr | hrq := ReflTransGen.total_of_right_unique hunique hq hr
  · exact ⟨r, hqr, hx⟩
  · obtain rfl | ⟨r', hr', -⟩ := ReflTransGen.cases_head hrq
    · exact ⟨_, .refl, hx⟩
    · cases hx.symm.trans hr'

/-- How many runs are under way, one in another. -/
def nesting (p : Process) : Nat := p.loops.length + 1

end Process

namespace Script

/-- **Runs come to an end.**  If no line of a script runs another script, then its steps come to an
end, and the outcome is that of its run.  On the way, no more runs are under way, one in another, than
the script has lines that open loops, and one.  The body of each loop under way is a part of the lines
that are left behind the first line of the loop, and shorter than these, and the rounds to come are
those that were there when the loop began. -/
theorem ends_of_runsNoOther {s : Script} (hs : s.RunsNoOther) (depth : Nat) (v : Value)
    (m : Machine) : (⟨s, v, m, []⟩ : Process).Ends (runTo depth s v m) ∧
      ∀ p, (⟨s, v, m, []⟩ : Process).Steps p → p.Ends (runTo depth s v m) ∧
        p.nesting ≤ openings s.rest + 1 ∧
        ∀ f ∈ p.loops, f.Holds ∧ f.body.rest.length < f.opened.rest.length := by
  have hends : (⟨s, v, m, []⟩ : Process).Ends (runTo depth s v m) := by
    have hcomes := Process.comes_runWith (runOther depth) s hs v m []
    change Process.Comes _ (runTo depth s v m) at hcomes
    generalize runTo depth s v m = x at hcomes
    cases hcomes with
    | error h => exact h
    | @ok t w m' ht hsteps => exact ⟨_, hsteps, by rw [Process.step, ht]⟩
  have hstart : (⟨s, v, m, []⟩ : Process).Fits (openings s.rest) :=
    ⟨le_refl _, trivial, fun _ h => absurd h List.not_mem_nil⟩
  refine ⟨hends, fun p hp => ⟨hends.behind hp, ?_, fun f hf => ?_⟩⟩
  · have hopenings := (hstart.of_steps hp).script
    rw [Process.nesting]
    omega
  · have hholds := (hstart.of_steps hp).holds f hf
    have hlt := length_rest_of_takeBlock? hholds.block
    exact ⟨hholds, by omega⟩

theorem ends_of_runsNoOther_unbalanced :
    let s := parse "main" "foreach\n  foreach\n    print x\n  end\nend\nend\n"
    let v : Value := .sequence [.mapping [("a", .null)], .mapping []]
    s.RunsNoOther ∧ (run s v {}).1 = .error ⟨"main", 6, "end", .strayEnd⟩ ∧
      openings s.rest = 2 ∧ (⟨s, v, {}, []⟩ : Process).Ends (run s v {}) ∧
      ∀ p, (⟨s, v, {}, []⟩ : Process).Steps p → p.Ends (run s v {}) ∧
        p.nesting ≤ openings s.rest + 1 ∧
        ∀ f ∈ p.loops, f.Holds ∧ f.body.rest.length < f.opened.rest.length := by
  intro s v
  have hstatements : s.contents.map Statement.parse = [.ok .foreach, .ok .foreach,
      .ok (.print "x"), .ok .close, .ok .close, .ok .close] := by decide +kernel
  have hs : s.RunsNoOther := by
    rintro text htext _ hparse path rfl
    have hmem := List.mem_map_of_mem (f := Statement.parse) htext
    rw [hstatements, hparse] at hmem
    simp at hmem
  exact ⟨hs, by decide +kernel, by decide +kernel, ends_of_runsNoOther hs deepest v {}⟩

end Script

end YamlQuery.Batch

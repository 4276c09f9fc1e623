import Mathlib.Logic.Relation
import Mathlib.Order.WellFounded
import YamlQuery.Proofs.Batch.Delimiters

/-!
# Proofs.Batch.Points — the points that a run comes to

A run is at a point of a script with a current value and a machine.  From there it passes the next
statement as a whole (`Point.Passes`), or it goes into it: into a round of a loop, or into another
script (`Point.Enters`).  The statements that a run executes are those at the points it comes to
(`Point.Reaches`).

A run goes on from behind the statement that it passes (`Point.Passes.outcome_eq`), and a run that
fails has come to a point whose own statement fails, and leaves the session as it was there
(`Point.exists_faults_session`).

What holds of the machines before and after a run is derived from what holds for single statements
(`Point.Compatible.of_outcome`): the relation between them has to get along with loops and with
other scripts, and nothing more.
-/

namespace YamlQuery.Batch

open Relation (ReflTransGen)

/-- The statement neither opens or closes a loop nor runs another script. -/
def Statement.IsPlain : Statement → Prop
  | .foreach | .close | .script _ => False
  | _ => True

/-- A round of a loop that is under way: the value that the loop goes through, and the number of the
round. -/
structure Turn where
  input : Value
  index : Nat

/-- Where a run is: how deep scripts may run each other from here on, the innermost round of a loop
of this script, the lines that are left, the current value and the machine. -/
structure Point where
  depth : Nat
  turn : Option Turn := none
  script : Script
  value : Value
  machine : Machine

namespace Point

/-- What the run of the lines that are left gives. -/
def outcome (p : Point) : Except Failure Value × Machine :=
  runWith (runOther p.depth) p.script p.value p.machine

/-- The point behind the next statement. -/
def behind (p : Point) (t : Script) (v : Value) (m : Machine) : Point :=
  { p with script := t, value := v, machine := m }

/-- The next statement, its line, and the script behind the line. -/
structure Next (p : Point) (l : Line) (t : Script) (st : Statement) : Prop where
  line : p.script.next? = some (l, t)
  parse : Statement.parse l.content = .ok st

/-- The next statement opens a loop with a body; the script goes on behind its end. -/
def Loop (p : Point) (l : Line) (body t : Script) : Prop :=
  ∃ t₀, p.Next l t₀ .foreach ∧ t₀.takeBlock? = some (body, t)

/-- The next statement runs the script at a path. -/
def Calls (p : Point) (l : Line) (t : Script) (path : String) : Prop :=
  ∃ text, p.Next l t (.script text) ∧
    path = scriptPath p.machine.files p.script (p.machine.expand text)

/-- The run passes the next statement. -/
inductive Passes : Point → Point → Prop
  | plain {p : Point} {l : Line} {t : Script} {st : Statement} {v : Value} {m : Machine} :
      p.Next l t st → st.IsPlain → p.machine.execute p.value st = (.ok v, m) →
        Passes p (p.behind t v m)
  | loop {p : Point} {l : Line} {body t : Script} {v : Value} {m : Machine} :
      p.Loop l body t →
      runLoop (·.at p.script l) (runWith (runOther p.depth) body) p.value p.machine = (.ok v, m) →
        Passes p (p.behind t v m)
  | script {p : Point} {l : Line} {t : Script} {path : String} {v : Value} {m : Machine} :
      p.Calls l t path →
      runOther p.depth (·.at p.script l) path p.value p.machine = (.ok v, m) →
        Passes p (p.behind t v m)

/-- The run goes into the next statement: into a round of a loop, when the rounds before it have
ended well, or into another script. -/
inductive Enters : Point → Point → Prop
  | round {p : Point} {l : Line} {body t : Script} {rs : List Round} {i : Nat} {r : Round}
      {vs : List Value} {m : Machine} :
      p.Loop l body t → rounds p.value = .ok rs → rs[i]? = some r →
      runRounds (runWith (runOther p.depth) body) 0 (rs.take i) p.machine = (.ok vs, m) →
        Enters p ⟨p.depth, some ⟨p.value, i⟩, body, r.input, m.enterRound i r.key r.value⟩
  | script {p : Point} {l : Line} {t : Script} {path : String} {depth : Nat} {s : Script} :
      p.Calls l t path → p.depth = depth + 1 → Script.load? p.machine.files path = some s →
        Enters p ⟨depth, none, s, p.value, p.machine⟩

/-- The run passes the next statement or goes into it. -/
def Step (p q : Point) : Prop := p.Passes q ∨ p.Enters q

/-- The run comes to a point. -/
def Reaches : Point → Point → Prop := ReflTransGen Step

/-- The next statement itself fails. -/
inductive Faults : Point → Failure → Prop
  | malformed {p : Point} {l : Line} {t : Script} {e : StatementError} :
      p.script.next? = some (l, t) → Statement.parse l.content = .error e →
        Faults p ((Fault.malformed e).at p.script l)
  | strayEnd {p : Point} {l : Line} {t : Script} :
      p.Next l t .close → Faults p (Fault.strayEnd.at p.script l)
  | openLoop {p : Point} {l : Line} {t : Script} :
      p.Next l t .foreach → t.takeBlock? = none → Faults p (Fault.openLoop.at p.script l)
  | shape {p : Point} {l : Line} {body t : Script} {f : Fault} :
      p.Loop l body t → rounds p.value = .error f → Faults p (f.at p.script l)
  | plain {p : Point} {l : Line} {t : Script} {st : Statement} {f : Fault} {m : Machine} :
      p.Next l t st → st.IsPlain → p.machine.execute p.value st = (.error f, m) →
        Faults p (f.at p.script l)
  | tooDeep {p : Point} {l : Line} {t : Script} {path : String} :
      p.Calls l t path → p.depth = 0 → Faults p (Fault.tooDeep.at p.script l)
  | unreadable {p : Point} {l : Line} {t : Script} {path : String} {depth : Nat} :
      p.Calls l t path → p.depth = depth + 1 → Script.load? p.machine.files path = none →
        Faults p ⟨path, 0, "", .unreadable⟩

variable {p q : Point} {l : Line} {t body : Script} {v : Value} {m : Machine} {e : Failure}

theorem Reaches.refl (p : Point) : p.Reaches p := ReflTransGen.refl

theorem Reaches.trans {r : Point} (h : p.Reaches q) (h' : q.Reaches r) : p.Reaches r :=
  ReflTransGen.trans h h'

theorem Passes.reaches (h : p.Passes q) : p.Reaches q := ReflTransGen.single (.inl h)

theorem Enters.reaches (h : p.Enters q) : p.Reaches q := ReflTransGen.single (.inr h)

/-! ### What the next statement does -/

section Next

theorem Next.unique {l' : Line} {t' : Script} {st st' : Statement} (h : p.Next l t st)
    (h' : p.Next l' t' st') : st = st' := by
  obtain ⟨rfl, -⟩ := Prod.mk.inj (Option.some.inj (h.line.symm.trans h'.line))
  exact Except.ok.inj (h.parse.symm.trans h'.parse)

theorem outcome_of_finished (h : p.script.next? = none) : p.outcome = (.ok p.value, p.machine) :=
  runWith_of_finished h

theorem outcome_eq_runLine (h : p.script.next? = some (l, t)) :
    p.outcome = runLine (runOther p.depth) p.script l t p.value p.machine :=
  runWith_of_next h

theorem outcome_of_plain {st : Statement} (h : p.Next l t st) (hst : st.IsPlain) :
    p.outcome = andThen (p.machine.executeAt p.script l p.value st)
      (runWith (runOther p.depth) t) := by
  rw [outcome_eq_runLine h.line, runLine, h.parse]
  cases st with
  | foreach | close | script => exact hst.elim
  | _ => rfl

theorem outcome_of_loop (h : p.Loop l body t) :
    p.outcome = andThen
      (runLoop (·.at p.script l) (runWith (runOther p.depth) body) p.value p.machine)
      (runWith (runOther p.depth) t) := by
  obtain ⟨t₀, hnext, hblock⟩ := h
  rw [outcome_eq_runLine hnext.line, runLine, hnext.parse]
  dsimp only
  rw [hblock]

theorem outcome_of_calls {path : String} (h : p.Calls l t path) :
    p.outcome = andThen (runOther p.depth (·.at p.script l) path p.value p.machine)
      (runWith (runOther p.depth) t) := by
  obtain ⟨text, hnext, rfl⟩ := h
  rw [outcome_eq_runLine hnext.line, runLine, hnext.parse]

/-- A run goes on from the point behind the statement that it passes. -/
theorem Passes.outcome_eq (h : p.Passes q) : p.outcome = q.outcome := by
  cases h with
  | plain hnext hst hexec =>
    rw [outcome_of_plain hnext hst, Machine.executeAt, hexec]
    rfl
  | loop hloop hrun =>
    rw [outcome_of_loop hloop, hrun]
    rfl
  | script hcalls hrun =>
    rw [outcome_of_calls hcalls, hrun]
    rfl

end Next

end Point

/-! ### Statements, rounds, loops and other scripts -/

/-- A statement that fails leaves the session as it is. -/
theorem Machine.session_of_execute_eq_error {m m' : Machine} {v : Value} {st : Statement} {f : Fault}
    (h : m.execute v st = (.error f, m')) : m'.session = m.session := by
  cases st with
  | properties | print | saveTo | useAsInput =>
    rw [execute] at h
    split at h <;> cases h
    rfl
  | command =>
    obtain ⟨-, rfl⟩ := Prod.mk.inj h
    rfl
  | setProperty | foreach | close | script => cases h

section Parts

variable {body : Runner} {index : Nat} {r : Round} {rs : List Round} {m m' : Machine} {v w : Value}
  {vs : List Value} {e : Failure}

theorem runRounds_cons_eq_ok (h : runRounds body index (r :: rs) m = (.ok vs, m')) :
    ∃ v m₁ ws, body r.input (m.enterRound index r.key r.value) = (.ok v, m₁) ∧
      runRounds body (index + 1) rs m₁ = (.ok ws, m') ∧ vs = v :: ws := by
  rw [runRounds] at h
  rcases hr : body r.input (m.enterRound index r.key r.value) with ⟨_ | v, m₁⟩
  · rw [hr] at h
    cases h
  · rw [hr] at h
    dsimp only at h
    rcases hrs : runRounds body (index + 1) rs m₁ with ⟨_ | ws, m₂⟩
    · rw [hrs] at h
      cases h
    · rw [hrs] at h
      cases h
      exact ⟨v, m₁, ws, rfl, hrs, rfl⟩

theorem runRounds_cons {m₁ : Machine} {x : Except Failure (List Value)}
    (hr : body r.input (m.enterRound index r.key r.value) = (.ok v, m₁))
    (hrs : runRounds body (index + 1) rs m₁ = (x, m')) :
    runRounds body index (r :: rs) m = (x.map (v :: ·), m') := by
  rw [runRounds, hr]
  dsimp only
  rw [hrs]
  cases x <;> rfl

/-- Rounds fail in one of them, when those before it have ended well. -/
theorem exists_round_of_error :
    ∀ {rs : List Round} {index : Nat} {m : Machine}, runRounds body index rs m = (.error e, m') →
      ∃ i r vs m₁, rs[i]? = some r ∧ runRounds body index (rs.take i) m = (.ok vs, m₁) ∧
        body r.input (m₁.enterRound (index + i) r.key r.value) = (.error e, m')
  | [], _, _, h => by cases h
  | r :: rs, index, m, h => by
    rcases hr : body r.input (m.enterRound index r.key r.value) with ⟨f | v, m₁⟩
    · rw [runRounds, hr] at h
      cases h
      exact ⟨0, r, [], m, rfl, rfl, hr⟩
    · rcases hrs : runRounds body (index + 1) rs m₁ with ⟨f | ws, m₂⟩
      · rw [runRounds_cons hr hrs] at h
        cases h
        obtain ⟨i, r', vs, m₃, hi, htake, hbody⟩ := exists_round_of_error hrs
        rw [Nat.add_assoc, Nat.add_comm 1 i] at hbody
        exact ⟨i + 1, r', v :: vs, m₃, hi, runRounds_cons hr htake, hbody⟩
      · rw [runRounds_cons hr hrs] at h
        cases h

theorem runLoop_eq_ok {fail : Fault → Failure} (h : runLoop fail body v m = (.ok w, m')) :
    ∃ rs vs m₁, rounds v = .ok rs ∧ runRounds body 0 rs m = (.ok vs, m₁) ∧ w = .sequence vs ∧
      m' = m.leaveLoop m₁ := by
  rw [runLoop] at h
  rcases hv : rounds v with f | rs
  · rw [hv] at h
    cases h
  · rw [hv] at h
    dsimp only at h
    rcases hrs : runRounds body 0 rs m with ⟨_ | vs, m₁⟩
    · rw [hrs] at h
      cases h
    · rw [hrs] at h
      cases h
      exact ⟨rs, vs, m₁, rfl, hrs, rfl, rfl⟩

theorem runLoop_eq_error {fail : Fault → Failure} (h : runLoop fail body v m = (.error e, m')) :
    (∃ f, rounds v = .error f ∧ e = fail f ∧ m' = m) ∨
      ∃ rs, rounds v = .ok rs ∧ runRounds body 0 rs m = (.error e, m') := by
  rw [runLoop] at h
  rcases hv : rounds v with f | rs
  · rw [hv] at h
    cases h
    exact .inl ⟨f, rfl, rfl, rfl⟩
  · rw [hv] at h
    dsimp only at h
    rcases hrs : runRounds body 0 rs m with ⟨f | vs, m₁⟩
    · rw [hrs] at h
      cases h
      exact .inr ⟨rs, rfl, hrs⟩
    · rw [hrs] at h
      cases h

theorem runOther_of_some {path : String} {s : Script} (h : Script.load? m.files path = some s)
    (depth : Nat) (fail : Fault → Failure) (v : Value) :
    runOther (depth + 1) fail path v m =
      ((runWith (runOther depth) s v m).1,
        { (runWith (runOther depth) s v m).2 with properties := m.properties }) := by
  rw [runOther, h]

theorem runOther_of_none {path : String} (h : Script.load? m.files path = none) (depth : Nat)
    (fail : Fault → Failure) (v : Value) :
    runOther (depth + 1) fail path v m = (.error ⟨path, 0, "", .unreadable⟩, m) := by
  rw [runOther, h]

/-- Of the rounds of a loop that has ended well, each starts where the one before it has ended. -/
theorem runRounds_rule {R : Machine → Machine → Prop} :
    ∀ {rs : List Round} {index : Nat} {m : Machine} {vs : List Value},
      runRounds body index rs m = (.ok vs, m') →
      (∀ i r ws m₁ v m₂, rs[i]? = some r → runRounds body index (rs.take i) m = (.ok ws, m₁) →
        body r.input (m₁.enterRound (index + i) r.key r.value) = (.ok v, m₂) → R m₁ m₂) →
      ReflTransGen R m m'
  | [], _, _, _, h, _ => by
    cases h
    exact .refl
  | r :: rs, index, m, vs, h, hR => by
    obtain ⟨v, m₁, ws, hr, hrs, -⟩ := runRounds_cons_eq_ok h
    refine .head (hR 0 r [] m v m₁ rfl rfl hr) (runRounds_rule hrs ?_)
    intro i r' ws' m₂ v' m₃ hi htake hbody
    rw [Nat.add_assoc, Nat.add_comm 1 i] at hbody
    exact hR (i + 1) r' (v :: ws') m₂ v' m₃ hi (runRounds_cons hr htake) hbody

end Parts

namespace Point

variable {p q : Point} {l : Line} {t body : Script} {v : Value} {m : Machine} {e : Failure}

/-! ### Steps lead on -/

/-- A step leads to a script that is run less deep, or to fewer lines. -/
theorem wellFounded_step : WellFounded fun q p : Point => p.Step q := by
  refine Subrelation.wf (r := InvImage (Prod.Lex (· < ·) (· < ·)) fun p : Point =>
    (p.depth, p.script.rest.length)) ?_
    (InvImage.wf _ (WellFounded.prod_lex wellFounded_lt wellFounded_lt))
  rintro q p (h | h)
  · refine Prod.lex_def.2 ?_
    cases h with
    | plain hnext => exact .inr ⟨rfl, Script.length_rest_of_next? hnext.line⟩
    | loop hloop =>
      obtain ⟨t₀, hnext, hblock⟩ := hloop
      have hlt := Script.length_rest_of_next? hnext.line
      have hblock := Script.length_rest_of_takeBlock? hblock
      exact .inr ⟨rfl, by dsimp only [behind]; omega⟩
    | script hcalls =>
      obtain ⟨text, hnext, -⟩ := hcalls
      exact .inr ⟨rfl, Script.length_rest_of_next? hnext.line⟩
  · refine Prod.lex_def.2 ?_
    cases h with
    | round hloop =>
      obtain ⟨t₀, hnext, hblock⟩ := hloop
      have hlt := Script.length_rest_of_next? hnext.line
      have hblock := Script.length_rest_of_takeBlock? hblock
      exact .inr ⟨rfl, by dsimp only; omega⟩
    | script _ hdepth => exact .inl (by dsimp only; omega)

/-- At each point the run has ended, or the next statement fails by itself, or the run passes it, or
it goes into it and fails there.  A failure leaves the session as it is. -/
theorem next_cases (p : Point) : p.script.next? = none ∨
    (∃ e m, p.Faults e ∧ m.session = p.machine.session ∧ p.outcome = (.error e, m)) ∨
    (∃ q, p.Passes q) ∨ ∃ q e m m', p.Enters q ∧ m'.session = m.session ∧
      q.outcome = (.error e, m) ∧ p.outcome = (.error e, m') := by
  rcases hnext : p.script.next? with _ | ⟨l, t⟩
  · exact .inl rfl
  refine .inr ?_
  rcases hparse : Statement.parse l.content with e | st
  · refine .inl ⟨_, p.machine, .malformed hnext hparse, rfl, ?_⟩
    rw [outcome_eq_runLine hnext, runLine, hparse]
  have hst : p.Next l t st := ⟨hnext, hparse⟩
  by_cases hplain : st.IsPlain
  · rcases hexec : p.machine.execute p.value st with ⟨f | v, m⟩
    · refine .inl ⟨_, m, .plain hst hplain hexec, Machine.session_of_execute_eq_error hexec, ?_⟩
      rw [outcome_of_plain hst hplain, Machine.executeAt, hexec]
      rfl
    · exact .inr (.inl ⟨_, .plain hst hplain hexec⟩)
  · cases st with
    | close =>
      refine .inl ⟨_, p.machine, .strayEnd hst, rfl, ?_⟩
      rw [outcome_eq_runLine hnext, runLine, hparse]
    | foreach =>
      rcases hblock : t.takeBlock? with _ | ⟨body, t'⟩
      · refine .inl ⟨_, p.machine, .openLoop hst hblock, rfl, ?_⟩
        rw [outcome_eq_runLine hnext, runLine, hparse]
        dsimp only
        rw [hblock]
      · have hloop : p.Loop l body t' := ⟨t, hst, hblock⟩
        rcases hrun : runLoop (·.at p.script l) (runWith (runOther p.depth) body) p.value
          p.machine with ⟨e | v, m⟩
        · have hout : p.outcome = (.error e, m) := by
            rw [outcome_of_loop hloop, hrun]
            rfl
          obtain ⟨f, hrounds, rfl, rfl⟩ | ⟨rs, hrounds, hrun⟩ := runLoop_eq_error hrun
          · exact .inl ⟨_, p.machine, .shape hloop hrounds, rfl, hout⟩
          · obtain ⟨i, r, vs, m₁, hi, htake, hbody⟩ := exists_round_of_error hrun
            rw [Nat.zero_add] at hbody
            exact .inr (.inr ⟨_, e, m, m, .round hloop hrounds hi htake, rfl, hbody, hout⟩)
        · exact .inr (.inl ⟨_, .loop hloop hrun⟩)
    | script text =>
      have hcalls : p.Calls l t _ := ⟨text, hst, rfl⟩
      have hout := outcome_of_calls hcalls
      rcases hdepth : p.depth with _ | depth
      · refine .inl ⟨_, p.machine, .tooDeep hcalls hdepth, rfl, ?_⟩
        rw [hout, hdepth]
        rfl
      · rcases hload : Script.load? p.machine.files
          (scriptPath p.machine.files p.script (p.machine.expand text)) with _ | s
        · refine .inl ⟨_, p.machine, .unreadable hcalls hdepth hload, rfl, ?_⟩
          rw [hout, hdepth, runOther_of_none hload]
          rfl
        · have henters : p.Enters _ := .script hcalls hdepth hload
          have hother := runOther_of_some hload depth (·.at p.script l) p.value
          rcases hrun : runWith (runOther depth) s p.value p.machine with ⟨e | v, m⟩
          · refine .inr (.inr ⟨_, e, m, { m with properties := p.machine.properties }, henters,
              rfl, hrun, ?_⟩)
            rw [hout, hdepth, hother, hrun]
            rfl
          · rw [hrun, ← hdepth] at hother
            exact .inr (.inl ⟨_, .script hcalls hother⟩)
    | _ => exact absurd trivial hplain

/-- A run that fails has come to a point whose own statement fails, and leaves the session of that
point. -/
theorem exists_faults_session (h : p.outcome = (.error e, m)) :
    ∃ q, p.Reaches q ∧ q.Faults e ∧ m.session = q.machine.session := by
  induction p using wellFounded_step.induction generalizing m with
  | _ p ih =>
    obtain hend | ⟨e', m', hfaults, hsession, hout⟩ | ⟨q, hq⟩ |
      ⟨q, e', m', m'', hq, hsession, hfails, hout⟩ := p.next_cases
    · rw [outcome_of_finished hend] at h
      cases h
    · cases h.symm.trans hout
      exact ⟨p, .refl p, hfaults, hsession⟩
    · obtain ⟨r, hr, hfaults⟩ := ih q (.inl hq) (hq.outcome_eq ▸ h)
      exact ⟨r, hq.reaches.trans hr, hfaults⟩
    · cases h.symm.trans hout
      obtain ⟨r, hr, hfaults, hr'⟩ := ih q (.inr hq) hfails
      exact ⟨r, hq.reaches.trans hr, hfaults, hsession.trans hr'⟩

theorem exists_faults (h : p.outcome = (.error e, m)) : ∃ q, p.Reaches q ∧ q.Faults e := by
  obtain ⟨q, hq, hfaults, -⟩ := exists_faults_session h
  exact ⟨q, hq, hfaults⟩

/-! ### From statements to runs -/

/-- What a relation between machines says about a whole round: it holds from the machine at the start
of the round on. -/
def AfterRound (R : Machine → Machine → Prop) (m m' : Machine) : Prop :=
  ∃ index key v, R (m.enterRound index key v) m'

/-- A relation between the machines before and after that holds of loops if it holds of their
rounds, and of statements that run other scripts if it holds of the runs of these. -/
structure Compatible (R : Machine → Machine → Prop) : Prop where
  refl : ∀ m, R m m
  trans : ∀ {m₁ m₂ m₃}, R m₁ m₂ → R m₂ m₃ → R m₁ m₃
  loop : ∀ {m m'}, ReflTransGen (AfterRound R) m m' → R m (m.leaveLoop m')
  script : ∀ {m m'}, R m m' → R m { m' with properties := m.properties }

/-- The relation holds of the next statement if that is a plain one. -/
def Obeys (R : Machine → Machine → Prop) (p : Point) : Prop :=
  ∀ l t st v m, p.Next l t st → st.IsPlain → p.machine.execute p.value st = (.ok v, m) →
    R p.machine m

namespace Compatible

variable {R : Machine → Machine → Prop}

/-- Between the rounds of a loop, if the relation holds of what the loop goes into. -/
theorem of_rounds_of {rs : List Round} {i : Nat} {vs : List Value} (hloop : p.Loop l body t)
    (hrounds : rounds p.value = .ok rs)
    (hin : ∀ q, p.Enters q → ∀ v m, q.outcome = (.ok v, m) → R q.machine m)
    (hrun : runRounds (runWith (runOther p.depth) body) 0 (rs.take i) p.machine = (.ok vs, m)) :
    ReflTransGen (AfterRound R) p.machine m := by
  refine runRounds_rule hrun fun j r ws m₁ v m₂ hj htake hbody => ?_
  rw [Nat.zero_add] at hbody
  have hij : j < i := by
    by_contra hij
    rw [List.getElem?_take, if_neg hij] at hj
    cases hj
  rw [List.take_take, Nat.min_eq_left hij.le] at htake
  rw [List.getElem?_take_of_lt hij] at hj
  exact ⟨j, r.key, r.value, hin _ (.round hloop hrounds hj htake) v m₂ hbody⟩

/-- For a loop that has ended well, if the relation holds of what it goes into. -/
theorem of_runLoop {fail : Fault → Failure} (hloop : p.Loop l body t)
    (hin : ∀ q, p.Enters q → ∀ v m, q.outcome = (.ok v, m) → R q.machine m)
    (hrun : runLoop fail (runWith (runOther p.depth) body) p.value p.machine = (.ok v, m)) :
    ∃ m', ReflTransGen (AfterRound R) p.machine m' ∧ m = p.machine.leaveLoop m' := by
  obtain ⟨rs, vs, m', hrounds, hrs, -, hm⟩ := runLoop_eq_ok hrun
  rw [← List.take_length (l := rs)] at hrs
  exact ⟨m', of_rounds_of hloop hrounds hin hrs, hm⟩

/-- For one statement, if the relation holds of what it goes into. -/
theorem of_passes_of (hR : Compatible R) (hp : p.Obeys R)
    (hin : ∀ q, p.Enters q → ∀ v m, q.outcome = (.ok v, m) → R q.machine m) (h : p.Passes q) :
    R p.machine q.machine := by
  cases h with
  | plain hnext hst hexec => exact hp _ _ _ _ _ hnext hst hexec
  | loop hloop hrun =>
    obtain ⟨m', hrs, rfl⟩ := of_runLoop hloop hin hrun
    exact hR.loop hrs
  | @script l t path v m hcalls hrun =>
    rcases hdepth : p.depth with _ | depth
    · rw [hdepth] at hrun
      cases hrun
    · rcases hload : Script.load? p.machine.files path with _ | s
      · rw [hdepth, runOther_of_none hload] at hrun
        cases hrun
      · rw [hdepth, runOther_of_some hload] at hrun
        obtain ⟨hv, rfl⟩ := Prod.mk.inj hrun
        exact hR.script (hin _ (.script hcalls hdepth hload) v _ (Prod.ext hv rfl))

/-- A compatible relation holds of a run that ends well if it holds of the plain statements that the
run comes to. -/
theorem of_outcome (hR : Compatible R) (h : ∀ q, p.Reaches q → q.Obeys R)
    (hrun : p.outcome = (.ok v, m)) : R p.machine m := by
  induction p using wellFounded_step.induction generalizing v m with
  | _ p ih =>
    have hin (q : Point) (hq : p.Enters q) (v : Value) (m : Machine)
        (hrun : q.outcome = (.ok v, m)) : R q.machine m :=
      ih q (.inr hq) (fun r hr => h r (hq.reaches.trans hr)) hrun
    obtain hend | ⟨e, m', -, -, hout⟩ | ⟨q, hq⟩ | ⟨q, e, m', m'', -, -, -, hout⟩ :=
      p.next_cases
    · rw [outcome_of_finished hend] at hrun
      cases hrun
      exact hR.refl _
    · cases hrun.symm.trans hout
    · have hbehind := ih q (.inl hq) (fun r hr => h r (hq.reaches.trans hr))
        (hq.outcome_eq ▸ hrun)
      exact hR.trans (hR.of_passes_of (h p (.refl p)) hin hq) hbehind
    · cases hrun.symm.trans hout

/-- A compatible relation holds of the statements that a run passes. -/
theorem of_passes (hR : Compatible R) (h : ∀ q, p.Reaches q → q.Obeys R) (hq : p.Passes q) :
    R p.machine q.machine :=
  hR.of_passes_of (h p (.refl p))
    (fun _ hr _ _ => hR.of_outcome fun r' hr' => h r' (hr.reaches.trans hr')) hq

/-- The machine behind a loop that a run passes. -/
theorem exists_leaveLoop (hnext : p.Next l t .foreach)
    (hin : ∀ q, p.Enters q → ∀ v m, q.outcome = (.ok v, m) → R q.machine m) (hq : p.Passes q) :
    ∃ m, ReflTransGen (AfterRound R) p.machine m ∧ q.machine = p.machine.leaveLoop m := by
  cases hq with
  | plain hnext' hst =>
    rw [← hnext.unique hnext'] at hst
    exact hst.elim
  | loop hloop hrun => exact of_runLoop hloop hin hrun
  | script hcalls =>
    obtain ⟨text, hnext', -⟩ := hcalls
    cases hnext.unique hnext'

/-- The rounds of a loop that lie before one that a run enters. -/
theorem of_rounds (hR : Compatible R) {rs : List Round} {i : Nat} {vs : List Value}
    (h : ∀ q, p.Reaches q → q.Obeys R) (hloop : p.Loop l body t) (hrounds : rounds p.value = .ok rs)
    (hrun : runRounds (runWith (runOther p.depth) body) 0 (rs.take i) p.machine = (.ok vs, m)) :
    ReflTransGen (AfterRound R) p.machine m :=
  of_rounds_of hloop hrounds
    (fun _ hr _ _ => hR.of_outcome fun r' hr' => h r' (hr.reaches.trans hr')) hrun

end Compatible

end Point

end YamlQuery.Batch

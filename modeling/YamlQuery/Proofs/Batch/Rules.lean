import YamlQuery.Batch.Run

/-!
# Proofs.Batch.Rules — the run of a script, line by line

A run goes on with the line that comes next (`runWith_of_next`): what it does there and how it goes
on behind it is `runLine`.

Two runners may do the same but where the first one fails in a certain way.  Then so do the loops
over them (`SameUnless.runLoop`) and what is run behind them (`SameUnless.andThen`).

How deep scripts may run each other makes no difference to a run that does not come to this depth
(`sameUnless_runTo`).
-/

namespace YamlQuery.Batch

/-- Goes on with a value, unless something has failed. -/
def andThen (x : Except Failure Value × Machine) (next : Runner) : Except Failure Value × Machine :=
  match x with
  | (.error e, m) => (.error e, m)
  | (.ok v, m) => next v m

/-- The effect of a statement at a line. -/
def Machine.executeAt (m : Machine) (s : Script) (l : Line) (v : Value) (statement : Statement) :
    Except Failure Value × Machine :=
  match m.execute v statement with
  | (.error f, m) => (.error (f.at s l), m)
  | (.ok v, m) => (.ok v, m)

variable {other : (Fault → Failure) → String → Runner} {s t body t' : Script} {l : Line} {v : Value}
  {m : Machine}

theorem runWith_of_finished (h : s.next? = none) : runWith other s v m = (.ok v, m) := by
  rw [runWith]
  split
  · rfl
  · next hs =>
    rw [h] at hs
    cases hs

/-- Behind the line that comes next. -/
def runLine (other : (Fault → Failure) → String → Runner) (s : Script) (l : Line) (t : Script) :
    Runner := fun v m =>
  match Statement.parse l.content with
  | .error e => (.error ((Fault.malformed e).at s l), m)
  | .ok .close => (.error (Fault.strayEnd.at s l), m)
  | .ok .foreach =>
    match t.takeBlock? with
    | none => (.error (Fault.openLoop.at s l), m)
    | some (body, t') => andThen (runLoop (·.at s l) (runWith other body) v m) (runWith other t')
  | .ok (.script path) =>
    andThen (other (·.at s l) (scriptPath m.files s (m.expand path)) v m) (runWith other t)
  | .ok statement => andThen (m.executeAt s l v statement) (runWith other t)

theorem runWith_of_next (h : s.next? = some (l, t)) :
    runWith other s v m = runLine other s l t v m := by
  rw [runWith]
  split
  · next hs =>
    rw [h] at hs
    cases hs
  · next hs =>
    obtain ⟨rfl, rfl⟩ := Prod.mk.inj (Option.some_inj.1 (h.symm.trans hs))
    unfold runLine
    generalize Statement.parse l.content = p
    rcases p with e | statement
    · rfl
    · cases statement with
      | foreach =>
        dsimp only
        split
        · next hb => rw [hb]
        · next hb => rw [hb]; rfl
      | close => rfl
      | script path => rfl
      | _ =>
        dsimp only [Machine.executeAt]
        generalize m.execute v _ = x
        rcases x with ⟨_ | _, m'⟩ <;> rfl

/-! ### Runs that are the same but for some failures -/

/-- The second outcome is the same as the first one, unless that is a failure of some kind. -/
def SameUnless {α : Type} (bad : Failure → Prop) (x x' : Except Failure α × Machine) : Prop :=
  x' = x ∨ ∃ e m, x = (.error e, m) ∧ bad e

namespace SameUnless

variable {bad : Failure → Prop} {r r' : Runner}

theorem refl {α : Type} (x : Except Failure α × Machine) : SameUnless bad x x := .inl rfl

theorem trans {α : Type} {x y z : Except Failure α × Machine} (hxy : SameUnless bad x y)
    (hyz : SameUnless bad y z) : SameUnless bad x z := by
  obtain rfl | hx := hxy
  · exact hyz
  · exact .inr hx

theorem andThen {x x' : Except Failure Value × Machine} (hx : SameUnless bad x x')
    (h : ∀ v m, SameUnless bad (r v m) (r' v m)) :
    SameUnless bad (andThen x r) (andThen x' r') := by
  obtain rfl | ⟨e, m, rfl, he⟩ := hx
  · rcases x' with ⟨e | v, m⟩
    · exact refl _
    · exact h v m
  · exact .inr ⟨e, m, rfl, he⟩

theorem runRounds (h : ∀ v m, SameUnless bad (r v m) (r' v m)) :
    ∀ (rs : List Round) (index : Nat) (m : Machine),
      SameUnless bad (runRounds r index rs m) (runRounds r' index rs m)
  | [], _, _ => refl _
  | round :: rs, index, m => by
    rw [Batch.runRounds, Batch.runRounds]
    obtain heq | ⟨e, m', heq, he⟩ := h round.input (m.enterRound index round.key round.value)
    · rw [heq]
      rcases r round.input (m.enterRound index round.key round.value) with ⟨e | v, m'⟩
      · exact refl _
      · dsimp only
        obtain hrest | ⟨e, m'', hrest, he⟩ := runRounds h rs (index + 1) m'
        · rw [hrest]
          exact refl _
        · rw [hrest]
          exact .inr ⟨e, m'', rfl, he⟩
    · rw [heq]
      exact .inr ⟨e, m', rfl, he⟩

theorem runLoop (fail : Fault → Failure) (h : ∀ v m, SameUnless bad (r v m) (r' v m)) (v : Value)
    (m : Machine) : SameUnless bad (runLoop fail r v m) (runLoop fail r' v m) := by
  rw [Batch.runLoop, Batch.runLoop]
  rcases rounds v with f | rs
  · exact refl _
  · dsimp only
    obtain heq | ⟨e, m', heq, he⟩ := runRounds h rs 0 m
    · rw [heq]
      exact refl _
    · rw [heq]
      exact .inr ⟨e, m', rfl, he⟩

end SameUnless

/-! ### Runs with more or less depth -/

/-- Runs are the same but for some failures, if the runs of other scripts are. -/
theorem sameUnless_runWith_of_other {bad : Failure → Prop}
    {other' : (Fault → Failure) → String → Runner}
    (h : ∀ s l path v m, SameUnless bad (other (·.at s l) path v m) (other' (·.at s l) path v m)) :
    ∀ (n : Nat) (s : Script), s.rest.length < n → ∀ v m,
      SameUnless bad (runWith other s v m) (runWith other' s v m)
  | 0, _, hn, _, _ => absurd hn (Nat.not_lt_zero _)
  | n + 1, s, hn, v, m => by
    have ih (u : Script) (hu : u.rest.length < s.rest.length) (v : Value) (m : Machine) :
        SameUnless bad (runWith other u v m) (runWith other' u v m) :=
      sameUnless_runWith_of_other h n u (Nat.lt_of_lt_of_le hu (Nat.le_of_lt_succ hn)) v m
    rcases hnext : s.next? with _ | ⟨l, t⟩
    · rw [runWith_of_finished hnext, runWith_of_finished hnext]
      exact .refl _
    · have ht := Script.length_rest_of_next? hnext
      rw [runWith_of_next hnext, runWith_of_next hnext, runLine, runLine]
      generalize Statement.parse l.content = p
      rcases p with e | statement
      · exact .refl _
      · cases statement with
        | foreach =>
          dsimp only
          rcases hblock : t.takeBlock? with _ | ⟨body, t'⟩
          · exact .refl _
          · have hshorter := Script.length_rest_of_takeBlock? hblock
            exact (SameUnless.runLoop _ (ih body (by omega)) v m).andThen (ih t' (by omega))
        | close => exact .refl _
        | script path => exact (h s l _ v m).andThen (ih t ht)
        | _ => exact (SameUnless.refl _).andThen (ih t ht)

theorem sameUnless_runOther (s : Script) (l : Line) : ∀ (depth : Nat) (path : String) (v : Value)
    (m : Machine), SameUnless (·.fault = .tooDeep) (runOther depth (·.at s l) path v m)
      (runOther (depth + 1) (·.at s l) path v m) := by
  intro depth
  induction depth generalizing s l with
  | zero => exact fun path v m => .inr ⟨_, m, rfl, rfl⟩
  | succ depth ih =>
    intro path v m
    rw [runOther, runOther]
    rcases Script.load? m.files path with _ | u
    · exact .refl _
    · dsimp only
      obtain heq | ⟨e, m', heq, he⟩ := sameUnless_runWith_of_other ih _ u (Nat.lt_succ_self _) v m
      · rw [heq]
        exact .refl _
      · rw [heq]
        exact .inr ⟨e, _, rfl, he⟩

/-- **The depth stands for the call stack.**  A run that has not come to its end is the same with any
more of it. -/
theorem sameUnless_runTo {depth depth' : Nat} (h : depth ≤ depth') (s : Script) (v : Value)
    (m : Machine) : SameUnless (·.fault = .tooDeep) (runTo depth s v m) (runTo depth' s v m) := by
  induction h with
  | refl => exact .refl _
  | @step depth' _ ih =>
    refine ih.trans (sameUnless_runWith_of_other (fun s l => ?_) _ s (Nat.lt_succ_self _) v m)
    exact sameUnless_runOther s l depth'

end YamlQuery.Batch

import YamlQuery.Edit.Insert
import YamlQuery.Proofs.Edit.Targets

/-!
# Proofs.Edit.Jobs — one visitor for several documents

A visitor keeps its state from one job to the next, also when a job fails.  A job is `Visitor.Inert`
if it makes no difference to the jobs after it, whatever has been done before it.

A failed job leaves behind what it has noted down.  `Delete` and `Replace` are the worse for it
exactly if there is an entry among that (`Delete.inert_iff`, `Replace.inert_iff`): it is still there
to be changed when the next job ends well.
-/

namespace YamlQuery

/-! ### Jobs -/

/-- A path as it comes about: from a text, and by going on along it. -/
inductive KeyPath.Parsed : KeyPath → Prop
  | parse {text delimiter : String} {p : KeyPath} : KeyPath.parse text delimiter = .ok p → Parsed p
  | advanced {p : KeyPath} : Parsed p → Parsed p.advanced

/-- What a visitor is to do with one document. -/
structure Job where
  doc : Value
  path : KeyPath
  strict : Bool
  distinct : doc.Distinct
  parsed : path.Parsed

namespace Job

def walk (j : Job) : Walk := j.doc.walk j.strict j.path

/-- There is something in the way. -/
def fails (j : Job) : Bool := j.path.hasNext && j.walk.stop.isSome

end Job

namespace Visitor

variable {σ : Type} {v : Visitor σ} {j : Job} {s : σ}

def perform (v : Visitor σ) (j : Job) (s : σ) : Outcome σ := v.run j.strict j.path j.doc s

/-- The state after jobs. -/
def after (v : Visitor σ) : List Job → σ → σ
  | [], s => s
  | j :: js, s => v.after js (v.perform j s).state

/-- The document and the result of each job. -/
def outcomes (v : Visitor σ) : List Job → σ → List (Value × Except EditError Bool)
  | [], _ => []
  | j :: js, s =>
    ((v.perform j s).doc, (v.perform j s).result) :: v.outcomes js (v.perform j s).state

theorem outcomes_append (v : Visitor σ) : ∀ (js ks : List Job) (s : σ),
    v.outcomes (js ++ ks) s = v.outcomes js s ++ v.outcomes ks (v.after js s)
  | [], _, _ => rfl
  | j :: js, ks, s =>
    congrArg (List.cons _) (outcomes_append v js ks (v.perform j s).state)

/-- With or without the job, after any other jobs, the outcomes of all later jobs are the same. -/
def Inert (v : Visitor σ) (s : σ) (j : Job) : Prop :=
  ∀ before later : List Job,
    v.outcomes later (v.after (before ++ [j]) s) = v.outcomes later (v.after before s)

theorem after_append (v : Visitor σ) : ∀ (js ks : List Job) (s : σ),
    v.after (js ++ ks) s = v.after ks (v.after js s)
  | [], _, _ => rfl
  | j :: js, ks, s => after_append v js ks (v.perform j s).state

theorem after_concat (v : Visitor σ) (js : List Job) (j : Job) (s : σ) :
    v.after (js ++ [j]) s = (v.perform j (v.after js s)).state := after_append v js [j] s

/-- What every call keeps is kept by a run, however it ends. -/
theorem state_run_of_calls {P : σ → Prop} (visit : ∀ e s, P s → P (v.visit e s).1)
    (finish : ∀ doc s, P s → P (v.finish doc s).1) (strict : Bool) (path : KeyPath) (doc : Value)
    (h : P s) : P (v.run strict path doc s).state := by
  have hevents : ∀ (es : List Event) (s : σ), P s → P (v.visitAll es s).1 := by
    intro es
    induction es with
    | nil => exact fun _ hs => hs
    | cons e es ih =>
      intro s hs
      have he := visit e s hs
      rw [visitAll]
      split
      · next heq => exact ih _ (by rwa [heq] at he)
      · next heq => rwa [heq] at he
  have hwalk := hevents (doc.walk strict path).events s h
  unfold run
  split
  · exact h
  · dsimp only
    split
    · next heq => rwa [heq] at hwalk
    · next s' heq =>
      rw [heq] at hwalk
      have hend := finish doc s' hwalk
      split
      · exact hwalk
      · split <;> next hfinish => rwa [hfinish] at hend

/-- What every call keeps is kept by all jobs, failed ones included. -/
theorem after_of_calls {P : σ → Prop} (visit : ∀ e s, P s → P (v.visit e s).1)
    (finish : ∀ doc s, P s → P (v.finish doc s).1) :
    ∀ (js : List Job) {s : σ}, P s → P (v.after js s)
  | [], _, h => h
  | j :: js, _, h =>
    after_of_calls visit finish js (state_run_of_calls visit finish j.strict j.path j.doc h)

/-- Whether a job fails does not depend on the state. -/
theorem isOk_perform_iff (hv : v.Accepts) : (v.perform j s).result.isOk ↔ j.fails = false := by
  cases hp : j.path.hasNext with
  | false => simp [perform, run_of_not_hasNext hp, Job.fails, hp, Except.isOk, Except.toBool]
  | true =>
    rw [perform, isOk_run_iff hv hp, Job.fails, hp, Bool.true_and, Option.isSome_eq_false_iff,
      Option.isNone_iff_eq_none, Job.walk]

/-- A job that fails changes nothing but the state. -/
theorem perform_of_fails (hv : v.Accepts) (h : j.fails) :
    (v.perform j s).state = v.noteAll j.walk.events s ∧ (v.perform j s).doc = j.doc := by
  obtain ⟨hp, hstop⟩ := Bool.and_eq_true_iff.1 h
  obtain ⟨o, ho⟩ := Option.isSome_iff_exists.1 hstop
  rw [perform, run_of_stop hv hp ho]
  exact ⟨rfl, rfl⟩

/-- A job that fails and has noted nothing down makes no difference. -/
theorem inert_of_noteAll (hv : v.Accepts) (h : j.fails)
    (hnote : ∀ s, v.noteAll j.walk.events s = s) : v.Inert s j := by
  intro before later
  rw [after_concat, (perform_of_fails hv h).1, hnote]

/-- Jobs that fail can be left out if each of them makes no difference by itself. -/
theorem outcomes_of_inert (hv : v.Accepts) :
    ∀ (js before : List Job), (∀ j ∈ js, j.fails → v.Inert s j) →
      (v.outcomes js (v.after before s)).filter (·.2.isOk) =
        v.outcomes (js.filter fun j => !j.fails) (v.after before s)
  | [], _, _ => rfl
  | j :: js, before, h => by
    have hjs := fun k hk => h k (List.mem_cons_of_mem j hk)
    have hok := isOk_perform_iff (j := j) (s := v.after before s) hv
    cases hj : j.fails with
    | true =>
      have hok : (v.perform j (v.after before s)).result.isOk = false := by
        simpa [hj] using hok
      rw [outcomes, List.filter_cons_of_neg (by simp [hok]), List.filter_cons_of_neg (by simp [hj]),
        ← after_concat, h j List.mem_cons_self hj before js]
      exact outcomes_of_inert hv js before hjs
    | false =>
      rw [outcomes, List.filter_cons_of_pos (by simpa using hok.2 hj),
        List.filter_cons_of_pos (by simp [hj]), outcomes, ← after_concat,
        outcomes_of_inert hv js (before ++ [j]) hjs]

/-- A visitor forgets a failed job exactly if the job is quiet. -/
structure Forgets (v : Visitor σ) (s : σ) (quiet : Job → Prop) : Prop where
  inert_iff : ∀ j, (v.perform j s).result.isOk = false → (v.Inert s j ↔ quiet j)
  /-- If all failed jobs are quiet, the others come out as if nothing else had been done. -/
  outcomes : ∀ js : List Job, (∀ j ∈ js, (v.perform j s).result.isOk = false → quiet j) →
    (v.outcomes js s).filter (·.2.isOk) =
      v.outcomes (js.filter fun j => (v.perform j s).result.isOk) s

theorem forgets_of_inert_iff {quiet : Job → Prop} (hv : v.Accepts)
    (h : ∀ j : Job, j.fails → (v.Inert s j ↔ quiet j)) : v.Forgets s quiet := by
  have hfails (j : Job) : (v.perform j s).result.isOk = !j.fails := by
    rw [Bool.eq_iff_iff, isOk_perform_iff hv, Bool.not_eq_true']
  refine ⟨fun j hj => h j (by simpa [hfails] using hj), fun js hjs => ?_⟩
  simp only [hfails]
  refine outcomes_of_inert hv js [] fun j hj hfail => (h j hfail).2 (hjs j hj ?_)
  simp [hfails, hfail]

/-- A job that is not strict and has a segment left ends well. -/
theorem perform_of_lenient (hv : v.Accepts) (hp : j.path.hasNext) (hs : j.strict = false) :
    ∃ out, (v.finish j.doc (v.noteAll j.walk.events s)).2 = .ok out ∧ (v.perform j s).doc = out := by
  have hstop : (j.doc.walk j.strict j.path).stop = none := by
    rw [hs]
    exact Walk.stop_below_lenient
  obtain ⟨out, hout⟩ := hv.finish j.doc (v.noteAll j.walk.events s)
  refine ⟨out, hout, ?_⟩
  rw [perform, run_of_finish hv hp hstop (Prod.ext rfl hout)]

end Visitor

/-- What an inert job means for the next document. -/
theorem Visitor.Inert.doc_perform {σ : Type} {v : Visitor σ} {s : σ} {j : Job} (h : v.Inert s j)
    (k : Job) : (v.perform k (v.perform j s).state).doc = (v.perform k s).doc := by
  have hk := h [] [k]
  rw [List.nil_append, after, after, after, outcomes, outcomes, outcomes] at hk
  exact congrArg Prod.fst (List.cons.inj hk).1

/-! ### A path that no key matches -/

namespace Re

/-- At some point a character has to come before the start of the text. -/
def isStuck : Re → Bool
  | .cat (.set _) (.cat (.look .textStart) _) => true
  | .cat a b => isStuck a || isStuck b
  | _ => false

theorem upTo_zero {f : Nat → Nat} (hf : f 0 = 0) : ∀ n, upTo f n 0 = 0
  | 0 => rfl
  | n + 1 => by simp [upTo, hf]

theorem repeated_zero (f : Nat → Nat) : ∀ n, repeated f n 0 = 0
  | 0 => rfl
  | n + 1 => by simp [repeated]

/-- Nothing matches from nowhere. -/
theorem step_zero (text : List Char) : ∀ r : Re, step text r 0 = 0
  | .empty => rfl
  | .set p => by simp [step]
  | .look l => by simp [step]
  | .cat a b => by simp [step, step_zero text a, step_zero text b]
  | .alt a b => by simp [step, step_zero text a, step_zero text b]
  | .times a least most => by simp only [step, repeated_zero, upTo_zero (step_zero text a)]

theorem lookMask_textStart_some : ∀ (text : List Char) (c : Char),
    lookMask .textStart (some c) text = 0
  | [], _ => rfl
  | d :: text, c => by simp [lookMask, Look.holds, lookMask_textStart_some text d]

theorem lookMask_textStart (text : List Char) : lookMask .textStart none text = 1 := by
  cases text with
  | nil => rfl
  | cons c text => simp [lookMask, Look.holds, lookMask_textStart_some]

theorem step_of_isStuck (text : List Char) :
    ∀ {r : Re}, r.isStuck → ∀ places, step text r places = 0 := by
  intro r
  fun_induction isStuck r with
  | case1 p r =>
    intro _ places
    have hnone : (places &&& mask p text) <<< 1 &&& 1 = 0 := by
      rw [Nat.and_one_is_mod, Nat.shiftLeft_eq]
      omega
    rw [step, step, step, step, lookMask_textStart, hnone, step_zero]
  | case2 a b _ iha ihb =>
    intro h places
    rw [step]
    rcases Bool.or_eq_true_iff.1 h with h | h
    · rw [iha h, step_zero]
    · exact ihb h _
  | case3 => simp

theorem isMatch_of_isStuck {r : Re} (h : r.isStuck) (text : List Char) :
    r.isMatch text = false := by
  rw [isMatch, step_of_isStuck text h]
  rfl

end Re

/-- There is a path that no key matches, and it is not made of plain keys. -/
theorem KeyPath.exists_stuck : ∃ p : KeyPath, p.Parsed ∧ p.hasNext ∧ p.cursor = 0 ∧
    Insert.keys? p.remaining = none ∧ ∀ k, p.isMatch k = false := by
  obtain ⟨p, hparse, hp, hcursor, hkeys, hstuck⟩ := KeyPath.exists_parse "x^" "."
    (fun p => p.hasNext ∧ p.cursor = 0 ∧ Insert.keys? p.remaining = none ∧
      ∀ s ∈ p.segments, s.pattern.isStuck) (by decide +kernel)
  refine ⟨p, .parse hparse, hp, hcursor, hkeys, fun k => ?_⟩
  rw [isMatch, current?]
  cases h : p.segments[p.cursor]? with
  | none => rfl
  | some s => exact Re.isMatch_of_isStuck (hstuck s (List.mem_of_getElem? h)) k.toList

/-! ### Deleting and replacing -/

namespace Delete

variable {j : Job} {d : Delete}

theorem doc_perform (hp : j.path.hasNext) (hs : j.strict = false) :
    (visitor.perform j d).doc =
      (Target.applyAll Target.erase? (d.pending ++ j.walk.ends) j.doc d.deleted).1 := by
  obtain ⟨out, hout, hdoc⟩ := Visitor.perform_of_lenient (s := d) accepts_visitor hp hs
  rw [noteAll_visitor] at hout
  rw [hdoc]
  exact (Except.ok.inj hout).symm

/-- **Deleting after a failed job.**  It makes no difference exactly if no entry had matched fully
when the job failed. -/
theorem inert_iff (h : j.fails) : visitor.Inert {} j ↔ j.walk.ends = [] := by
  constructor
  · intro hinert
    by_contra hends
    obtain ⟨t, ts, hts⟩ := List.exists_cons_of_ne_nil hends
    obtain ⟨p, hparsed, hp, -, -, hnever⟩ := KeyPath.exists_stuck
    -- the same document once more, this time with nothing to delete
    let k : Job := ⟨j.doc, p, false, j.distinct, hparsed⟩
    have hk : k.walk.ends = [] := ends_of_isMatch_eq_false hnever k.doc
    have hdoc := hinert.doc_perform k
    rw [(Visitor.perform_of_fails accepts_visitor h).1, noteAll_visitor, doc_perform hp rfl,
      doc_perform hp rfl, hk] at hdoc
    obtain ⟨v, hv⟩ := exists_get?_of_mem_ends j.distinct (hts ▸ List.mem_cons_self : t ∈ j.walk.ends)
    obtain ⟨w, hw⟩ := Target.exists_erase? hv
    have hsmaller : sizeOf (Target.applyAll Target.erase? (t :: ts) j.doc 0).1 < sizeOf j.doc := by
      rw [Target.applyAll, hw]
      exact (Target.sizeOf_applyAll_erase?_le ts w 1).trans_lt (Target.sizeOf_erase?_lt hw)
    have hsame : (Target.applyAll Target.erase? (t :: ts) j.doc 0).1 = j.doc := by
      rw [← hts]
      simpa [Walk.ends, Target.applyAll, k] using hdoc
    rw [hsame] at hsmaller
    exact Nat.lt_irrefl _ hsmaller
  · intro hends
    refine Visitor.inert_of_noteAll accepts_visitor h fun s => ?_
    rw [noteAll_visitor]
    show { s with pending := s.pending ++ j.walk.ends } = s
    rw [hends, List.append_nil]

end Delete

namespace Replace

variable {j : Job} {r : Replace}

theorem doc_perform (hp : j.path.hasNext) (hs : j.strict = false) :
    (visitor.perform j r).doc =
      j.doc.modifyAll ((r.pending ++ j.walk.ends).map fun t => (t.address, fun _ => r.data)) := by
  obtain ⟨out, hout, hdoc⟩ := Visitor.perform_of_lenient (s := r) accepts_visitor hp hs
  rw [noteAll_visitor] at hout
  rw [hdoc, ← Target.fst_applyAll_replace?]
  exact (Except.ok.inj hout).symm

/-- **Replacing after a failed job.**  It makes no difference exactly if no entry had matched fully
when the job failed. -/
theorem inert_iff {data : Value} (h : j.fails) :
    visitor.Inert { data } j ↔ j.walk.ends = [] := by
  constructor
  · intro hinert
    by_contra hends
    obtain ⟨t, ht⟩ := List.exists_mem_of_ne_nil _ hends
    obtain ⟨v, hv⟩ := exists_get?_of_mem_ends j.distinct ht
    -- the same document, but with something else at an entry that had matched
    obtain ⟨other, hother, hne⟩ : ∃ other : Value, other.Distinct ∧ other ≠ data := by
      by_cases hnull : data = .null
      · exact ⟨.boolean true, trivial, by simp [hnull]⟩
      · exact ⟨.null, trivial, Ne.symm hnull⟩
    obtain ⟨w, hw⟩ := Value.exists_modify? hv fun _ => other
    obtain ⟨p, hparsed, hp, -, -, hnever⟩ := KeyPath.exists_stuck
    let k : Job := ⟨w, p, false, j.distinct.modify? (fun _ _ => hother) hw, hparsed⟩
    have hk : k.walk.ends = [] := ends_of_isMatch_eq_false hnever k.doc
    have hdoc := hinert.doc_perform k
    rw [(Visitor.perform_of_fails accepts_visitor h).1, noteAll_visitor, doc_perform hp rfl,
      doc_perform hp rfl, hk] at hdoc
    have hchanged : (w.modifyAll (j.walk.ends.map fun t => (t.address, fun _ => data))).get?
        t.address = some data := by
      have hapart : (j.walk.ends.map fun t => (t.address, fun _ : Value => data)).Pairwise
          fun c d => c.1.Apart d.1 := by
        rw [List.pairwise_map]
        exact Walk.pairwise_apart_ends j.distinct
      rw [Value.get?_modifyAll_of_mem hapart _ (List.mem_map_of_mem ht), Value.get?_modify? hw, hv]
      rfl
    have hsame : w.modifyAll (j.walk.ends.map fun t => (t.address, fun _ => data)) = w := by
      simpa [Walk.ends, Value.modifyAll] using hdoc
    rw [hsame, Value.get?_modify? hw, hv] at hchanged
    exact hne (Option.some.inj hchanged)
  · intro hends
    refine Visitor.inert_of_noteAll accepts_visitor h fun s => ?_
    rw [noteAll_visitor]
    show { s with pending := s.pending ++ j.walk.ends } = s
    rw [hends, List.append_nil]

end Replace

end YamlQuery

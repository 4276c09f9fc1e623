import YamlQuery.Proofs.Edit.Runs

/-!
# Proofs.Edit.Calls — the calls of a visitor

A run calls its visitor at every event of the walk and once more at the end.  `Visitor.logged` does
what a visitor does and writes its calls down; these are `Visitor.calls`.

The calls of a run are those that the walk gives rise to (`Value.calls`), up to the first one at which
the visitor fails (`Visitor.calls_eq`).  So a visitor that never fails gets them all, and a failure
ends the run at once, whatever else would have come (`Visitor.run_of_fails`).
-/

namespace YamlQuery

/-- A call of a visitor: at an event, or with the document at the end of the walk. -/
inductive Call
  | event (e : Event)
  | finish (doc : Value)

/-- The calls that a walk gives rise to: its events, and the end if it does not stop before. -/
def Walk.calls (w : Walk) (doc : Value) : List Call :=
  w.events.map .event ++ if w.stop.isNone then [.finish doc] else []

/-- The calls along a path.  There are none if the path has no segment left. -/
def Value.calls (strict : Bool) (path : KeyPath) (doc : Value) : List Call :=
  if path.hasNext then (doc.walk strict path).calls doc else []

namespace Visitor

variable {σ τ : Type}

/-- The visitor with a list of the calls that it has got. -/
def logged (v : Visitor σ) : Visitor (σ × List Call) where
  visit e x := (((v.visit e x.1).1, x.2 ++ [.event e]), (v.visit e x.1).2)
  finish doc x := (((v.finish doc x.1).1, x.2 ++ [.finish doc]), (v.finish doc x.1).2)

/-- The calls of a run. -/
def calls (v : Visitor σ) (strict : Bool) (path : KeyPath) (doc : Value) (s : σ) : List Call :=
  (v.logged.run strict path doc (s, [])).state.2

/-- What a visitor answers to a call: the next state, and the error if it fails. -/
def answer (v : Visitor σ) : Call → σ → σ × Option EditError
  | .event e, s => v.visit e s
  | .finish doc, s =>
    match v.finish doc s with
    | (s, .ok _) => (s, none)
    | (s, .error err) => (s, some err)

/-- Calls the visitor up to the first call at which it fails: the calls made, and the error. -/
def callAll (v : Visitor σ) : List Call → σ → List Call × Option EditError
  | [], _ => ([], none)
  | c :: cs, s =>
    match v.answer c s with
    | (s, none) => (c :: (callAll v cs s).1, (callAll v cs s).2)
    | (_, some err) => ([c], some err)

/-- Of these calls, the visitor fails at the one with this number, counted from 0, and at none
before. -/
inductive Fails (v : Visitor σ) : List Call → σ → Nat → EditError → Prop
  | here {c : Call} {cs : List Call} {s : σ} {err : EditError} :
      (v.answer c s).2 = some err → Fails v (c :: cs) s 0 err
  | later {c : Call} {cs : List Call} {s : σ} {n : Nat} {err : EditError} :
      (v.answer c s).2 = none → Fails v cs (v.answer c s).1 n err → Fails v (c :: cs) s (n + 1) err

variable {v : Visitor σ} {w : Visitor τ} {strict : Bool} {path : KeyPath} {doc : Value} {s s' : σ}
  {t : τ} {err : EditError} {cs : List Call}

/-! ### Calls in turn -/

theorem callAll_of_answer_none {c : Call} (h : v.answer c s = (s', none)) (cs : List Call) :
    v.callAll (c :: cs) s = (c :: (v.callAll cs s').1, (v.callAll cs s').2) := by
  rw [callAll, h]

theorem callAll_of_answer_some {c : Call} (h : v.answer c s = (s', some err)) (cs : List Call) :
    v.callAll (c :: cs) s = ([c], some err) := by
  rw [callAll, h]

theorem callAll_prefix_self (v : Visitor σ) : ∀ (cs : List Call) (s : σ), (v.callAll cs s).1 <+: cs
  | [], _ => List.prefix_rfl
  | c :: cs, s => by
    rw [callAll]
    split
    · exact List.cons_prefix_cons.2 ⟨rfl, callAll_prefix_self v cs _⟩
    · exact ⟨cs, rfl⟩

/-- Events that the visitor takes are called in turn, and then what comes after them. -/
theorem callAll_of_taken (ds : List Call) : ∀ {es : List Event} {s : σ},
    v.visitAll es s = (s', none) → v.callAll (es.map .event ++ ds) s =
      (es.map .event ++ (v.callAll ds s').1, (v.callAll ds s').2)
  | [], s, h => by
    obtain rfl : s = s' := congrArg Prod.fst h
    rfl
  | e :: es, s, h => by
    rw [visitAll] at h
    split at h
    · next hvisit =>
      rw [List.map_cons, List.cons_append, callAll_of_answer_none (c := .event e) hvisit,
        callAll_of_taken ds h]
      rfl
    · cases h

/-- An event that the visitor refuses ends the calls. -/
theorem callAll_of_refused (ds : List Call) : ∀ {es : List Event} {s : σ},
    v.visitAll es s = (s', some err) → v.callAll (es.map .event ++ ds) s =
      ((v.callAll (es.map .event) s).1, some err)
  | e :: es, s, h => by
    rw [visitAll] at h
    rw [List.map_cons, List.cons_append]
    split at h
    · next hvisit =>
      rw [callAll_of_answer_none (c := .event e) hvisit,
        callAll_of_answer_none (c := .event e) hvisit, callAll_of_refused ds h]
    · next hvisit =>
      cases h
      rw [callAll_of_answer_some (c := .event e) hvisit,
        callAll_of_answer_some (c := .event e) hvisit]

theorem Accepts.answer (hv : v.Accepts) (c : Call) (s : σ) : (v.answer c s).2 = none := by
  cases c with
  | event e => exact hv.visit e s
  | finish doc =>
    obtain ⟨out, hout⟩ := hv.finish doc s
    rw [Visitor.answer, show v.finish doc s = ((v.finish doc s).1, .ok out) from Prod.ext rfl hout]

/-- A visitor that never fails gets all calls. -/
theorem callAll_of_accepts (hv : v.Accepts) :
    ∀ (cs : List Call) (s : σ), v.callAll cs s = (cs, none)
  | [], _ => rfl
  | c :: cs, s => by
    rw [callAll_of_answer_none (Prod.ext rfl (hv.answer c s)), callAll_of_accepts hv cs]

theorem Fails.lt_length {n : Nat} (h : v.Fails cs s n err) : n < cs.length := by
  induction h with
  | here => simp
  | later _ _ ih => simpa using ih

/-- The call at which the visitor fails is the last one. -/
theorem Fails.callAll_eq {n : Nat} (h : v.Fails cs s n err) :
    v.callAll cs s = (cs.take (n + 1), some err) := by
  induction h with
  | here hc => rw [callAll_of_answer_some (Prod.ext rfl hc), List.take_succ_cons, List.take_zero]
  | later hc _ ih => rw [callAll_of_answer_none (Prod.ext rfl hc), ih, List.take_succ_cons]

/-! ### The calls of a run -/

theorem visitAll_logged (v : Visitor σ) : ∀ (es : List Event) (s : σ) (cs : List Call),
    v.logged.visitAll es (s, cs) =
      (((v.visitAll es s).1, cs ++ (v.callAll (es.map .event) s).1), (v.visitAll es s).2)
  | [], s, cs => by simp [visitAll, callAll]
  | e :: es, s, cs => by
    have hlogged : v.logged.visit e (s, cs) =
        (((v.visit e s).1, cs ++ [.event e]), (v.visit e s).2) := rfl
    rw [List.map_cons, visitAll, visitAll, hlogged]
    cases h : v.visit e s with
    | mk s' r =>
      cases r with
      | none =>
        dsimp only
        rw [callAll_of_answer_none (c := .event e) h, visitAll_logged v es s', List.append_assoc,
          List.singleton_append]
      | some err =>
        dsimp only
        rw [callAll_of_answer_some (c := .event e) h]

/-- Writing the calls down changes nothing else, and the calls are those of the walk up to the first
at which the visitor fails. -/
theorem run_logged (v : Visitor σ) (strict : Bool) (path : KeyPath) (doc : Value) (s : σ) :
    v.logged.run strict path doc (s, []) =
      ⟨((v.run strict path doc s).state, (v.callAll (doc.calls strict path) s).1),
        (v.run strict path doc s).doc, (v.run strict path doc s).result⟩ := by
  cases hp : path.hasNext with
  | false => simp [run, Value.calls, hp, callAll]
  | true =>
    simp only [run, Value.calls, hp, Bool.not_true, Bool.false_eq_true, if_false, if_true,
      visitAll_logged, Walk.calls, List.nil_append]
    cases h : v.visitAll (doc.walk strict path).events s with
    | mk s' r =>
      cases r with
      | some err => rw [callAll_of_refused _ h]
      | none =>
        have htaken := callAll_of_taken [] h
        rw [List.append_nil] at htaken
        cases hs : (doc.walk strict path).stop with
        | some o => simp [htaken, callAll]
        | none =>
          rw [callAll_of_taken _ h]
          cases hf : v.finish doc s' with
          | mk s'' out => cases out <;> simp [htaken, callAll, answer, logged, hf]

theorem calls_eq (v : Visitor σ) (strict : Bool) (path : KeyPath) (doc : Value) (s : σ) :
    v.calls strict path doc s = (v.callAll (doc.calls strict path) s).1 := by
  rw [calls, run_logged]

theorem calls_prefix_calls (v : Visitor σ) (strict : Bool) (path : KeyPath) (doc : Value) (s : σ) :
    v.calls strict path doc s <+: doc.calls strict path := by
  rw [calls_eq]
  exact callAll_prefix_self v _ _

theorem calls_of_accepts (hv : v.Accepts) (strict : Bool) (path : KeyPath) (doc : Value) (s : σ) :
    v.calls strict path doc s = doc.calls strict path := by
  rw [calls_eq, callAll_of_accepts hv]

/-- The error at which the calls end is the error of the run. -/
theorem result_of_callAll (h : (v.callAll (doc.calls strict path) s).2 = some err) :
    (v.run strict path doc s).result = .error err := by
  cases hp : path.hasNext with
  | false => simp [Value.calls, hp, callAll] at h
  | true =>
    rw [Value.calls, if_pos hp, Walk.calls] at h
    rw [run, hp, Bool.not_true, if_neg (by simp)]
    dsimp only
    cases hv : v.visitAll (doc.walk strict path).events s with
    | mk s' r =>
      cases r with
      | some err' =>
        rw [callAll_of_refused _ hv] at h
        obtain rfl : err' = err := Option.some.inj h
        rfl
      | none =>
        rw [callAll_of_taken _ hv] at h
        cases hs : (doc.walk strict path).stop with
        | some o => simp [hs, callAll] at h
        | none =>
          cases hf : v.finish doc s' with
          | mk s'' out => cases out <;> simp_all [callAll, answer]

/-- The end of the walk is the last call. -/
theorem length_calls_of_finish {n : Nat} {d : Value}
    (h : (doc.calls strict path)[n]? = some (.finish d)) :
    (doc.calls strict path).length = n + 1 := by
  unfold Value.calls Walk.calls at h ⊢
  split at h
  · next hp =>
    rw [if_pos hp]
    rw [List.getElem?_append] at h
    split at h
    · simp at h
    · next hn =>
      split at h
      · next hs =>
        rw [if_pos hs, List.length_append]
        have hlt := (List.getElem?_eq_some_iff.1 h).1
        rw [List.length_singleton] at hlt ⊢
        omega
      · simp at h
  · simp at h

/-- **A failure ends the run at once.**  If a visitor fails at the `n`th of the calls that a visitor
gets which never fails, a run makes these calls up to that one and no other, and ends with its error;
it has come to the end of the walk only if that is the call. -/
theorem run_of_fails {n : Nat} (hw : w.Accepts)
    (h : v.Fails (w.calls strict path doc t) s n err) :
    v.calls strict path doc s = (w.calls strict path doc t).take (n + 1) ∧
      (v.run strict path doc s).result = .error err ∧
      ∀ d, .finish d ∈ v.calls strict path doc s →
        (w.calls strict path doc t)[n]? = some (.finish d) := by
  rw [calls_of_accepts hw] at h ⊢
  have hcalls : v.calls strict path doc s = (doc.calls strict path).take (n + 1) := by
    rw [calls_eq, h.callAll_eq]
  refine ⟨hcalls, result_of_callAll (congrArg Prod.snd h.callAll_eq), fun d hd => ?_⟩
  rw [hcalls] at hd
  obtain ⟨m, hm⟩ := List.mem_iff_getElem?.1 hd
  rw [List.getElem?_take] at hm
  split at hm
  · next hlt =>
    -- the end of the walk is the last of all calls, so none of those up to the `n`th but that one
    have hlast := length_calls_of_finish hm
    have hn := h.lt_length
    obtain rfl : m = n := by omega
    exact hm
  · cases hm

/-! ### Failing at a call -/

/-- Does what the visitor does, but fails at the call with this number, counted from 0. -/
def failingAt (v : Visitor σ) (n : Nat) (err : EditError) : Visitor (σ × Nat) where
  visit e x := (((v.visit e x.1).1, x.2 + 1), if x.2 = n then some err else (v.visit e x.1).2)
  finish doc x :=
    (((v.finish doc x.1).1, x.2 + 1), if x.2 = n then .error err else (v.finish doc x.1).2)

theorem answer_failingAt (v : Visitor σ) (n : Nat) (err : EditError) (c : Call) (s : σ) (m : Nat) :
    (v.failingAt n err).answer c (s, m) =
      (((v.answer c s).1, m + 1), if m = n then some err else (v.answer c s).2) := by
  cases c with
  | event e => rfl
  | finish doc =>
    cases hf : v.finish doc s with
    | mk s' r =>
      by_cases hm : m = n
      · cases r <;> simp [answer, failingAt, hf, hm]
      · cases r <;> simp [answer, failingAt, hf, hm]

/-- Each call can be the one at which a visitor fails. -/
theorem fails_failingAt (hv : v.Accepts) (err : EditError) :
    ∀ {cs : List Call} {s : σ} {n : Nat} (m : Nat), n < cs.length →
      (v.failingAt (m + n) err).Fails cs (s, m) n err
  | c :: cs, s, 0, m, _ => .here (by simp [answer_failingAt])
  | c :: cs, s, n + 1, m, h => by
    have hanswer : (v.failingAt (m + (n + 1)) err).answer c (s, m) =
        (((v.answer c s).1, m + 1), none) := by
      rw [answer_failingAt, if_neg (by omega), hv.answer]
    refine .later (by rw [hanswer]) ?_
    rw [hanswer, show m + (n + 1) = m + 1 + n by omega]
    exact fails_failingAt hv err (m + 1) (Nat.lt_of_succ_lt_succ h)

/-- The walk would stop right after the call at which the visitor fails. -/
theorem run_of_fails_item :
    let doc := Value.mapping [("a", .sequence [.mapping [("x", .null)], .null]), ("b", .null)]
    let err := EditError.noSubElements "a"
    let fails := record.failingAt 2 err
    ∃ path, KeyPath.parse "*.x" "." = .ok path ∧ record.Accepts ∧
      (record.calls true path doc []).length = 3 ∧ (record.calls false path doc []).length = 5 ∧
      (record.run true path doc []).result = .error (.shapeMismatch "a[1]" "null" "*.x") ∧
      fails.Fails (record.calls true path doc []) ([], 0) 2 err ∧
      fails.Fails (record.calls false path doc []) ([], 0) 2 err ∧
      (fails.run true path doc ([], 0)).result = .error err ∧
      (fails.calls false path doc ([], 0)) = (record.calls false path doc []).take 3 := by
  intro doc err fails
  obtain ⟨path, hpath, hstrict, hlenient, hresult⟩ := KeyPath.exists_parse "*.x" "."
    (fun p => (record.calls true p doc []).length = 3 ∧ (record.calls false p doc []).length = 5 ∧
      (record.run true p doc []).result = .error (.shapeMismatch "a[1]" "null" "*.x"))
    (by decide +kernel)
  have htrue : fails.Fails (record.calls true path doc []) ([], 0) 2 err :=
    fails_failingAt (n := 2) accepts_record err 0 (by rw [hstrict]; decide)
  have hfalse : fails.Fails (record.calls false path doc []) ([], 0) 2 err :=
    fails_failingAt (n := 2) accepts_record err 0 (by rw [hlenient]; decide)
  exact ⟨path, hpath, accepts_record, hstrict, hlenient, hresult, htrue, hfalse,
    (run_of_fails accepts_record htrue).2.1, (run_of_fails accepts_record hfalse).1⟩

end Visitor

end YamlQuery

import YamlQuery.Batch.Machine

/-!
# Batch.Run — running scripts

A script is run line by line on a current value.  A loop runs the lines up to its end once for each
element of the current value and gives the sequence of the results; a script that is run by another
has the properties of that one, but its own changes to them end with it.

`runWith` is given how other scripts are run; `runTo` runs them itself, down to a depth.  Nothing in a
script says how deep scripts may run each other: the depth stands for the call stack, and the fault
`tooDeep` for its end.  So `runTo` takes any depth, and what is said of runs is said for each;
`run` has one for the programs that ask for none.
-/

namespace YamlQuery.Batch

/-- A round of a loop: the key of an entry, the element, and the value that the round starts
with. -/
structure Round where
  key : Option String := none
  value : Value
  input : Value

/-- The rounds of a loop over a value. -/
def rounds : Value → Except Fault (List Round)
  | .sequence items =>
    if items.all fun v => v.isScalar || v.isMapping then
      .ok (items.map fun v => { value := v, input := v })
    else .error (.loopShape "a sequence containing sequences")
  | .mapping es =>
    if es.all (·.2.isScalar) then
      .ok (es.map fun (k, v) => { key := some k, value := v, input := .mapping [(k, v)] })
    else .error (.loopShape "a mapping with nested values")
  | v => .error (.loopShape v.kind)

/-- What a script does with a current value. -/
abbrev Runner := Value → Machine → Except Failure Value × Machine

/-- Runs a body for each of several rounds, the first of which has a number. -/
def runRounds (body : Runner) (index : Nat) :
    List Round → Machine → Except Failure (List Value) × Machine
  | [], m => (.ok [], m)
  | r :: rs, m =>
    match body r.input (m.enterRound index r.key r.value) with
    | (.error e, m) => (.error e, m)
    | (.ok v, m) =>
      match runRounds body (index + 1) rs m with
      | (.error e, m) => (.error e, m)
      | (.ok vs, m) => (.ok (v :: vs), m)

/-- Runs a loop, which may fail as a whole. -/
def runLoop (fail : Fault → Failure) (body : Runner) : Runner := fun v m =>
  match rounds v with
  | .error f => (.error (fail f), m)
  | .ok rs =>
    match runRounds body 0 rs m with
    | (.error e, m) => (.error e, m)
    | (.ok vs, m') => (.ok (.sequence vs), m.leaveLoop m')

/-- The path of a script that another one names: beside that one, if something is there. -/
def scriptPath (files : Files) (s : Script) (path : String) : String :=
  if Path.isAbsolute path then path
  else
    match s.base? with
    | none => path
    | some dir => if files.holds (Path.within dir path) then Path.within dir path else path

/-- Runs the lines of a script that are left.  A line that runs another script names its path. -/
def runWith (other : (Fault → Failure) → String → Runner) (s : Script) : Runner := fun v m =>
  match hs : s.next? with
  | none => (.ok v, m)
  | some (l, t) =>
    have := Script.length_rest_of_next? hs
    match Statement.parse l.content with
    | .error e => (.error ((Fault.malformed e).at s l), m)
    | .ok .close => (.error (Fault.strayEnd.at s l), m)
    | .ok .foreach =>
      match ht : t.takeBlock? with
      | none => (.error (Fault.openLoop.at s l), m)
      | some (body, t') =>
        have := Script.length_rest_of_takeBlock? ht
        match runLoop (·.at s l) (runWith other body) v m with
        | (.error e, m) => (.error e, m)
        | (.ok v, m) => runWith other t' v m
    | .ok (.script path) =>
      match other (·.at s l) (scriptPath m.files s (m.expand path)) v m with
      | (.error e, m) => (.error e, m)
      | (.ok v, m) => runWith other t v m
    | .ok statement =>
      match m.execute v statement with
      | (.error f, m) => (.error (f.at s l), m)
      | (.ok v, m) => runWith other t v m
termination_by s.rest.length
decreasing_by all_goals omega

/-- The script in a file. -/
def Script.load? (files : Files) (path : String) : Option Script :=
  ((files.read? path).bind (String.fromUTF8? ·)).map (Script.parse path)

/-- Runs the script in a file for another script.  At depth zero there is no room on the stack. -/
def runOther : (depth : Nat) → (Fault → Failure) → String → Runner
  | 0, fail, _, _, m => (.error (fail .tooDeep), m)
  | depth + 1, _, path, v, m =>
    match Script.load? m.files path with
    | none => (.error ⟨path, 0, "", .unreadable⟩, m)
    | some s =>
      match runWith (runOther depth) s v m with
      | (r, m') => (r, { m' with properties := m.properties })

/-- Runs a script; other scripts run each other down to a depth. -/
def runTo (depth : Nat) (s : Script) : Runner := runWith (runOther depth) s

/-- Runs the script in a file; other scripts run each other down to a depth. -/
def runFileTo (depth : Nat) (path : String) : Runner := fun v m =>
  match Script.load? m.files path with
  | none => (.error ⟨path, 0, "", .unreadable⟩, m)
  | some s => runTo depth s v m

/-- A depth that no script of use comes to. -/
def deepest : Nat := 1000

/-- Runs a script. -/
def run (s : Script) : Runner := runTo deepest s

/-- Runs the script in a file. -/
def runFile (path : String) : Runner := runFileTo deepest path

end YamlQuery.Batch

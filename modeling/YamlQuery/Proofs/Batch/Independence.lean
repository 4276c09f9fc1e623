import Mathlib.Data.List.Forall2
import YamlQuery.Proofs.Batch.Rounds
import YamlQuery.Proofs.Batch.Sequence
import YamlQuery.Proofs.Command.Blind

/-!
# Proofs.Batch.Independence — rounds that do not see each other

A loop writes the number and the element of a round to places that its body can read.  A body that
asks for neither (`Script.IsBlind`) gives in each round what it gives as a script of its own, on any
machine that differs in nothing but these places, its output and its properties (`Machine.Alike`,
`verdict_runWith`).  Such a body leaves the session as it is, and so does the loop
(`Machine.Leaves`).  The loop is a map then: a result for each element, or the first failure
(`Point.maps_of_isBlind`).
-/

namespace YamlQuery.Batch

open Relation (ReflTransGen)

/-! ### Statements and scripts -/

/-- The statement opens or closes a loop, or it is a command whose line has no token in it; if the
line writes a command at all, that takes neither properties nor the element of a round. -/
inductive Statement.IsBlind : Statement → Prop
  | foreach : IsBlind .foreach
  | close : IsBlind .close
  | command {name arguments line : String} :
      (Statement.command name arguments).commandLine? = some line →
      ¬ Substitute.mark <:+: line.toList →
      (∀ c, Command.parse line = .ok c → c.IsBlindTo roundValue) →
        IsBlind (.command name arguments)

namespace Statement

/-- The line of a command has no token in it if the text that writes the command has none. -/
theorem not_mark_infix_of_parse {text name arguments line : String}
    (hparse : parse text = .ok (.command name arguments))
    (hline : (Statement.command name arguments).commandLine? = some line)
    (htext : ¬ Substitute.mark <:+: text.toList) : ¬ Substitute.mark <:+: line.toList := by
  have htrim := Text.trim_infix text.toList
  obtain ⟨hname, harguments⟩ := words_of_command hparse
  have hname : ¬ Substitute.mark <:+: name.toList := by
    rw [hname, String.toList_ofList]
    exact fun h => htext ((h.trans (List.takeWhile_prefix _).isInfix).trans htrim)
  have harguments : ¬ Substitute.mark <:+: arguments.toList := by
    rw [harguments, String.toList_ofList]
    exact fun h =>
      htext (((h.trans (Text.trim_infix _)).trans (List.dropWhile_suffix _).isInfix).trans htrim)
  have hline : (if arguments.isEmpty then name else name ++ " " ++ arguments) = line :=
    Option.some.inj hline
  rw [← hline]
  split
  · exact hname
  · have hjoin : (name ++ " " ++ arguments).toList = name.toList ++ ' ' :: arguments.toList := by
      simp
    rw [hjoin]
    exact Substitute.not_mark_infix_join harguments hname

/-- The names of the commands that take no properties. -/
def plainCommands : List String := ["read", "list", "table", "delete", "insert", "replace"]

/-- A text without tokens that starts with one of these names writes a blind command, if its data,
where it has any, are not the element of a round. -/
theorem isBlind_of_name {text name arguments line : String}
    (hparse : parse text = .ok (.command name arguments)) (hname : name ∈ plainCommands)
    (hline : (Statement.command name arguments).commandLine? = some line)
    (htext : ¬ Substitute.mark <:+: text.toList)
    (hdata : ∀ path data, Command.parse line = .ok (.insert path data) ∨
      Command.parse line = .ok (.replace path data) → Reference.parse data ≠ .stored roundValue) :
    (Statement.command name arguments).IsBlind := by
  refine .command hline (not_mark_infix_of_parse hparse hline htext) fun c hc => ?_
  have hwords : ∀ n ∈ plainCommands,
      n.toList ≠ [] ∧ n ≠ "macro" ∧ n.toList.all Command.Words.isOrdinary := by decide
  obtain ⟨hne, hmacro, hordinary⟩ := hwords name hname
  have hc' := Command.name_of_parse hne hordinary hline hc
  cases c with
  | substitute => exact hmacro hc'.symm
  | insert path data => exact hdata path data (.inl hc)
  | replace path data => exact hdata path data (.inr hc)
  | _ => trivial

end Statement

namespace Script

/-- No statement of a line that is left asks for properties or for the element of a round. -/
def IsBlind (s : Script) : Prop := s.Each Statement.IsBlind

variable {s s' : Script}

/-! ### Scripts with the same contents -/

theorem Each.congr {P : Statement → Prop} (h : s.Each P) (hcontents : s.contents = s'.contents) :
    s'.Each P := by
  rw [Each, ← hcontents]
  exact h

theorem blockLength?_congr : ∀ {ls ks : List Line} (depth : Nat),
    ls.map (·.content) = ks.map (·.content) → blockLength? depth ls = blockLength? depth ks
  | [], [], _, _ => rfl
  | l :: ls, k :: ks, depth, h => by
    obtain ⟨hcontent, hrest⟩ := List.cons.inj h
    have hkeyword : l.keyword = k.keyword :=
      congrArg (fun text : String => keyword text.toList) hcontent
    have ih (depth : Nat) : blockLength? depth ls = blockLength? depth ks :=
      blockLength?_congr depth hrest
    rw [blockLength?, blockLength?, hkeyword, ih, ih, ih]

theorem next?_congr (h : s.contents = s'.contents) :
    s.next? = none ∧ s'.next? = none ∨
      ∃ l t l' t', s.next? = some (l, t) ∧ s'.next? = some (l', t') ∧ l.content = l'.content ∧
        t.contents = t'.contents := by
  rw [contents, contents] at h
  rcases hs : s.rest with _ | ⟨l, ls⟩ <;> rcases hs' : s'.rest with _ | ⟨l', ls'⟩ <;>
    rw [hs, hs'] at h
  · exact .inl ⟨next?_eq_none hs, next?_eq_none hs'⟩
  · cases h
  · cases h
  · obtain ⟨t, hnext, -, ht⟩ := exists_next? hs
    obtain ⟨t', hnext', -, ht'⟩ := exists_next? hs'
    obtain ⟨hl, hls⟩ := List.cons.inj h
    exact .inr ⟨l, t, l', t', hnext, hnext', hl, by rw [contents, contents, ht, ht', hls]⟩

theorem takeBlock?_congr (h : s.contents = s'.contents) :
    s.takeBlock? = none ∧ s'.takeBlock? = none ∨
      ∃ body t body' t', s.takeBlock? = some (body, t) ∧ s'.takeBlock? = some (body', t') ∧
        body.contents = body'.contents ∧ t.contents = t'.contents := by
  have hlength := blockLength?_congr 0 h
  rcases hn : blockLength? 0 s.rest with _ | n
  · exact .inl ⟨takeBlock?_eq_none hn, takeBlock?_eq_none (hlength ▸ hn)⟩
  · obtain ⟨body, t, hblock, -, -, hbody, ht⟩ := exists_takeBlock? hn
    obtain ⟨body', t', hblock', -, -, hbody', ht'⟩ := exists_takeBlock? (hlength ▸ hn)
    rw [contents, contents] at h
    refine .inr ⟨body, t, body', t', hblock, hblock', ?_, ?_⟩
    · rw [contents, contents, hbody, hbody', List.map_take, List.map_take, h]
    · rw [contents, contents, ht, ht', List.map_drop, List.map_drop, h]

end Script

/-! ### Machines that look alike to a blind script -/

namespace Machine

variable {m m' m'' : Machine}

/-- The machines have the same files, and their sessions differ at most in the element of a round. -/
structure Alike (m m' : Machine) : Prop extends Session.AgreeBut roundValue m.session m'.session where
  files : m.files = m'.files

/-- The second machine differs from the first in nothing but properties. -/
structure Leaves (m m' : Machine) : Prop where
  session : m'.session = m.session
  files : m'.files = m.files
  output : m'.output = m.output

/-- Between the rounds of a loop over a body that leaves the machine, memory may have the element of
a round besides. -/
structure LeavesRound (m m' : Machine) : Prop where
  settings : m'.session.settings = m.session.settings
  memory : ∃ v, m'.session.memory = Entries.putIf roundValue v m.session.memory
  files : m'.files = m.files
  output : m'.output = m.output

theorem Alike.refl (m : Machine) : Alike m m := ⟨⟨rfl, fun _ _ => rfl⟩, rfl⟩

theorem Alike.trans (h : Alike m m') (h' : Alike m' m'') : Alike m m'' where
  settings := h.settings.trans h'.settings
  memory n hn := (h.memory n hn).trans (h'.memory n hn)
  files := h.files.trans h'.files

theorem Alike.symm (h : Alike m m') : Alike m' m where
  settings := h.settings.symm
  memory n hn := (h.memory n hn).symm
  files := h.files.symm

theorem Leaves.refl (m : Machine) : Leaves m m := ⟨rfl, rfl, rfl⟩

theorem Leaves.trans (h : Leaves m m') (h' : Leaves m' m'') : Leaves m m'' where
  session := h'.session.trans h.session
  files := h'.files.trans h.files
  output := h'.output.trans h.output

theorem Leaves.alike (h : Leaves m m') : Alike m m' :=
  ⟨⟨h.session ▸ rfl, fun _ _ => h.session ▸ rfl⟩, h.files.symm⟩

theorem alike_enterRound (m : Machine) (index : Nat) (key : Option String) (v : Value) :
    Alike m (m.enterRound index key v) where
  settings := rfl
  memory n hn := by rw [enterRound_memory, Entries.get?_put, if_neg hn]
  files := rfl

theorem leavesRound_enterRound (h : LeavesRound m m') (index : Nat) (key : Option String)
    (v : Value) : LeavesRound m (m'.enterRound index key v) where
  settings := h.settings
  memory := by
    obtain ⟨w, hw⟩ := h.memory
    refine ⟨some v, ?_⟩
    rw [enterRound_memory, hw]
    exact Entries.putIf_putIf roundValue w (some v) _
  files := h.files
  output := h.output

theorem LeavesRound.leaves (h : LeavesRound m m') (h' : Leaves m' m'') : LeavesRound m m'' where
  settings := h'.session ▸ h.settings
  memory := h'.session ▸ h.memory
  files := h'.files.trans h.files
  output := h'.output.trans h.output

theorem leavesRound_of_rounds (h : ReflTransGen (Point.AfterRound Leaves) m m') :
    LeavesRound m m' := by
  induction h with
  | refl => exact ⟨rfl, ⟨none, rfl⟩, rfl, rfl⟩
  | tail _ hround ih =>
    obtain ⟨index, key, v, hleaves⟩ := hround
    exact (leavesRound_enterRound ih index key v).leaves hleaves

/-- The end of a loop brings memory back as a whole. -/
theorem LeavesRound.leaveLoop (h : LeavesRound m m') : Leaves m (m.leaveLoop m') := by
  have hmemory : (m.leaveLoop m').session.memory = m.session.memory := by
    obtain ⟨v, hv⟩ := h.memory
    -- what was there before the loop is put over the element of the last round
    rw [leaveLoop_memory, hv, Entries.assign_putIf id]
    exact Entries.putIf_eq_self (.inr rfl)
  refine ⟨?_, h.files, h.output⟩
  calc (m.leaveLoop m').session
      = ⟨m'.session.settings, (m.leaveLoop m').session.memory⟩ := rfl
    _ = m.session := by rw [h.settings, hmemory]

theorem compatible_leaves : Point.Compatible Leaves where
  refl := Leaves.refl
  trans := Leaves.trans
  loop h := (leavesRound_of_rounds h).leaveLoop
  script h := ⟨h.session, h.files, h.output⟩

/-- A blind command gives the same on machines that look alike. -/
theorem execute_congr {name arguments : String} (h : Alike m m')
    (hblind : (Statement.command name arguments).IsBlind) (v : Value) :
    (m.execute v (.command name arguments)).1 = (m'.execute v (.command name arguments)).1 := by
  cases hblind with
  | @command _ _ line hline htoken hc =>
    have hexpand (n : Machine) : n.expand line = line :=
      congrArg Prod.fst (Substitute.text_of_no_token htoken _ _)
    rw [execute, execute, hline]
    dsimp only [Option.getD_some]
    rw [hexpand, hexpand, command, command]
    rcases hparse : Command.parse line with e | c
    · rfl
    · dsimp only
      rw [Command.run_congr (hc c hparse) h.toAgreeBut m.properties.lookup m'.properties.lookup,
        h.files]

end Machine

/-! ### Runs of blind scripts -/

namespace Point

variable {p q : Point}

theorem isBlind_of_step (hp : p.script.IsBlind) (h : p.Step q) : q.script.IsBlind := by
  rcases h with h | h
  · cases h with
    | plain hnext => exact hp.next hnext.line
    | loop hloop =>
      obtain ⟨t, hnext, hblock⟩ := hloop
      exact ((hp.next hnext.line).takeBlock hblock).2
    | script hcalls =>
      obtain ⟨text, hnext, -⟩ := hcalls
      cases hp.statement hnext.line hnext.parse
  · cases h with
    | round hloop =>
      obtain ⟨t, hnext, hblock⟩ := hloop
      exact ((hp.next hnext.line).takeBlock hblock).1
    | script hcalls =>
      obtain ⟨text, hnext, -⟩ := hcalls
      cases hp.statement hnext.line hnext.parse

theorem isBlind_of_reaches (hp : p.script.IsBlind) (h : p.Reaches q) : q.script.IsBlind := by
  induction h with
  | refl => exact hp
  | tail _ hstep ih => exact isBlind_of_step ih hstep

theorem obeys_leaves (hp : p.script.IsBlind) : p.Obeys Machine.Leaves := by
  intro l t st v m hnext hst hexec
  cases hp.statement hnext.line hnext.parse with
  | foreach | close => exact hst.elim
  | command =>
    obtain ⟨-, rfl⟩ := Prod.mk.inj hexec
    exact .refl _

end Point

/-- A run of a blind script that ends well leaves the machine. -/
theorem leaves_of_runWith {s : Script} (hs : s.IsBlind) {depth : Nat} {v w : Value} {m m' : Machine}
    (h : runWith (runOther depth) s v m = (.ok w, m')) : Machine.Leaves m m' :=
  Machine.compatible_leaves.of_outcome (p := ⟨depth, none, s, v, m⟩)
    (fun _ hq => Point.obeys_leaves (Point.isBlind_of_reaches hs hq)) h

/-- A loop over a blind body that ends well leaves the machine. -/
theorem leaves_of_runLoop {body : Script} (hbody : body.IsBlind) {depth : Nat}
    {fail : Fault → Failure} {v w : Value} {m m' : Machine}
    (h : runLoop fail (runWith (runOther depth) body) v m = (.ok w, m')) : m.Leaves m' := by
  obtain ⟨rs, vs, m₁, -, hrs, -, rfl⟩ := runLoop_eq_ok h
  have hrounds : ReflTransGen (Point.AfterRound Machine.Leaves) m m₁ :=
    runRounds_rule hrs fun _ r _ _ _ _ _ _ hround =>
      ⟨_, r.key, r.value, leaves_of_runWith hbody hround⟩
  exact (Machine.leavesRound_of_rounds hrounds).leaveLoop

section Verdict

variable {α : Type}

/-- What a run gives, without the place of a failure. -/
def verdict (x : Except Failure α) : Except Fault α := x.mapError Failure.fault

theorem verdict_eq_ok {x : Except Failure α} {a : α} : verdict x = .ok a ↔ x = .ok a := by
  rcases x with e | b
  · exact ⟨nofun, nofun⟩
  · exact ⟨fun h => congrArg _ (Except.ok.inj h), fun h => congrArg _ (Except.ok.inj h)⟩

theorem verdict_eq_error {x : Except Failure α} {f : Fault} :
    verdict x = .error f ↔ ∃ e, x = .error e ∧ e.fault = f := by
  rcases x with e | b
  · refine ⟨fun h => ⟨e, rfl, Except.error.inj h⟩, ?_⟩
    rintro ⟨e', he, rfl⟩
    cases he
    rfl
  · exact ⟨nofun, nofun⟩

theorem verdict_andThen {x y : Except Failure Value × Machine} {f g : Runner}
    (hxy : verdict x.1 = verdict y.1)
    (hfg : ∀ v m n, x = (.ok v, m) → y = (.ok v, n) → verdict (f v m).1 = verdict (g v n).1) :
    verdict (andThen x f).1 = verdict (andThen y g).1 := by
  rcases x with ⟨e | v, m⟩ <;> rcases y with ⟨e' | w, n⟩
  · exact hxy
  · cases hxy
  · cases hxy
  · cases hxy
    exact hfg v m n rfl rfl

/-- **Rounds are a map.**  If a body looks at nothing that a round writes and leaves the machine,
then its rounds give what it gives on a machine of its own. -/
theorem verdict_runRounds {body : Runner} {own : Machine} {give : Value → Except Fault Value}
    (hbody : ∀ v m, own.Alike m → verdict (body v m).1 = give v)
    (hleaves : ∀ v m w m', body v m = (.ok w, m') → m.Leaves m') :
    ∀ (rs : List Round) (index : Nat) (m : Machine), own.Alike m →
      verdict (runRounds body index rs m).1 = rs.mapM (give ·.input)
  | [], _, _, _ => rfl
  | r :: rs, index, m, hm => by
    -- The machine is that of the first round, with what the rounds before this one have left.
    have henter := hm.trans (m.alike_enterRound index r.key r.value)
    have hround := hbody r.input _ henter
    rw [List.mapM_cons, ← hround]
    rcases hr : body r.input (m.enterRound index r.key r.value) with ⟨e | v, m₁⟩
    · rw [runRounds, hr]
      rfl
    · have hm₁ := henter.trans (hleaves _ _ _ _ hr).alike
      have ih := verdict_runRounds hbody hleaves rs (index + 1) m₁ hm₁
      rcases hrs : runRounds body (index + 1) rs m₁ with ⟨e | vs, m₂⟩ <;>
        rw [runRounds_cons hr hrs, ← ih, hrs] <;> rfl

/-- A loop is a map over its rounds. -/
theorem verdict_runLoop {fail : Fault → Failure} (hfail : ∀ f, (fail f).fault = f) {body : Runner}
    {own m : Machine} {give : Value → Except Fault Value} (hm : own.Alike m)
    (hbody : ∀ v m, own.Alike m → verdict (body v m).1 = give v)
    (hleaves : ∀ v m w m', body v m = (.ok w, m') → m.Leaves m') (v : Value) :
    verdict (runLoop fail body v m).1 =
      rounds v >>= fun rs => (rs.mapM (give ·.input)).map Value.sequence := by
  rw [runLoop]
  rcases rounds v with f | rs
  · exact congrArg _ (hfail f)
  · have hrs := verdict_runRounds hbody hleaves rs 0 m hm
    change _ = (rs.mapM (give ·.input)).map Value.sequence
    rw [← hrs]
    dsimp only
    rcases runRounds body 0 rs m with ⟨e | vs, m₁⟩ <;> rfl

/-- Loops over bodies that give the same give the same: both map what the second body gives on the
second machine. -/
theorem verdict_runLoop_congr {fail fail' : Fault → Failure} (hfail : ∀ f, (fail f).fault = f)
    (hfail' : ∀ f, (fail' f).fault = f) {body body' : Runner}
    (hbody : ∀ v m m', m.Alike m' → verdict (body v m).1 = verdict (body' v m').1)
    (hleaves : ∀ v m w m', body v m = (.ok w, m') → m.Leaves m')
    (hleaves' : ∀ v m w m', body' v m = (.ok w, m') → m.Leaves m') {m m' : Machine}
    (hm : m.Alike m') (v : Value) :
    verdict (runLoop fail body v m).1 = verdict (runLoop fail' body' v m').1 := by
  have hfirst (v : Value) (n : Machine) (hn : m'.Alike n) :
      verdict (body v n).1 = verdict (body' v m').1 := hbody v n m' hn.symm
  have hsecond (v : Value) (n : Machine) (hn : m'.Alike n) :
      verdict (body' v n).1 = verdict (body' v m').1 :=
    (hbody v m' n hn).symm.trans (hbody v m' m' (.refl m'))
  rw [verdict_runLoop hfail hm.symm hfirst hleaves,
    verdict_runLoop hfail' (.refl m') hsecond hleaves']

end Verdict

/-- Scripts with the same contents give the same on machines that look alike. -/
theorem verdict_runWith (depth depth' : Nat) (s : Script) : s.IsBlind →
    ∀ s', s.contents = s'.contents → ∀ (v : Value) (m m' : Machine), m.Alike m' →
      verdict (runWith (runOther depth) s v m).1 = verdict (runWith (runOther depth') s' v m').1 := by
  induction s using Script.induction_rest with
  | h s ih =>
    intro hs s' hcontents v m m' hm
    obtain ⟨hend, hend'⟩ | ⟨l, t, l', t', hnext, hnext', hl, ht⟩ := Script.next?_congr hcontents
    · rw [runWith_of_finished hend, runWith_of_finished hend']
    have hlen := Script.length_rest_of_next? hnext
    have htblind := hs.next hnext
    rw [runWith_of_next hnext, runWith_of_next hnext', runLine, runLine, ← hl]
    rcases hparse : Statement.parse l.content with e | statement
    · rfl
    have hblind := hs.statement hnext hparse
    cases statement with
    | close => rfl
    | foreach =>
      dsimp only
      obtain ⟨hblock, hblock'⟩ | ⟨body, u, body', u', hblock, hblock', hbody, hu⟩ :=
        Script.takeBlock?_congr ht
      · rw [hblock, hblock']
        rfl
      have hlt := Script.length_rest_of_takeBlock? hblock
      obtain ⟨hbodyBlind, huBlind⟩ := htblind.takeBlock hblock
      have hbodyBlind' := hbodyBlind.congr hbody
      rw [hblock, hblock']
      refine verdict_andThen ?_ fun w n n' hw hw' => ih u (by omega) huBlind u' hu w n n' ?_
      · exact verdict_runLoop_congr (fun _ => rfl) (fun _ => rfl)
          (ih body (by omega) hbodyBlind body' hbody)
          (fun _ _ _ _ => leaves_of_runWith hbodyBlind)
          (fun _ _ _ _ => leaves_of_runWith hbodyBlind') hm v
      · exact ((leaves_of_runLoop hbodyBlind hw).alike.symm.trans hm).trans
          (leaves_of_runLoop hbodyBlind' hw').alike
    | command name arguments =>
      -- A command leaves the machine, so that the runs behind it start on machines that are alike.
      have hexec := Machine.execute_congr hm hblind v
      dsimp only [Machine.executeAt]
      rcases hx : m.execute v (.command name arguments) with ⟨x, n⟩
      rcases hy : m'.execute v (.command name arguments) with ⟨y, n'⟩
      obtain ⟨-, rfl⟩ := Prod.mk.inj hx
      obtain ⟨-, rfl⟩ := Prod.mk.inj hy
      rw [hx, hy] at hexec
      obtain rfl : x = y := hexec
      rcases x with f | w
      · rfl
      · exact ih t hlen htblind t' ht w m m' hm
    | _ => cases hblind

/-! ### Loops over sequences -/

section Map

variable {α β ε : Type} {f : α → Except ε β}

theorem mapM_of_forall₂ {xs : List α} {ys : List β}
    (h : List.Forall₂ (fun x y => f x = .ok y) xs ys) : xs.mapM f = .ok ys := by
  induction h with
  | nil => rfl
  | cons hx _ ih => rw [List.mapM_cons, hx, ih]; rfl

theorem mapM_of_first {x : α} {e : ε} {after : List α} (hx : f x = .error e) :
    ∀ {before : List α}, (∀ y ∈ before, ∃ z, f y = .ok z) →
      (before ++ x :: after).mapM f = .error e
  | [], _ => by rw [List.nil_append, List.mapM_cons, hx]; rfl
  | y :: before, h => by
    obtain ⟨⟨z, hy⟩, hbefore⟩ := List.forall_mem_cons.1 h
    rw [List.cons_append, List.mapM_cons, hy, mapM_of_first hx hbefore]
    rfl

end Map

theorem rounds_of_items {items : List Value} (h : ∀ x ∈ items, x.isScalar || x.isMapping) :
    rounds (.sequence items) = .ok (items.map fun v => { value := v, input := v }) := by
  rw [rounds, if_pos (List.all_eq_true.2 h)]

namespace Point

variable {p : Point} {l : Line} {body t : Script} {items ys : List Value}

/-- The point with a sequence as its value. -/
def withItems (p : Point) (items : List Value) : Point := { p with value := .sequence items }

/-- At the point with a sequence as its value, a run passes the next statement and goes on with
another sequence, and nothing but properties has changed. -/
def Maps (p : Point) (t : Script) (items ys : List Value) : Prop :=
  ∃ m, (p.withItems items).Passes (p.behind t (.sequence ys) m) ∧ p.machine.Leaves m

theorem Loop.withItems (h : p.Loop l body t) (items : List Value) :
    (p.withItems items).Loop l body t := by
  obtain ⟨t₀, hnext, hblock⟩ := h
  exact ⟨t₀, ⟨hnext.line, hnext.parse⟩, hblock⟩

section Loop

variable (hbody : body.IsBlind) {b : Script} (hb : b.contents = body.contents) {own : Machine}
  (hown : own.Alike p.machine) (depth : Nat)
include hbody hb hown

/-- A loop over a blind body gives for each element what the body gives as a script of its own. -/
theorem verdict_loop (l : Line) (hitems : ∀ x ∈ items, x.isScalar || x.isMapping) :
    verdict (runLoop (·.at p.script l) (runWith (runOther p.depth) body) (.sequence items)
        p.machine).1 =
      (items.mapM fun x => verdict (runTo depth b x own).1).map Value.sequence := by
  have hgive (v : Value) (m : Machine) (hm : own.Alike m) :
      verdict (runWith (runOther p.depth) body v m).1 = verdict (runTo depth b v own).1 :=
    verdict_runWith p.depth depth body hbody b hb.symm v m own hm.symm
  rw [verdict_runLoop (fun _ => rfl) hown hgive fun _ _ _ _ => leaves_of_runWith hbody,
    rounds_of_items hitems]
  change Except.map Value.sequence (List.mapM _ (List.map _ items)) = _
  rw [List.mapM_map]
  rfl

variable (hloop : p.Loop l body t)
include hloop

theorem maps_of_forall₂ (hitems : ∀ x ∈ items, x.isScalar || x.isMapping)
    (h : List.Forall₂ (fun x y => (runTo depth b x own).1 = .ok y) items ys) : p.Maps t items ys := by
  have hmap : (items.mapM fun x => verdict (runTo depth b x own).1) = .ok ys :=
    mapM_of_forall₂ (h.imp fun _ _ => verdict_eq_ok.2)
  have hverdict := verdict_loop hbody hb hown depth l hitems
  rcases hrun : runLoop (·.at p.script l) (runWith (runOther p.depth) body) (.sequence items)
    p.machine with ⟨r, m⟩
  rw [hrun, hmap] at hverdict
  obtain rfl := verdict_eq_ok.1 hverdict
  exact ⟨m, .loop (hloop.withItems items) hrun, leaves_of_runLoop hbody hrun⟩

theorem fails_of_first {before after : List Value} {x : Value} {e : Failure}
    (hitems : ∀ y ∈ before ++ x :: after, y.isScalar || y.isMapping)
    (hbefore : ∀ y ∈ before, ∃ w, (runTo depth b y own).1 = .ok w) (hx : (runTo depth b x own).1 = .error e) :
    ∃ e' m, (p.withItems (before ++ x :: after)).outcome = (.error e', m) ∧ e'.fault = e.fault := by
  have hmap : ((before ++ x :: after).mapM fun x => verdict (runTo depth b x own).1) = .error e.fault :=
    mapM_of_first (f := fun x => verdict (runTo depth b x own).1) (verdict_eq_error.2 ⟨e, hx, rfl⟩)
      fun y hy => (hbefore y hy).imp fun _ => verdict_eq_ok.2
  have hverdict := verdict_loop hbody hb hown depth l hitems
  rcases hrun : runLoop (·.at p.script l) (runWith (runOther p.depth) body)
    (.sequence (before ++ x :: after)) p.machine with ⟨r, m⟩
  rw [hrun, hmap] at hverdict
  obtain ⟨e', rfl, hfault⟩ := verdict_eq_error.1 hverdict
  refine ⟨e', m, ?_, hfault⟩
  have hloop' := hloop.withItems (before ++ x :: after)
  rw [outcome_of_loop hloop']
  exact congrArg (andThen · (runWith (runOther p.depth) t)) hrun

/-- **A loop over a blind body is a map.**  If the body, run as a script of its own, ends well for
all elements of a sequence, then the loop over them ends well with the results in the same order and
changes nothing but properties; so if the elements are put in another order, the results are, too.
Otherwise the loop fails with the fault of the first element for which the body fails. -/
theorem maps_of_isBlind (hitems : ∀ x ∈ items, x.isScalar || x.isMapping) :
    (∀ ys, List.Forall₂ (fun x y => (runTo depth b x own).1 = .ok y) items ys →
      p.Maps t items ys ∧ ∀ pairs : List (Value × Value), pairs.Perm (items.zip ys) →
        p.Maps t (pairs.map (·.1)) (pairs.map (·.2))) ∧
      ∀ before x after e, items = before ++ x :: after →
        (∀ y ∈ before, ∃ w, (runTo depth b y own).1 = .ok w) → (runTo depth b x own).1 = .error e →
          ∃ e' m, (p.withItems items).outcome = (.error e', m) ∧ e'.fault = e.fault := by
  refine ⟨fun ys hys => ⟨maps_of_forall₂ hbody hb hown depth hloop hitems hys, fun pairs hperm => ?_⟩, ?_⟩
  · have hpairs (z : Value × Value) (hz : z ∈ pairs) :
        (z.1.isScalar || z.1.isMapping) ∧ (runTo depth b z.1 own).1 = .ok z.2 := by
      have hmem := hperm.mem_iff.1 hz
      exact ⟨hitems z.1 (List.of_mem_zip hmem).1, (List.forall₂_iff_zip.1 hys).2 hmem⟩
    refine maps_of_forall₂ hbody hb hown depth hloop (fun x hx => ?_) ?_
    · obtain ⟨z, hz, rfl⟩ := List.mem_map.1 hx
      exact (hpairs z hz).1
    · rw [List.forall₂_map_left_iff, List.forall₂_map_right_iff, List.forall₂_same]
      exact fun z hz => (hpairs z hz).2
  · rintro before x after e rfl hbefore hx
    exact fails_of_first hbody hb hown depth hloop hitems hbefore hx

end Loop

theorem isBlind_nested {s : Script}
    (h : s.contents = ["read a.*", "foreach", "insert b !other", "end"]) : s.IsBlind := by
  have hread : Statement.parse "read a.*" = .ok (.command "read" "a.*") := by decide +kernel
  have hopen : Statement.parse "foreach" = .ok .foreach := by decide +kernel
  have hinsert : Statement.parse "insert b !other" = .ok (.command "insert" "b !other") := by
    decide +kernel
  have hclose : Statement.parse "end" = .ok .close := by decide +kernel
  have hreadLine : Command.parse "read a.*" = .ok (.read ⟨"a.*", none⟩) := by decide +kernel
  have hinsertLine : Command.parse "insert b !other" = .ok (.insert ⟨"b", none⟩ "!other") := by
    decide +kernel
  intro text htext st hst
  rw [h] at htext
  simp only [List.mem_cons, List.not_mem_nil, or_false] at htext
  obtain rfl | rfl | rfl | rfl := htext
  · cases hread.symm.trans hst
    refine Statement.isBlind_of_name hread (by decide) rfl (by decide) fun path data h => ?_
    obtain h | h := h <;> cases hreadLine.symm.trans h
  · cases hopen.symm.trans hst
    exact .foreach
  · cases hinsert.symm.trans hst
    refine Statement.isBlind_of_name hinsert (by decide) rfl (by decide) fun path data h => ?_
    obtain h | h := h <;> cases hinsertLine.symm.trans h
    decide
  · cases hclose.symm.trans hst
    exact .close

theorem maps_of_isBlind_nested :
    let s := Script.parse "main" <|
      "foreach\n  read a.*\n  foreach\n    insert b !other\n  end\nend\nprint -"
    let b := Script.parse "own" "read a.*\nforeach\ninsert b !other\nend"
    let m : Machine :=
      { session := { memory := [(roundValue, .string "mine"), ("other", .boolean true)] } }
    let p := s.begin deepest .null m
    let within (v : Value) : Value := .mapping [("a", .mapping [("k", v)])]
    let given (es : Entries Value) : Value := .sequence [.mapping (es ++ [("b", .boolean true)])]
    ∃ l body t, p.Loop l body t ∧ body.IsBlind ∧ b.contents = body.contents ∧
      m.Alike p.machine ∧
      p.Maps t [within .null, within (.mapping [("c", .null)])] [given [], given [("c", .null)]] ∧
      p.Maps t [within (.mapping [("c", .null)]), within .null] [given [("c", .null)], given []] ∧
      ∃ e m', (p.withItems [within .null, within (.sequence [])]).outcome = (.error e, m') ∧
        e.fault = .loopShape "a sequence containing sequences" := by
  intro s b m p within given
  have hrest : s.rest = [⟨1, "foreach", "foreach"⟩, ⟨2, "  read a.*", "read a.*"⟩,
      ⟨3, "  foreach", "foreach"⟩, ⟨4, "    insert b !other", "insert b !other"⟩,
      ⟨5, "  end", "end"⟩, ⟨6, "end", "end"⟩, ⟨7, "print -", "print -"⟩] := by decide +kernel
  obtain ⟨t₀, hline, -, ht₀⟩ := Script.exists_next? hrest
  have hlength : blockLength? 0 t₀.rest = some 4 := by
    rw [ht₀]
    decide +kernel
  obtain ⟨body, t, hblock, -, -, hrestBody, -⟩ := Script.exists_takeBlock? hlength
  have hloop : p.Loop ⟨1, "foreach", "foreach"⟩ body t :=
    ⟨t₀, ⟨hline, by decide +kernel⟩, hblock⟩
  have hcontents : body.contents = ["read a.*", "foreach", "insert b !other", "end"] := by
    rw [Script.contents, hrestBody, ht₀]
    rfl
  have hbody : body.IsBlind := isBlind_nested hcontents
  have hb : b.contents = body.contents := by
    rw [hcontents]
    decide +kernel
  have hown : m.Alike p.machine := .refl m
  have hnull : (run b (within .null) m).1 = .ok (given []) := by decide +kernel
  have hmapping : (run b (within (.mapping [("c", .null)])) m).1 = .ok (given [("c", .null)]) := by
    decide +kernel
  have hsequence : (run b (within (.sequence [])) m).1 = .error
      ⟨"own", 2, "foreach", .loopShape "a sequence containing sequences"⟩ := by decide +kernel
  obtain ⟨hmaps, hpairs⟩ := (maps_of_isBlind hbody hb hown deepest hloop (by decide)).1 _
    (.cons hnull (.cons hmapping .nil))
  refine ⟨_, body, t, hloop, hbody, hb, hown, hmaps, hpairs [(_, _), (_, _)] (.swap _ _ _), ?_⟩
  exact (maps_of_isBlind hbody hb hown deepest hloop (by decide)).2 [within .null] _ [] _ rfl
    (fun y hy => ⟨_, List.mem_singleton.1 hy ▸ hnull⟩) hsequence

end Point

end YamlQuery.Batch

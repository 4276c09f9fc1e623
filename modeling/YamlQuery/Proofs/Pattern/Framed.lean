import YamlQuery.Proofs.Pattern.Moves

/-!
# Proofs.Pattern.Framed — reading a pattern inside a group

A text is read between `^(?:` and `)$` as it is read alone, one group deeper, as long as it closes
no group that it has not opened.  What the frame adds is one part around it, unless the text ends in
a comment: then the end of the frame belongs to the comment.
-/

namespace YamlQuery.Pattern

open YamlQuery.Text

variable {s v w : List Char} {ls : List Level}

namespace Reading

variable {r r' : Reading} {m : Move}

/-! ### Single moves -/

theorem rest_of_make? (h : m.make? w r = some r') : r'.rest = w := by
  cases m with
  | closes =>
    unfold Move.make? closeGroup? at h
    dsimp only at h
    split at h <;> cases h
    rfl
  | repeats least most =>
    unfold Move.make? repeatLast? at h
    dsimp only at h
    split at h
    · split at h <;> cases h
      rfl
    · cases h
  | _ => cases h; rfl

/-- A step takes at least one character. -/
theorem suffix_of_step? {c : Char} (hr : r.rest = c :: s) (h : r.step? = some r') :
    r'.rest <:+ s := by
  rw [step?_eq (by simp [hr]), hr] at h
  obtain ⟨⟨m, u⟩, hm, hmake⟩ := Option.bind_eq_some_iff.1 h
  have hagrees := move?_agrees (f := r.flags) r.names c s
  rw [hm] at hagrees
  obtain ⟨w, -, hl⟩ := hagrees
  rw [rest_of_make? hmake]
  exact hl.suffix

/-! ### To the end of the text -/

/-- Behind white space. -/
def passed (r : Reading) : Reading := { r with rest := passSpace r.flags r.rest }

/-- Reads to the end of the pattern, with fuel for all that is left. -/
def finish? (r : Reading) : Option Reading := run? (r.rest.length + 1) r

theorem run?_succ_eq (n : Nat) (r : Reading) : run? (n + 1) r =
    if r.passed.rest = [] then some r.passed else r.passed.step?.bind (run? n) := by
  rw [run?]
  dsimp only
  by_cases hr : r.passed.rest = []
  · rw [if_pos hr]
    exact if_pos (List.isEmpty_iff.2 hr)
  · have hempty : ¬ (passSpace r.flags r.rest).isEmpty = true := mt List.isEmpty_iff.1 hr
    rw [if_neg hr, if_neg hempty]
    split
    · next hs => rw [passed, hs, Option.bind_some]
    · next hs => rw [passed, hs, Option.bind_none]

theorem length_rest_lt (hr : r.passed.rest ≠ []) (h : r.passed.step? = some r') :
    r'.rest.length < r.rest.length := by
  obtain ⟨c, s, hs⟩ := List.exists_cons_of_ne_nil hr
  have hlt : r'.rest.length < r.passed.rest.length := by
    rw [hs]
    exact Nat.lt_succ_of_le (suffix_of_step? hs h).length_le
  exact hlt.trans_le (passSpace_suffix r.flags r.rest).length_le

theorem run?_eq_of_lt (n : Nat) : ∀ (m : Nat) (r : Reading), r.rest.length < n → r.rest.length < m →
    run? n r = run? m r := by
  induction n with
  | zero => intro m r hn; exact absurd hn (Nat.not_lt_zero _)
  | succ n ih =>
    intro m r hn hm
    obtain ⟨m, rfl⟩ := Nat.exists_eq_succ_of_ne_zero (Nat.ne_zero_of_lt hm)
    rw [run?_succ_eq, run?_succ_eq]
    split
    · rfl
    · next hne =>
      refine Option.bind_congr fun r' hr' => ?_
      have hlt := length_rest_lt hne hr'
      exact ih m r' (by omega) (by omega)

/-- The end of the pattern, or one more step. -/
theorem finish?_eq (r : Reading) : r.finish? =
    if r.passed.rest = [] then some r.passed else r.passed.step?.bind finish? := by
  rw [finish?, run?_succ_eq]
  split
  · rfl
  · next hne =>
    refine Option.bind_congr fun r' hr' => ?_
    exact run?_eq_of_lt _ _ r' (length_rest_lt hne hr') (Nat.lt_succ_self _)

theorem passed_eq (h : passSpace r.flags r.rest = r.rest) : r.passed = r := by
  rw [passed, h]

theorem finish?_nil (h : r.rest = []) : r.finish? = some r := by
  have hp : r.passed = r := passed_eq (by rw [h, passSpace_nil])
  rw [finish?_eq, hp, if_pos h]

/-- One step from a text that does not start with white space. -/
theorem finish?_of_step? (hr : r.rest ≠ []) (hp : passSpace r.flags r.rest = r.rest) :
    r.finish? = r.step?.bind finish? := by
  rw [finish?_eq, passed_eq hp, if_neg hr]

theorem finish?_dollar (h : r.rest = ['$']) :
    r.finish? = some (r.push (lookPart (endLook r.flags)) []) := by
  have hstep : r.step? = some (r.push (lookPart (endLook r.flags)) []) := by
    rw [step?_eq (by simp [h]), h]
    rfl
  rw [finish?_of_step? (by simp [h]) (by rw [h, passSpace_dollar]), hstep, Option.bind_some,
    finish?_nil rfl]

theorem finish?_brace {u : List Char} (h : r.rest = '\x7b' :: (u ++ frameEnd))
    (hu : passSpace r.flags u = []) : r.finish? = none := by
  have hstep : r.step? = none := by
    unfold step?
    rw [h]
    exact congrArg (Option.bind · _) (bounds?_space hu)
  rw [finish?_of_step? (by simp [h]) (by rw [h, passSpace_cons (by decide) (by decide)]), hstep,
    Option.bind_none]

/-! ### Groups around a reading -/

/-- The same reading with something else left and with groups around it. -/
def enclose (ls : List Level) (w : List Char) (r : Reading) : Reading :=
  { r with rest := w, outer := r.outer ++ ls }

/-- A move does the same with groups around, but for the end of a group that is not open. -/
theorem make?_enclose (h : m = .closes → r.outer ≠ []) :
    m.make? w (r.enclose ls v) = (m.make? s r).map (enclose ls w) := by
  cases m with
  | closes =>
    obtain ⟨l, outer, ho⟩ := List.exists_cons_of_ne_nil (h rfl)
    unfold Move.make? closeGroup? enclose
    dsimp only
    rw [ho]
    rfl
  | repeats least most =>
    unfold Move.make? repeatLast? enclose
    dsimp only
    rcases r.level.parts with _ | ⟨p, ps⟩
    · rfl
    · dsimp only
      split <;> rfl
  | _ => rfl

theorem markedMove?_ne_closes {f : Flags} {names : List (List Char)} :
    markedMove? f names s ≠ some (.closes, w) := by
  intro h
  unfold markedMove? at h
  split at h
  case h_5 =>
    obtain ⟨x, -, hx⟩ := Option.map_eq_some_iff.1 h
    cases hx
  case h_6 =>
    obtain ⟨x, -, hx⟩ := Option.map_eq_some_iff.1 h
    cases hx
  case h_7 =>
    obtain ⟨⟨⟨g, opens⟩, u⟩, -, hx⟩ := Option.map_eq_some_iff.1 h
    cases opens <;> cases hx
  all_goals cases h

theorem eq_of_move?_closes {f : Flags} {names : List (List Char)} {c : Char}
    (h : move? f names (c :: s) = some (.closes, w)) : c = ')' := by
  unfold move? at h
  split at h
  case h_2 =>
    unfold groupMove? at h
    split at h
    · exact absurd h markedMove?_ne_closes
    · cases h
  case h_3 hs => exact (List.cons.inj hs).1
  case h_10 =>
    obtain ⟨x, -, hx⟩ := Option.bind_eq_some_iff.1 h
    obtain ⟨p, -, hp⟩ := Option.map_eq_some_iff.1 hx
    cases hp
  case h_5 =>
    obtain ⟨x, -, hx⟩ := Option.map_eq_some_iff.1 h
    cases hx
  case h_9 =>
    obtain ⟨x, -, hx⟩ := Option.map_eq_some_iff.1 h
    cases hx
  case h_11 =>
    obtain ⟨x, -, hx⟩ := Option.map_eq_some_iff.1 h
    cases hx
  all_goals cases h

/-- A reading comes to a parenthesis that closes a group which is not open. -/
inductive Strays : Reading → Prop
  | here {r : Reading} {s : List Char} (hr : r.passed.rest = ')' :: s) (ho : r.outer = []) :
      Strays r
  | later {r r' : Reading} (hr : r.passed.rest ≠ []) (h : r.passed.step? = some r')
      (hs : Strays r') : Strays r

/-- Behind a doomed move no group is closed before the end. -/
theorem outer_of_doomed {r₂ : Reading} (hd : Doomed r.flags m w) (h : m.make? w r = some r')
    (hf : r'.finish? = some r₂) : r₂.outer = r.outer := by
  have houter : r'.outer = r.outer := by
    rcases hd.keeps with ⟨g, rfl⟩ | ⟨p, rfl⟩ <;> cases h <;> rfl
  have hrest := rest_of_make? h
  rcases hd.rest with rfl | ⟨⟨p, rfl⟩, u, rfl, hu⟩
  · rw [finish?_dollar hrest] at hf
    cases hf
    exact houter
  · cases h
    rw [finish?_brace hrest hu] at hf
    cases hf

/-- A step does the same with a frame behind the text and groups around it.  If there is no step
alone, then it is the frame that closes a group, or there is no way to the end of all groups. -/
theorem step?_enclose {c : Char} (hr : r.rest = c :: s) :
    (∃ r' v, r.step? = some r' ∧ Left s r'.rest v ∧
      ∀ ls, (r.enclose ls (c :: s ++ frameEnd)).step? = some (r'.enclose ls v)) ∨
    r.step? = none ∧ ((c = ')' ∧ r.outer = []) ∨ ∀ ls r' r₂,
      (r.enclose ls (c :: s ++ frameEnd)).step? = some r' → r'.finish? = some r₂ →
        r₂.outer = r.outer ++ ls) := by
  have hstep : r.step? = (move? r.flags r.names (c :: s)).bind fun x => x.1.make? x.2 r := by
    rw [step?_eq (by simp [hr]), hr]
  have hstep' (ls : List Level) : (r.enclose ls (c :: s ++ frameEnd)).step? =
      (move? r.flags r.names (c :: s ++ frameEnd)).bind
        fun x => x.1.make? x.2 (r.enclose ls (c :: s ++ frameEnd)) := step?_eq (by simp [enclose])
  have hagrees := move?_agrees (f := r.flags) r.names c s
  rcases hm : move? r.flags r.names (c :: s) with _ | ⟨m, u⟩
  · rw [hm] at hagrees hstep
    refine .inr ⟨hstep, .inr fun ls r' r₂ h hfin => ?_⟩
    rw [hstep'] at h
    obtain ⟨⟨m, u⟩, hmove, hmake⟩ := Option.bind_eq_some_iff.1 h
    exact outer_of_doomed (r := r.enclose ls (c :: s ++ frameEnd)) (hagrees m u hmove) hmake hfin
  · rw [hm] at hagrees hstep
    obtain ⟨v, hv, hleft⟩ := hagrees
    rw [Option.bind_some] at hstep
    simp only [hv, Option.bind_some] at hstep'
    by_cases hstray : m = .closes ∧ r.outer = []
    · obtain ⟨rfl, ho⟩ := hstray
      have hnone : r.step? = none := by
        rw [hstep, Move.make?, closeGroup?, ho]
      exact .inr ⟨hnone, .inl ⟨eq_of_move?_closes hm, ho⟩⟩
    · have hmake (ls : List Level) : m.make? v (r.enclose ls (c :: s ++ frameEnd)) =
          (m.make? u r).map (enclose ls v) := make?_enclose fun hm ho => hstray ⟨hm, ho⟩
      simp only [hmake] at hstep'
      rcases hr' : m.make? u r with _ | r'
      · rw [hr'] at hstep
        refine .inr ⟨hstep, .inr fun ls r' r₂ h => ?_⟩
        rw [hstep', hr'] at h
        cases h
      · rw [hr'] at hstep
        rw [← rest_of_make? hr'] at hleft
        exact .inl ⟨r', v, hstep, hleft, fun ls => by rw [hstep', hr', Option.map_some]⟩

/-- **A text is read in the same way with a frame behind it and groups around it**, up to its end
and what is left of the frame there.  A text that cannot be read alone can neither be read there,
or some group stays open. -/
theorem finish?_enclose (n : Nat) : ∀ (r : Reading) (s w : List Char), r.rest.length < n →
    Left s r.rest w →
      (∀ r₁, r.finish? = some r₁ → ∃ v, (v = frameEnd ∨ v = []) ∧
        ∀ ls, (r.enclose ls w).finish? = (r₁.enclose ls v).finish?) ∧
      (r.finish? = none → ¬ r.Strays → ∀ ls r₂, (r.enclose ls w).finish? = some r₂ →
        ls <:+ r₂.outer) := by
  induction n with
  | zero => intro r s w hn; exact absurd hn (Nat.not_lt_zero _)
  | succ n ih =>
    intro r s w hn hl
    have hp (ls : List Level) :
        (r.enclose ls w).passed = r.passed.enclose ls (passSpace r.flags w) := rfl
    have hl : Left s r.passed.rest (passSpace r.flags w) := hl.passSpace r.flags
    rcases hr : r.passed.rest with _ | ⟨c, t⟩
    · -- The end of the text: what is left of the frame is read behind it.
      rw [hr] at hl
      rw [finish?_eq, if_pos hr]
      refine ⟨fun r₁ h => ?_, fun h => by cases h⟩
      cases h
      refine ⟨passSpace r.flags w, hl.of_nil, fun ls => ?_⟩
      have hspace : passSpace r.flags (passSpace r.flags w) = passSpace r.flags w := by
        rcases hl.of_nil with hv | hv
        · rw [hv, passSpace_frameEnd]
        · rw [hv, passSpace_nil]
      rw [finish?_eq, finish?_eq, hp,
        passed_eq (r := r.passed.enclose ls (passSpace r.flags w)) hspace]
    · have hw : passSpace r.flags w = c :: t ++ frameEnd := by
        obtain ⟨-, hw | ⟨hnil, -⟩⟩ := hl
        · rw [hw, hr]
        · exact absurd (hr.symm.trans hnil) (List.cons_ne_nil c t)
      have hfinish : r.finish? = r.passed.step?.bind finish? := by
        rw [finish?_eq, if_neg (by simp [hr])]
      have hfinish' (ls : List Level) : (r.enclose ls w).finish? =
          (r.passed.enclose ls (c :: t ++ frameEnd)).step?.bind finish? := by
        rw [finish?_eq, hp, hw, if_neg (by simp [enclose])]
      rcases step?_enclose hr with ⟨r', v, hstep, hleft, hstep'⟩ | ⟨hnone, hstray | hopen⟩
      · have hlt : r'.rest.length < n := by
          have h := length_rest_lt (by simp [hr]) hstep
          omega
        simp only [hstep', Option.bind_some] at hfinish'
        rw [hstep, Option.bind_some] at hfinish
        simp only [hfinish, hfinish']
        obtain ⟨hsome, hnone⟩ := ih r' t v hlt hleft
        exact ⟨hsome, fun h hs => hnone h fun h => hs (.later (by simp [hr]) hstep h)⟩
      · rw [hfinish, hnone]
        obtain ⟨rfl, ho⟩ := hstray
        exact ⟨fun r₁ h => (by cases h), fun _ hs => absurd (.here hr ho) hs⟩
      · rw [hfinish, hnone]
        refine ⟨fun r₁ h => (by cases h), fun _ _ ls r₂ h => ?_⟩
        rw [hfinish'] at h
        obtain ⟨r', hr', hfin⟩ := Option.bind_eq_some_iff.1 h
        rw [hopen ls r' r₂ hr' hfin]
        exact List.suffix_append _ _

/-! ### Flags behind a text -/

/-- The flags behind the open groups, those behind the whole text last. -/
def flagsBehind (r : Reading) : List Flags := r.level.flags :: r.outer.map (·.flags)

theorem flagsBehind_make? (h : m.make? w r = some r') :
    r'.flagsBehind.getLast? = r.flagsBehind.getLast? := by
  cases m with
  | closes =>
    unfold Move.make? closeGroup? at h
    dsimp only at h
    split at h
    · cases h
    · next l os ho =>
      cases h
      unfold flagsBehind
      rw [ho, List.map_cons, List.getLast?_cons_cons]
  | repeats least most =>
    unfold Move.make? repeatLast? at h
    dsimp only at h
    split at h
    · split at h <;> cases h
      rfl
    · cases h
  | _ => cases h; rfl

theorem flagsBehind_finish? (n : Nat) : ∀ r : Reading, r.rest.length < n → r.finish? = some r' →
    r'.flagsBehind.getLast? = r.flagsBehind.getLast? := by
  induction n with
  | zero => intro r hn; exact absurd hn (Nat.not_lt_zero _)
  | succ n ih =>
    intro r hn h
    rw [finish?_eq] at h
    split at h
    · cases h
      rfl
    · next hne =>
      obtain ⟨r₁, hstep, hfin⟩ := Option.bind_eq_some_iff.1 h
      have hlt := length_rest_lt hne hstep
      rw [ih r₁ (by omega) hfin]
      rw [step?_eq hne] at hstep
      obtain ⟨x, -, hmake⟩ := Option.bind_eq_some_iff.1 hstep
      exact flagsBehind_make? hmake

/-- The end of a frame closes a group and asks for the end of the text. -/
theorem finish?_frameEnd (h : r.rest = frameEnd) : r.finish? =
    (r.closeGroup? ['$']).map fun r => r.push (lookPart (endLook r.flags)) [] := by
  have hstep : r.step? = r.closeGroup? ['$'] := by
    unfold step?
    rw [h]
    rfl
  rw [finish?_of_step? (by simp [h, frameEnd]) (by rw [h, passSpace_frameEnd]), hstep]
  rcases hc : r.closeGroup? ['$'] with _ | r'
  · rfl
  · exact finish?_dollar (rest_of_make? (m := .closes) hc)

end Reading

/-! ### Texts in a frame -/

variable {sets : NamedSets}

/-- The whole of a pattern as a part, however deep it nests and however large it is. -/
def whole? (sets : NamedSets) (text : List Char) : Option Part :=
  (Reading.start sets text).finish?.bind fun r =>
    if r.outer = [] then some r.level.close else none

theorem finish?_start (sets : NamedSets) (text : List Char) :
    (Reading.start sets text).finish? = Reading.run? (text.length + 1) (.start sets text) := rfl

theorem read?_eq (engine : Engine) (text : List Char) :
    read? text engine = (whole? engine.sets text).bind fun p =>
      if p.depth ≤ depthLimit ∧ engine.fits text p then some p.re else none := by
  unfold read? whole?
  rw [finish?_start]
  rcases Reading.run? (text.length + 1) (.start engine.sets text) with _ | r
  · rfl
  · by_cases h : r.outer = []
    · simp [h]
    · simp [h]

/-- The level around a text in its frame. -/
def frameLevel (sets : NamedSets) : Level := ⟨{ sets }, [], [Reading.lookPart .textStart]⟩

theorem finish?_framed (sets : NamedSets) (text : List Char) :
    (Reading.start sets ('^' :: '(' :: '?' :: ':' :: (text ++ frameEnd))).finish? =
      ((Reading.start sets text).enclose [frameLevel sets] (text ++ frameEnd)).finish? := by
  let opened : Reading := { Reading.start sets ('(' :: '?' :: ':' :: (text ++ frameEnd)) with
    level := frameLevel sets }
  have hstart : (Reading.start sets ('^' :: '(' :: '?' :: ':' :: (text ++ frameEnd))).step? =
      some opened := rfl
  have hopen : opened.step? =
      some ((Reading.start sets text).enclose [frameLevel sets] (text ++ frameEnd)) := rfl
  rw [Reading.finish?_of_step? (by simp [Reading.start]) rfl, hstart, Option.bind_some,
    Reading.finish?_of_step? (by simp [opened, Reading.start]) rfl, hopen, Option.bind_some]

/-- A text in its frame as a part. -/
def framed (p : Part) : Part where
  re := .cat (.look .textStart) (.cat p.re (.cat (.look .textEnd) .empty))
  depth := p.depth + 2
  room := p.room + 160

theorem close_framed (sets : NamedSets) (p : Part) :
    Level.close ⟨{ sets }, [], [Reading.lookPart .textEnd,
      { p with depth := p.depth + 1, room := p.room + 2 * stateRoom, repeatable := true },
      Reading.lookPart .textStart]⟩ = framed p := by
  have hdepth : max (max (max 0 0) (p.depth + 1)) 0 + 1 = p.depth + 2 := by omega
  have hroom : 32 + 32 + (p.room + 2 * 32) + 32 = p.room + 160 := by omega
  unfold framed
  rw [← hdepth, ← hroom]
  rfl

/-- Where no group of the text is open, the end of the frame closes its own one. -/
theorem finish?_closed {r : Reading} (ho : r.outer = []) (hf : r.level.flags = { sets }) :
    ∃ r₂, (r.enclose [frameLevel sets] frameEnd).finish? = some r₂ ∧ r₂.outer = [] ∧
      r₂.level.close = framed r.level.close := by
  rw [Reading.finish?_frameEnd rfl, Reading.closeGroup?, Reading.enclose, ho]
  refine ⟨_, rfl, rfl, ?_⟩
  rw [← close_framed sets]
  simp only [Reading.push, hf]
  rfl

/-- What is made of the whole text at its end. -/
theorem whole?_of_finish? {text : List Char} {r : Reading}
    (h : (Reading.start sets text).finish? = some r) :
    whole? sets text = if r.outer = [] then some r.level.close else none := by
  rw [whole?, h, Option.bind_some]

/-- **The frame adds one part around a text**, if the text closes no group that it has not opened
and does not end in a comment. -/
theorem whole?_framed {text : List Char} (hs : ¬ (Reading.start sets text).Strays) :
    whole? sets ('^' :: '(' :: '?' :: ':' :: (text ++ frameEnd)) =
      if (whole? sets (text ++ frameEnd)).isSome then none else (whole? sets text).map framed := by
  obtain ⟨hsome, hnone⟩ := Reading.finish?_enclose (text.length + 1) (.start sets text) text
    (text ++ frameEnd) (Nat.lt_succ_self _) (.refl text)
  rw [whole?, finish?_framed]
  rcases hr : (Reading.start sets text).finish? with _ | r
  · have hown : whole? sets text = none := by rw [whole?, hr, Option.bind_none]
    rw [hown, Option.map_none, ite_self]
    refine Option.bind_eq_none_iff.2 fun r₂ h => if_neg fun ho => ?_
    have hsuffix := hnone hr hs [frameLevel sets] r₂ h
    rw [ho] at hsuffix
    exact absurd (List.suffix_nil.1 hsuffix) (List.cons_ne_nil _ _)
  · obtain ⟨v, hv, hfin⟩ := hsome r hr
    have hbare : (Reading.start sets (text ++ frameEnd)).finish? = (r.enclose [] v).finish? :=
      hfin []
    rw [whole?_of_finish? hr, hfin]
    rcases ho : r.outer with _ | ⟨l, os⟩
    · rcases hv with rfl | rfl
      · -- The frame closes its own group.
        have hflags : r.level.flags = { sets } := by
          have hlast := Reading.flagsBehind_finish? (text.length + 1) (.start sets text)
            (Nat.lt_succ_self _) hr
          simpa [Reading.flagsBehind, Reading.start, ho] using hlast
        have hclosed : (r.enclose [] frameEnd).finish? = none := by
          rw [Reading.finish?_frameEnd rfl, Reading.closeGroup?, Reading.enclose, ho]
          rfl
        obtain ⟨r₂, hr₂, ho₂, hclose⟩ := finish?_closed ho hflags
        rw [whole?, hbare, hclosed, hr₂, Option.bind_some, if_pos ho₂, hclose]
        rfl
      · have hopen : (r.enclose [] []).outer = [] := by rw [Reading.enclose, ho, List.append_nil]
        rw [whole?_of_finish? (hbare.trans (Reading.finish?_nil rfl)), if_pos hopen,
          Reading.finish?_nil rfl, Option.bind_some, if_neg (by simp [Reading.enclose])]
        rfl
    · have hnone : (if (whole? sets (text ++ frameEnd)).isSome then none
          else (if l :: os = [] then some r.level.close else none).map framed) = none := by
        simp
      rw [hnone]
      rcases hv with rfl | rfl
      · rw [Reading.finish?_frameEnd rfl, Reading.closeGroup?, Reading.enclose, ho]
        exact if_neg (by simp [Reading.push])
      · rw [Reading.finish?_nil rfl, Option.bind_some, if_neg (by simp [Reading.enclose])]

end YamlQuery.Pattern

import YamlQuery.Proofs.Pattern.Framed
import YamlQuery.Proofs.Pattern.Plain

/-!
# Proofs.Pattern.Segments — segments as patterns of their own

A segment is read inside a frame that asks for the whole key.  The frame leaves a segment what it is
by itself if the segment is self-contained: it closes no group that it has not opened, its last
comment ends in it, and the engine finds the segment no smaller or larger for the frame.

Which names of sets are valid, and which patterns are small enough, is up to the engine; all that is
said here holds for each.
-/

namespace YamlQuery

namespace Pattern.Reading

/-- A text that strays cannot be read. -/
theorem Strays.finish? {r : Reading} (h : r.Strays) : r.finish? = none := by
  induction h with
  | @here r s hr ho =>
    have hclose : r.passed.closeGroup? s = none := by
      rw [closeGroup?, passed, ho]
    have hstep : r.passed.step? = none := by
      rw [step?_eq (by simp [hr]), hr]
      exact hclose
    rw [finish?_eq, if_neg (by simp [hr]), hstep, Option.bind_none]
  | later hr hstep _ ih => rw [finish?_eq, if_neg hr, hstep, Option.bind_some, ih]

end Pattern.Reading

namespace Segment

open Pattern

/-- The pattern that a segment writes. -/
def body (raw : List Char) : List Char := if raw = ['*'] then ['.', '*'] else raw

/-- The expression that a segment writes by itself. -/
def own? (engine : Engine) (raw : List Char) : Option Re := read? (body raw) engine

/-- The segment as a part, however deep it nests and however large it is. -/
def part? (engine : Engine) (raw : List Char) : Option Part := whole? engine.sets (body raw)

/-- The segment closes a group that it has not opened. -/
def Strays (engine : Engine) (raw : List Char) : Prop :=
  (Reading.start engine.sets (body raw)).Strays

/-- A segment to which a frame adds only itself: the segment closes no group around it, the frame
does not get into a comment, there is room for the frame, and without the frame no more room is
taken. -/
structure SelfContained (engine : Engine) (raw : List Char) : Prop where
  closes : ¬ Strays engine raw
  ends : (own? engine raw).isSome → whole? engine.sets (body raw ++ frameEnd) = none
  fits : (own? engine raw).isSome → ∃ p, part? engine raw = some p ∧ p.depth + 2 ≤ depthLimit ∧
    engine.fits (patternText raw) (framed p)
  frees : ∀ p, part? engine raw = some p → engine.fits (patternText raw) (framed p) →
    engine.fits (body raw) p

theorem patternText_eq (raw : List Char) :
    patternText raw = '^' :: '(' :: '?' :: ':' :: (body raw ++ frameEnd) := by
  unfold patternText body
  split <;> rfl

variable {engine : Engine} {raw : List Char} {s : Segment}

theorem part?_eq_none_of_strays (h : Strays engine raw) : part? engine raw = none := by
  rw [part?, whole?, Reading.Strays.finish? h]
  rfl

theorem own?_eq_none_of_strays (h : Strays engine raw) : own? engine raw = none := by
  rw [own?, read?_eq, ← part?, part?_eq_none_of_strays h]
  rfl

theorem own?_eq_some {re : Re} : own? engine raw = some re ↔
    ∃ p, part? engine raw = some p ∧ p.depth ≤ depthLimit ∧ engine.fits (body raw) p ∧
      p.re = re := by
  rw [own?, read?_eq, Option.bind_eq_some_iff]
  simp only [part?, Option.ite_none_right_eq_some, Option.some_inj, and_assoc]

theorem ofText?_eq_some (h : ¬ Strays engine raw) : ofText? raw engine = some s ↔
    whole? engine.sets (body raw ++ frameEnd) = none ∧ ∃ p, part? engine raw = some p ∧
      p.depth + 2 ≤ depthLimit ∧ engine.fits (patternText raw) (framed p) ∧
        ⟨String.ofList raw, (framed p).re⟩ = s := by
  rw [ofText?, read?_eq, patternText_eq, whole?_framed h, part?]
  rcases whole? engine.sets (body raw ++ frameEnd) with _ | q
  · rcases whole? engine.sets (body raw) with _ | p
    · simp
    · simp [framed, and_assoc]
  · simp

/-- A segment that is read matches the keys that its expression matches from start to end. -/
theorem isMatch_iff_part {p : Part} (h : ofText? raw engine = some s)
    (hp : part? engine raw = some p) (key : String) :
    s.isMatch key ↔ p.re.Spans key.toList 0 key.toList.length := by
  have hs : ¬ Strays engine raw := fun hs => by
    rw [part?_eq_none_of_strays hs] at hp
    cases hp
  obtain ⟨-, q, hq, -, -, rfl⟩ := (ofText?_eq_some hs).1 h
  obtain rfl : p = q := Option.some_inj.1 (hp.symm.trans hq)
  exact Pattern.isMatch_whole_iff

/-- A segment that is read and does not stray is self-contained and a pattern by itself, unless it
takes more room without the frame than with it. -/
theorem own?_of_ofText? (h : ¬ Strays engine raw) (hs : ofText? raw engine = some s) :
    ∃ p, part? engine raw = some p ∧
      (own? engine raw = some p.re ∧ SelfContained engine raw ∨ own? engine raw = none ∧
        engine.fits (patternText raw) (framed p) ∧ ¬ engine.fits (body raw) p) := by
  obtain ⟨hend, p, hp, hdepth, hfits, rfl⟩ := (ofText?_eq_some h).1 hs
  refine ⟨p, hp, ?_⟩
  by_cases hbare : engine.fits (body raw) p
  · refine .inl ⟨own?_eq_some.2 ⟨p, hp, by omega, hbare, rfl⟩, h, fun _ => hend,
      fun _ => ⟨p, hp, hdepth, hfits⟩, fun q hq _ => ?_⟩
    rwa [← Option.some_inj.1 (hp.symm.trans hq)]
  · refine .inr ⟨?_, hfits, hbare⟩
    rw [Option.eq_none_iff_forall_ne_some]
    intro re hre
    obtain ⟨q, hq, -, hfits', -⟩ := own?_eq_some.1 hre
    rw [Option.some_inj.1 (hp.symm.trans hq)] at hbare
    exact hbare hfits'

/-- A self-contained segment is read exactly if it can be read by itself. -/
theorem SelfContained.isSome_ofText?_iff (h : SelfContained engine raw) :
    (ofText? raw engine).isSome ↔ (own? engine raw).isSome := by
  constructor
  · intro hs
    obtain ⟨s, hs⟩ := Option.isSome_iff_exists.1 hs
    obtain ⟨p, hp, ⟨hown, -⟩ | ⟨-, hfits, hbare⟩⟩ := own?_of_ofText? h.closes hs
    · rw [hown]
      rfl
    · exact absurd (h.frees p hp hfits) hbare
  · intro hown
    obtain ⟨p, hp, hdepth, hfits⟩ := h.fits hown
    exact Option.isSome_iff_exists.2
      ⟨_, (ofText?_eq_some h.closes).2 ⟨h.ends hown, p, hp, hdepth, hfits, rfl⟩⟩

/-- The frame gets into a comment at the end. -/
example : (own? .standard "(?x)a #".toList).isSome ∧ (ofText? "(?x)a #".toList).isNone := by
  decide +kernel

/-- What makes a pattern self-contained, by evaluation. -/
theorem selfContained_of_own (hown : (own? engine raw).isSome)
    (hends : (whole? engine.sets (body raw ++ frameEnd)).isNone)
    (hfits : (part? engine raw).any fun p =>
      p.depth + 2 ≤ depthLimit && engine.fits (patternText raw) (framed p)) :
    SelfContained engine raw where
  closes h := by
    rw [own?_eq_none_of_strays h] at hown
    cases hown
  ends _ := Option.isNone_iff_eq_none.1 hends
  fits _ := by
    obtain ⟨p, hp, hroom⟩ := (Option.any_eq_true _ _).1 hfits
    rw [Bool.and_eq_true, decide_eq_true_eq] at hroom
    exact ⟨p, hp, hroom⟩
  frees p hp _ := by
    obtain ⟨re, hre⟩ := Option.isSome_iff_exists.1 hown
    obtain ⟨q, hq, -, hfits', -⟩ := own?_eq_some.1 hre
    rwa [Option.some_inj.1 (hp.symm.trans hq)]

end Segment

namespace KeyPath

open Segment

section Segments

variable {engine : Pattern.Engine}

theorem raw_of_segmentsFrom : ∀ {raws : List (List Char)} {n : Nat} {ss : List Segment},
    segmentsFrom engine n raws = .ok ss → ss.map (·.raw.toList) = raws
  | [], n, ss, h => by
    cases h
    rfl
  | raw :: raws, n, ss, h => by
    rw [segmentsFrom] at h
    split at h
    case h_2 => cases h
    case h_1 s hs =>
      split at h
      case h_2 => cases h
      case h_1 ss' hss =>
        cases h
        rw [List.map_cons, (raw_of_ofText? hs).1, raw_of_segmentsFrom hss]

theorem segmentsFrom_eq_error {raw : List Char} (post : List (List Char))
    (hraw : ofText? raw engine = none) : ∀ (pre : List (List Char)) (n : Nat),
      (∀ r ∈ pre, (ofText? r engine).isSome) → segmentsFrom engine n (pre ++ raw :: post) =
        .error (.invalidSegment (String.ofList raw) (n + pre.length))
  | [], n, _ => by
    rw [List.nil_append, segmentsFrom, hraw]
    rfl
  | r :: pre, n, hpre => by
    obtain ⟨s, hs⟩ := Option.isSome_iff_exists.1 (hpre r List.mem_cons_self)
    have ih := segmentsFrom_eq_error post hraw pre (n + 1)
      fun r hr => hpre r (List.mem_cons_of_mem _ hr)
    rw [List.cons_append, segmentsFrom, hs]
    dsimp only
    rw [ih, List.length_cons, Nat.add_right_comm, Nat.add_assoc]

theorem exists_segmentsFrom : ∀ (raws : List (List Char)) (n : Nat),
    (∀ r ∈ raws, (ofText? r engine).isSome) → ∃ ss, segmentsFrom engine n raws = .ok ss
  | [], n, _ => ⟨[], rfl⟩
  | r :: raws, n, h => by
    obtain ⟨s, hs⟩ := Option.isSome_iff_exists.1 (h r List.mem_cons_self)
    obtain ⟨ss, hss⟩ := exists_segmentsFrom raws (n + 1) fun r hr => h r (List.mem_cons_of_mem _ hr)
    refine ⟨s :: ss, ?_⟩
    rw [segmentsFrom, hs]
    dsimp only
    rw [hss]

end Segments

variable {text delimiter : String} {engine : Pattern.Engine} {path : KeyPath}

/-- The texts of the segments of a path. -/
def pieces (text delimiter : String) : List (List Char) :=
  Text.splitOn delimiter.toList (Text.trim text.toList)

theorem parse_eq (hd : delimiter ≠ "") (ht : Text.trim text.toList ≠ []) :
    parse text delimiter engine = (segmentsFrom engine 0 (pieces text delimiter)).map fun segments =>
      { text := String.ofList (Text.trim text.toList), delimiter, segments } := by
  unfold parse pieces
  dsimp only
  rw [if_neg (by simpa using hd), if_neg (by simpa using ht)]
  cases segmentsFrom engine 0 (Text.splitOn delimiter.toList (Text.trim text.toList)) <;> rfl

theorem raw_of_parse (hd : delimiter ≠ "") (ht : Text.trim text.toList ≠ [])
    (h : parse text delimiter engine = .ok path) :
    path.segments.map (·.raw.toList) = pieces text delimiter := by
  rw [parse_eq hd ht] at h
  rcases hss : segmentsFrom engine 0 (pieces text delimiter) with e | ss
  · rw [hss] at h
    cases h
  · rw [hss] at h
    cases h
    exact raw_of_segmentsFrom hss

/-- The first segment that cannot be read is what is wrong with a path. -/
theorem parse_eq_error (hd : delimiter ≠ "") (ht : Text.trim text.toList ≠ [])
    {pre post : List (List Char)} {raw : List Char}
    (hp : pieces text delimiter = pre ++ raw :: post) (hpre : ∀ r ∈ pre, (ofText? r engine).isSome)
    (hraw : ofText? raw engine = none) :
    parse text delimiter engine = .error (.invalidSegment (String.ofList raw) pre.length) := by
  rw [parse_eq hd ht, hp, segmentsFrom_eq_error post hraw pre 0 hpre, Nat.zero_add]
  rfl

theorem exists_parse_eq_ok (hd : delimiter ≠ "") (ht : Text.trim text.toList ≠ [])
    (h : ∀ r ∈ pieces text delimiter, (ofText? r engine).isSome) :
    ∃ path, parse text delimiter engine = .ok path := by
  obtain ⟨ss, hss⟩ := exists_segmentsFrom _ 0 h
  exact ⟨_, by rw [parse_eq hd ht, hss]; rfl⟩

end KeyPath

end YamlQuery

import Mathlib.Data.List.Infix
import YamlQuery.Batch.Script

/-!
# Proofs.Batch.Blocks — the bodies of loops in a script

The first words of lines are brackets: `foreach` opens a loop and `end` closes one.  The body of a
loop that has just been opened ends before the first line that closes more loops than have been
opened behind the loop's own line (`blockLength?_eq_some`); so it is balanced.

A script that is gone through by `next?`, `rewound` and `takeBlock?` stays a window over its lines
with the position in it (`Script.Reached.bounds`), and taking a block off neither loses nor repeats
a line (`Script.takeBlock?_of_reached`).
-/

namespace YamlQuery.Batch

/-! ### Brackets -/

def openings (ls : List Line) : Nat := ls.countP (·.keyword = Statement.openWord)

def closings (ls : List Line) : Nat := ls.countP (·.keyword = Statement.closeWord)

/-- Behind `depth` open loops, none of these lines closes a loop that is not open. -/
def Within (depth : Nat) (ls : List Line) : Prop :=
  ∀ ks, ks <+: ls → closings ks ≤ openings ks + depth

/-- Each line that opens a loop has one that closes it. -/
structure Balanced (ls : List Line) : Prop where
  settled : closings ls = openings ls
  within : Within 0 ls

section Brackets

variable {l : Line} {ls : List Line} {depth : Nat}

theorem openings_cons_of_open (h : l.keyword = Statement.openWord) :
    openings (l :: ls) = openings ls + 1 ∧ closings (l :: ls) = closings ls :=
  ⟨List.countP_cons_of_pos (by simpa using h), List.countP_cons_of_neg (by rw [h]; decide)⟩

theorem openings_cons_of_close (h : l.keyword = Statement.closeWord) :
    openings (l :: ls) = openings ls ∧ closings (l :: ls) = closings ls + 1 :=
  ⟨List.countP_cons_of_neg (by rw [h]; decide), List.countP_cons_of_pos (by simpa using h)⟩

theorem openings_cons_of_other (ho : l.keyword ≠ Statement.openWord)
    (hc : l.keyword ≠ Statement.closeWord) :
    openings (l :: ls) = openings ls ∧ closings (l :: ls) = closings ls :=
  ⟨List.countP_cons_of_neg (by simpa using ho), List.countP_cons_of_neg (by simpa using hc)⟩

theorem openings_append (ks ls : List Line) : openings (ks ++ ls) = openings ks + openings ls :=
  List.countP_append

theorem closings_append (ks ls : List Line) : closings (ks ++ ls) = closings ks + closings ls :=
  List.countP_append

theorem within_nil (depth : Nat) : Within depth [] := by
  intro ks hks
  rw [List.prefix_nil.1 hks]
  exact Nat.zero_le _

/-- The prefixes of a list with a line in front: nothing, or that line before a prefix. -/
theorem within_cons : Within depth (l :: ls) ↔
    ∀ ks, ks <+: ls → closings (l :: ks) ≤ openings (l :: ks) + depth := by
  constructor
  · exact fun h ks hks => h _ (List.cons_prefix_cons.2 ⟨rfl, hks⟩)
  · intro h ks hks
    obtain rfl | ⟨ms, rfl, hms⟩ := List.prefix_cons_iff.1 hks
    · exact Nat.zero_le _
    · exact h ms hms

theorem within_cons_of_open (h : l.keyword = Statement.openWord) :
    Within depth (l :: ls) ↔ Within (depth + 1) ls := by
  rw [within_cons]
  refine forall₂_congr fun ks _ => ?_
  rw [(openings_cons_of_open h).1, (openings_cons_of_open h).2, Nat.add_right_comm, Nat.add_assoc]

theorem within_cons_of_close (h : l.keyword = Statement.closeWord) :
    Within (depth + 1) (l :: ls) ↔ Within depth ls := by
  rw [within_cons]
  refine forall₂_congr fun ks _ => ?_
  rw [(openings_cons_of_close h).1, (openings_cons_of_close h).2, ← Nat.add_assoc,
    Nat.add_le_add_iff_right]

theorem not_within_cons_of_close (h : l.keyword = Statement.closeWord) :
    ¬ Within 0 (l :: ls) := by
  intro hw
  have hle := hw [l] (List.cons_prefix_cons.2 ⟨rfl, List.nil_prefix⟩)
  rw [(openings_cons_of_close h).1, (openings_cons_of_close h).2] at hle
  exact absurd hle (by decide)

theorem within_cons_of_other (ho : l.keyword ≠ Statement.openWord)
    (hc : l.keyword ≠ Statement.closeWord) : Within depth (l :: ls) ↔ Within depth ls := by
  rw [within_cons]
  refine forall₂_congr fun ks _ => ?_
  rw [(openings_cons_of_other ho hc).1, (openings_cons_of_other ho hc).2]

end Brackets

/-! ### The line that ends a block -/

/-- The lines before the one that ends a block close all open loops but the block's own. -/
theorem blockLength?_eq_some : ∀ {ls : List Line} {depth n : Nat},
    blockLength? depth ls = some n → ∃ ms l rest, ls = ms ++ l :: rest ∧ ms.length = n ∧
      l.keyword = Statement.closeWord ∧ closings ms = openings ms + depth ∧ Within depth ms
  | [], _, _, h => by cases h
  | l :: ls, depth, n, h => by
    rw [blockLength?] at h
    split at h
    case isTrue ho =>
      obtain ⟨k, hk, rfl⟩ := Option.map_eq_some_iff.1 h
      obtain ⟨ms, e, rest, rfl, rfl, he, hsettled, hwithin⟩ := blockLength?_eq_some hk
      refine ⟨l :: ms, e, rest, rfl, rfl, he, ?_, (within_cons_of_open ho).2 hwithin⟩
      rw [(openings_cons_of_open ho).1, (openings_cons_of_open ho).2, hsettled]
      omega
    case isFalse ho =>
      split at h
      case isTrue hc =>
        split at h
        case isTrue hdepth =>
          cases h
          exact ⟨[], l, ls, rfl, rfl, hc, by rw [hdepth]; rfl, within_nil depth⟩
        case isFalse hdepth =>
          obtain ⟨k, hk, rfl⟩ := Option.map_eq_some_iff.1 h
          obtain ⟨ms, e, rest, rfl, rfl, he, hsettled, hwithin⟩ := blockLength?_eq_some hk
          obtain ⟨d, rfl⟩ := Nat.exists_eq_succ_of_ne_zero hdepth
          refine ⟨l :: ms, e, rest, rfl, rfl, he, ?_, (within_cons_of_close hc).2 hwithin⟩
          rw [(openings_cons_of_close hc).1, (openings_cons_of_close hc).2, hsettled]
          omega
      case isFalse hc =>
        obtain ⟨k, hk, rfl⟩ := Option.map_eq_some_iff.1 h
        obtain ⟨ms, e, rest, rfl, rfl, he, hsettled, hwithin⟩ := blockLength?_eq_some hk
        refine ⟨l :: ms, e, rest, rfl, rfl, he, ?_, (within_cons_of_other ho hc).2 hwithin⟩
        rw [(openings_cons_of_other ho hc).1, (openings_cons_of_other ho hc).2, hsettled]

/-- There is no such line exactly if no loop is closed that has not been opened behind. -/
theorem blockLength?_eq_none_iff : ∀ {ls : List Line} {depth : Nat},
    blockLength? depth ls = none ↔ Within depth ls
  | [], depth => by simp [blockLength?, within_nil]
  | l :: ls, depth => by
    rw [blockLength?]
    split
    case isTrue ho => rw [Option.map_eq_none_iff, blockLength?_eq_none_iff, within_cons_of_open ho]
    case isFalse ho =>
      split
      case isTrue hc =>
        split
        case isTrue hdepth =>
          subst hdepth
          exact iff_of_false (Option.some_ne_none 0) (not_within_cons_of_close hc)
        case isFalse hdepth =>
          obtain ⟨d, rfl⟩ := Nat.exists_eq_succ_of_ne_zero hdepth
          rw [Option.map_eq_none_iff, blockLength?_eq_none_iff]
          exact (within_cons_of_close hc).symm
      case isFalse hc =>
        rw [Option.map_eq_none_iff, blockLength?_eq_none_iff, within_cons_of_other ho hc]

/-! ### Windows -/

namespace Script

/-- The script that goes on after a block has been asked for: behind the block, or where it was if
there is none. -/
def afterBlock (s : Script) : Script := (s.takeBlock?.map (·.2)).getD s

/-- The windows and positions that going through a script leads to. -/
inductive Reached (source text : String) : Script → Prop
  | parsed : Reached source text (parse source text)
  | next {s t : Script} {l : Line} :
      Reached source text s → s.next? = some (l, t) → Reached source text t
  | rewound {s : Script} : Reached source text s → Reached source text s.rewound
  | body {s body t : Script} :
      Reached source text s → s.takeBlock? = some (body, t) → Reached source text body
  | afterBlock {s : Script} : Reached source text s → Reached source text s.afterBlock

/-- The position is in the window, and the window in the script. -/
structure Bounded (s : Script) : Prop where
  start_le : s.start ≤ s.position
  position_le : s.position ≤ s.stop
  stop_le : s.stop ≤ s.lines.length

/-- What taking a block off makes of a script, `close` being the line that ends the block. -/
structure Splits (s body t : Script) (close : Line) : Prop where
  /-- No line is lost, repeated or moved. -/
  rest_eq : s.rest = body.window ++ close :: t.rest
  closes : close.keyword = Statement.closeWord
  /-- The block with its last line is the shortest start of the rest that closes too much. -/
  closings_eq : closings (body.window ++ [close]) = openings (body.window ++ [close]) + 1
  shortest : ∀ ks, ks <+: s.rest → openings ks < closings ks → body.window ++ [close] <+: ks
  balanced : Balanced body.window
  /-- The body is at its start. -/
  body_eq : body =
    { s with start := s.position, stop := s.position + body.window.length, position := s.position }
  rest_script : t = { s with position := s.position + body.window.length + 1 }

variable {s t body : Script} {l : Line}

theorem length_rest (h : s.Bounded) : s.rest.length = s.stop - s.position := by
  rw [rest, List.length_drop, List.length_take, Nat.min_eq_left h.stop_le]

theorem Bounded.next (h : s.Bounded) (ht : s.next? = some (l, t)) : t.Bounded := by
  have hlen := length_rest_of_next? ht
  rw [next?] at ht
  split at ht
  · cases ht
  · next hrest =>
    cases ht
    have hpos : 0 < s.stop - s.position := by
      rw [← length_rest h, hrest]
      exact Nat.succ_pos _
    have hstart := h.start_le
    exact ⟨by dsimp only; omega, by dsimp only; omega, h.stop_le⟩

theorem Bounded.rewound (h : s.Bounded) : s.rewound.Bounded :=
  ⟨Nat.le_refl _, h.start_le.trans h.position_le, h.stop_le⟩

theorem Bounded.takeBlock (h : s.Bounded) (ht : s.takeBlock? = some (body, t)) :
    body.Bounded ∧ t.Bounded := by
  rw [takeBlock?] at ht
  split at ht
  · cases ht
  · next n hn =>
    cases ht
    have hlt := blockLength?_lt hn
    rw [length_rest h] at hlt
    have hstart := h.start_le
    have hstop := h.stop_le
    refine ⟨⟨Nat.le_refl _, Nat.le_add_right _ _, ?_⟩, ⟨?_, ?_, h.stop_le⟩⟩ <;> dsimp only <;> omega

theorem afterBlock_of_some (h : s.takeBlock? = some (body, t)) : s.afterBlock = t := by
  rw [afterBlock, h]
  rfl

theorem afterBlock_of_none (h : s.takeBlock? = none) : s.afterBlock = s := by
  rw [afterBlock, h]
  rfl

/-- The position stays in the window, and the window in the script. -/
theorem Reached.bounds {source text : String} (h : Reached source text s) : s.Bounded := by
  induction h with
  | parsed => exact ⟨Nat.le_refl _, Nat.zero_le _, Nat.le_refl _⟩
  | next _ ht ih => exact ih.next ht
  | rewound _ ih => exact ih.rewound
  | body _ ht ih => exact (ih.takeBlock ht).1
  | @afterBlock s _ ih =>
    rcases ht : s.takeBlock? with _ | ⟨body, t⟩
    · rwa [afterBlock_of_none ht]
    · rw [afterBlock_of_some ht]
      exact (ih.takeBlock ht).2

theorem takeBlock?_eq_none_iff : s.takeBlock? = none ↔ Within 0 s.rest := by
  rw [← blockLength?_eq_none_iff, takeBlock?]
  split <;> simp_all

/-- What is taken off is a block, and the caller goes on behind it. -/
theorem splits_of_takeBlock? (h : s.takeBlock? = some (body, t)) : ∃ l, s.Splits body t l := by
  obtain ⟨e, hsplit⟩ := rest_of_takeBlock? h
  rw [takeBlock?] at h
  split at h
  · cases h
  · next n hn =>
    obtain ⟨ms, l, rest, hrest, rfl, hl, hsettled, hwithin⟩ := blockLength?_eq_some hn
    cases h
    -- both ways of cutting the rest have as many lines in front
    have hlen : ((s.lines.take (s.position + ms.length)).drop s.position).length = ms.length := by
      have hlt := blockLength?_lt hn
      simp only [Script.rest, List.length_drop, List.length_take] at hlt ⊢
      omega
    rw [hrest] at hsplit
    obtain ⟨hms, hcons⟩ := List.append_inj hsplit hlen.symm
    obtain ⟨rfl, hbehind⟩ := List.cons.inj hcons
    rw [Nat.add_zero] at hsettled
    refine ⟨l, ?_⟩
    generalize hbody : ({ s with start := s.position, stop := s.position + ms.length } : Script) = b
    have hwindow : b.window = ms := by
      rw [hms, ← hbody]
      rfl
    have hcounts : closings (ms ++ [l]) = openings (ms ++ [l]) + 1 := by
      have hlast : openings [l] = openings [] ∧ closings [l] = closings [] + 1 :=
        openings_cons_of_close hl
      rw [closings_append, openings_append, hlast.1, hlast.2, hsettled]
      rfl
    refine ⟨?_, hl, ?_, ?_, ?_, ?_, ?_⟩
    · rw [hwindow, hrest, hbehind]
    · rw [hwindow, hcounts]
    · intro ks hks hlt
      have hfull : ms ++ [l] <+: s.rest := by
        rw [hrest]
        exact ⟨rest, by simp⟩
      rw [hwindow]
      rcases List.prefix_or_prefix_of_prefix hks hfull with hshort | hlong
      · rcases List.prefix_concat_iff.1 hshort with rfl | hshort
        · exact List.prefix_refl _
        · exact absurd hlt (Nat.not_lt.2 (hwithin ks hshort))
      · exact hlong
    · rw [hwindow]
      exact ⟨hsettled, hwithin⟩
    · rw [hwindow, ← hbody]
    · rw [hwindow]

/-- **Blocks are taken off at their ends.**  There is a block exactly if some start of the remaining
lines closes more loops than it opens.  It is the shortest such start, its last line ends it, and
what is before that is balanced.  The caller goes on behind it. -/
theorem takeBlock?_of_reached {source text : String} (h : Reached source text s) :
    s.start ≤ s.position ∧ s.position ≤ s.stop ∧ s.stop ≤ s.lines.length ∧
      ((∃ body t, s.takeBlock? = some (body, t)) ↔
        ∃ ks, ks <+: s.rest ∧ openings ks < closings ks) ∧
      (∀ body t, s.takeBlock? = some (body, t) → s.afterBlock = t ∧ ∃ l, s.Splits body t l) ∧
      (s.takeBlock? = none → s.afterBlock = s) := by
  have hb := h.bounds
  refine ⟨hb.start_le, hb.position_le, hb.stop_le, ?_, fun body t ht => ?_, afterBlock_of_none⟩
  · have hnone : ¬ Within 0 s.rest ↔ ∃ ks, ks <+: s.rest ∧ openings ks < closings ks := by
      simp [Within]
    rw [← hnone, ← takeBlock?_eq_none_iff, ← ne_eq, Option.ne_none_iff_exists']
    exact ⟨fun ⟨body, t, ht⟩ => ⟨_, ht⟩, fun ⟨(body, t), ht⟩ => ⟨body, t, ht⟩⟩
  · exact ⟨afterBlock_of_some ht, splits_of_takeBlock? ht⟩

theorem takeBlock?_of_reached_nested :
    let text := "foreach\n  foreach\n    print x\n  end\n  print y\nend\nprint z\n"
    ∃ s body t l, Reached "main" text s ∧ s.takeBlock? = some (body, t) ∧ s.Splits body t l ∧
      s.afterBlock = t ∧ body.window.map (·.content) = ["foreach", "print x", "end", "print y"] ∧
      t.rest.map (·.content) = ["print z"] := by
  intro text
  have hrun : ((parse "main" text).next?.bind fun (_, s) => s.takeBlock?.map fun (body, t) =>
      (body.window.map (·.content), t.rest.map (·.content))) =
        some (["foreach", "print x", "end", "print y"], ["print z"]) := by decide +kernel
  obtain ⟨⟨_, s⟩, hnext, hrun⟩ := Option.bind_eq_some_iff.1 hrun
  obtain ⟨⟨body, t⟩, ht, hlines⟩ := Option.map_eq_some_iff.1 hrun
  obtain ⟨hbody, hrest⟩ := Prod.mk.inj hlines
  have hreached : Reached "main" text s := Reached.parsed.next hnext
  obtain ⟨-, -, -, -, hblock, -⟩ := takeBlock?_of_reached hreached
  obtain ⟨hafter, l, hl⟩ := hblock body t ht
  exact ⟨s, body, t, l, hreached, ht, hl, hafter, hbody, hrest⟩

end Script

end YamlQuery.Batch

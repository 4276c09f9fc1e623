import YamlQuery.Proofs.Batch.Balance

/-!
# Proofs.Batch.Sequence — scripts one after the other

The run of a script depends on the name of its source and on the lines that are left, not on the
window that they are in.  Where the first of these lines are balanced, no loop goes beyond them: the
run of all lines is the run of the first and then the run of the others (`Script.run_joined`).
-/

namespace YamlQuery.Batch

theorem blockLength?_append : ∀ {ks : List Line} {depth n : Nat} (ls : List Line),
    blockLength? depth ks = some n → blockLength? depth (ks ++ ls) = some n
  | [], _, _, _, h => by cases h
  | k :: ks, depth, n, ls, h => by
    rw [List.cons_append]
    rw [blockLength?] at h ⊢
    split at h
    case isTrue ho =>
      rw [if_pos ho]
      obtain ⟨i, hi, rfl⟩ := Option.map_eq_some_iff.1 h
      rw [blockLength?_append ls hi]
      rfl
    case isFalse ho =>
      rw [if_neg ho]
      split at h
      case isTrue hc =>
        rw [if_pos hc]
        split at h
        case isTrue hdepth => rw [if_pos hdepth, h]
        case isFalse hdepth =>
          rw [if_neg hdepth]
          obtain ⟨i, hi, rfl⟩ := Option.map_eq_some_iff.1 h
          rw [blockLength?_append ls hi]
          rfl
      case isFalse hc =>
        rw [if_neg hc]
        obtain ⟨i, hi, rfl⟩ := Option.map_eq_some_iff.1 h
        rw [blockLength?_append ls hi]
        rfl

theorem andThen_andThen (x : Except Failure Value × Machine) (f g : Runner) :
    andThen (andThen x f) g = andThen x fun v m => andThen (f v m) g := by
  rcases x with ⟨_ | _, _⟩ <;> rfl

theorem andThen_done (x : Except Failure Value × Machine) :
    andThen x (fun v m => (.ok v, m)) = x := by
  rcases x with ⟨_ | _, _⟩ <;> rfl

namespace Script

variable {s t : Script} {l : Line} {ls : List Line}

theorem exists_next? (h : s.rest = l :: ls) :
    ∃ t, s.next? = some (l, t) ∧ t.source = s.source ∧ t.rest = ls := by
  have hnext : s.next? = some (l, { s with position := s.position + 1 }) := by rw [next?, h]
  refine ⟨_, hnext, rfl, ?_⟩
  rw [rest_of_next? hnext] at h
  exact (List.cons.inj h).2

theorem next?_eq_none (h : s.rest = []) : s.next? = none := by rw [next?, h]

theorem exists_takeBlock? {n : Nat} (h : blockLength? 0 s.rest = some n) :
    ∃ body t, s.takeBlock? = some (body, t) ∧ body.source = s.source ∧ t.source = s.source ∧
      body.rest = s.rest.take n ∧ t.rest = s.rest.drop (n + 1) := by
  have hblock : s.takeBlock? = some ({ s with start := s.position, stop := s.position + n },
      { s with position := s.position + n + 1 }) := by rw [takeBlock?, h]
  have hlt := blockLength?_lt h
  refine ⟨_, _, hblock, rfl, rfl, ?_, ?_⟩
  · simp only [rest, List.length_drop, List.length_take] at hlt ⊢
    rw [List.take_drop, List.take_take]
    congr 2
    omega
  · simp [rest, List.drop_drop, Nat.add_assoc]

theorem takeBlock?_eq_none (h : blockLength? 0 s.rest = none) : s.takeBlock? = none := by
  rw [takeBlock?, h]

/-- The first script has the lines of the second, and then others. -/
structure Starts (s s₁ : Script) (ls : List Line) : Prop where
  source_eq : s₁.source = s.source
  rest_eq : s.rest = s₁.rest ++ ls
  /-- No loop goes on beyond the lines of the second script. -/
  apart : ls = [] ∨ Balanced s₁.rest

/-- The runner does what is run from the given lines on. -/
def Runs (other : (Fault → Failure) → String → Runner) (source : String) (ls : List Line)
    (next : Runner) : Prop :=
  ∀ u : Script, u.source = source → u.rest = ls → ∀ v m, runWith other u v m = next v m

variable {other : (Fault → Failure) → String → Runner} {s₁ t₁ : Script} {next : Runner}

theorem runs_nil (source : String) : Runs other source [] fun v m => (.ok v, m) :=
  fun _ _ hrest _ _ => runWith_of_finished (next?_eq_none hrest)

section Starts

variable (h : s.Starts s₁ ls) (hnext : s.next? = some (l, t)) (hnext₁ : s₁.next? = some (l, t₁))
include h hnext hnext₁

theorem Starts.rest_next : t₁.source = t.source ∧ t.rest = t₁.rest ++ ls := by
  have hrest := h.rest_eq
  rw [rest_of_next? hnext, rest_of_next? hnext₁, List.cons_append] at hrest
  refine ⟨?_, (List.cons.inj hrest).2⟩
  rw [(sameText_of_next? hnext₁).source_eq, (sameText_of_next? hnext).source_eq, h.source_eq]

/-- Behind a line that is no delimiter, the scripts go on in the same way. -/
theorem Starts.of_other (ho : l.keyword ≠ Statement.openWord)
    (hc : l.keyword ≠ Statement.closeWord) : t.Starts t₁ ls := by
  obtain ⟨hsource, hrest⟩ := h.rest_next hnext hnext₁
  refine ⟨hsource, hrest, h.apart.imp id fun hb => ?_⟩
  rw [rest_of_next? hnext₁] at hb
  exact balanced_cons_of_other ho hc hb

/-- A loop has the same body in both scripts, and behind its end they go on in the same way. -/
theorem Starts.of_block (ho : l.keyword = Statement.openWord) :
    t.takeBlock? = none ∧ t₁.takeBlock? = none ∨
      ∃ body t' body₁ t₁', t.takeBlock? = some (body, t') ∧ t₁.takeBlock? = some (body₁, t₁') ∧
        body.Starts body₁ [] ∧ t'.Starts t₁' ls := by
  obtain ⟨hsource, hrest⟩ := h.rest_next hnext hnext₁
  have hapart := h.apart
  rw [rest_of_next? hnext₁] at hapart
  rcases hn : blockLength? 0 t₁.rest with _ | n
  · have hls : ls = [] := hapart.resolve_right fun hb =>
      not_within_of_open ho hb (blockLength?_eq_none_iff.1 hn)
    rw [hls, List.append_nil] at hrest
    exact .inl ⟨takeBlock?_eq_none (hrest ▸ hn), takeBlock?_eq_none hn⟩
  · have hlt := blockLength?_lt hn
    obtain ⟨body, t', hblock, hbody, ht, hbodyRest, htRest⟩ :=
      exists_takeBlock? (hrest ▸ blockLength?_append ls hn)
    obtain ⟨body₁, t₁', hblock₁, hbody₁, ht₁, hbodyRest₁, htRest₁⟩ := exists_takeBlock? hn
    rw [hrest, List.take_append_of_le_length hlt.le] at hbodyRest
    rw [hrest, List.drop_append_of_le_length (by omega)] at htRest
    refine .inr ⟨body, t', body₁, t₁', hblock, hblock₁, ⟨?_, ?_, .inl rfl⟩, ⟨?_, ?_, ?_⟩⟩
    · rw [hbody₁, hbody, hsource]
    · rw [hbodyRest, hbodyRest₁, List.append_nil]
    · rw [ht₁, ht, hsource]
    · rw [htRest, htRest₁]
    · obtain ⟨e, hsplit⟩ := splits_of_takeBlock? hblock₁
      refine hapart.imp id fun hb => ?_
      rw [hsplit.rest_eq] at hb
      exact balanced_behind ho hsplit.closes hsplit.balanced hb

end Starts

/-- At a line that both scripts have, they do the same, if what they run behind the line and in
loops is the same. -/
theorem runLine_starts (h : s.Starts s₁ ls) (hnext : s.next? = some (l, t))
    (hnext₁ : s₁.next? = some (l, t₁)) (hdone : Runs other s.source ls next)
    (ih : ∀ (u u₁ : Script) (ks : List Line) (g : Runner), u₁.rest.length < s₁.rest.length →
      u.source = s.source → u.Starts u₁ ks → Runs other s.source ks g →
      ∀ v m, runWith other u v m = andThen (runWith other u₁ v m) g) (v : Value) (m : Machine) :
    runLine other s l t v m = andThen (runLine other s₁ l t₁ v m) next := by
  have hlen := length_rest_of_next? hnext₁
  have hs := (sameText_of_next? hnext).source_eq
  have hfail : (fun f : Fault => f.at s l) = (·.at s₁ l) := by
    funext f
    rw [Fault.at, Fault.at, h.source_eq]
  have hat (f : Fault) : f.at s l = f.at s₁ l := congrFun hfail f
  unfold runLine
  rcases hparse : Statement.parse l.content with e | st
  · dsimp only
    rw [hat]
    rfl
  have hgo (ho : st ≠ .foreach) (hc : st ≠ .close) :
      runWith other t = fun v m => andThen (runWith other t₁ v m) next := by
    funext v m
    exact ih t t₁ ls next hlen hs (h.of_other hnext hnext₁
      (Line.keyword_ne_of_parse hparse (d := .opening) ho)
      (Line.keyword_ne_of_parse hparse (d := .closing) hc)) hdone v m
  cases st with
  | close =>
    dsimp only
    rw [hat]
    rfl
  | foreach =>
    dsimp only
    obtain ⟨hblock, hblock₁⟩ | ⟨body, t', body₁, t₁', hblock, hblock₁, hbody, ht⟩ :=
      h.of_block hnext hnext₁ (Line.keyword_of_parse (d := .opening) hparse)
    · rw [hblock, hblock₁, hat]
      rfl
    · have hlen' := length_rest_of_takeBlock? hblock₁
      obtain ⟨hbodyText, htText⟩ := sameText_of_takeBlock? hblock
      have hrun : runWith other body = runWith other body₁ := by
        funext v m
        rw [ih body body₁ [] _ (by omega) (hbodyText.source_eq.trans hs) hbody (runs_nil _) v m,
          andThen_done]
      have hrun' : runWith other t' = fun v m => andThen (runWith other t₁' v m) next := by
        funext v m
        exact ih t' t₁' ls next (by omega) (htText.source_eq.trans hs) ht hdone v m
      rw [hblock, hblock₁]
      dsimp only
      rw [hrun, hfail, hrun', andThen_andThen]
  | script path =>
    have hpath : scriptPath m.files s = scriptPath m.files s₁ := by
      funext path
      rw [scriptPath, scriptPath, base?, base?, h.source_eq]
    dsimp only
    rw [hpath, hfail, hgo (by simp) (by simp), andThen_andThen]
  | _ =>
    have hexec (v : Value) (m : Machine) (st : Statement) :
        m.executeAt s l v st = m.executeAt s₁ l v st := by
      simp only [Machine.executeAt, hat]
    dsimp only
    rw [hexec, hgo (by simp) (by simp), andThen_andThen]

theorem runWith_starts : ∀ (n : Nat) (s s₁ : Script) (ls : List Line) (next : Runner),
    s₁.rest.length < n → s.Starts s₁ ls → Runs other s.source ls next →
      ∀ v m, runWith other s v m = andThen (runWith other s₁ v m) next
  | 0, _, _, _, _, hn, _, _, _, _ => absurd hn (Nat.not_lt_zero _)
  | n + 1, s, s₁, ls, next, hn, h, hdone, v, m => by
    rcases hrest₁ : s₁.rest with _ | ⟨l, ks⟩
    · have hrest := h.rest_eq
      rw [hrest₁, List.nil_append] at hrest
      rw [runWith_of_finished (next?_eq_none hrest₁), hdone s rfl hrest]
      rfl
    · obtain ⟨t, hnext, -, -⟩ := exists_next? (h.rest_eq.trans (by rw [hrest₁, List.cons_append]))
      obtain ⟨t₁, hnext₁, -, -⟩ := exists_next? hrest₁
      rw [runWith_of_next hnext, runWith_of_next hnext₁]
      exact runLine_starts h hnext hnext₁ hdone (fun u u₁ ks g hlt hu hstarts hg =>
        runWith_starts n u u₁ ks g (hlt.trans_le (Nat.le_of_lt_succ hn)) hstarts (hu ▸ hg)) v m

/-- The run of a script depends on the name of its source and the lines that are left. -/
theorem runWith_congr (hsource : s₁.source = s.source) (hrest : s₁.rest = s.rest) :
    runWith other s = runWith other s₁ := by
  funext v m
  rw [runWith_starts _ s s₁ [] _ (Nat.lt_succ_self _)
    ⟨hsource, by rw [hrest, List.append_nil], .inl rfl⟩ (runs_nil _) v m, andThen_done]

/-- **Scripts one after the other.**  If the lines that are left are those of two scripts, and those
of the first are balanced, then the run is the run of the first script and, if that ends well, the
run of the second from where the first has ended: with the same value or failure, and the same
memory, files, properties and printed text. -/
theorem run_joined {s₂ : Script} (h₁ : s₁.source = s.source) (h₂ : s₂.source = s.source)
    (hrest : s.rest = s₁.rest ++ s₂.rest) (hbalanced : Balanced s₁.rest) (depth : Nat) (v : Value)
    (m : Machine) : runTo depth s v m = andThen (runTo depth s₁ v m) (runTo depth s₂) := by
  refine runWith_starts _ s s₁ s₂.rest (runTo depth s₂) (Nat.lt_succ_self _)
    ⟨h₁, hrest, .inr hbalanced⟩ (fun u hu hrest v m => ?_) v m
  rw [runTo, runWith_congr (h₂.trans hu.symm) hrest.symm]

theorem run_joined_loop :
    let s := parse "main" "foreach\n  print x\nend\nprint y\n"
    let s₁ := { s with stop := 3 }
    let s₂ := { s with position := 3 }
    let v : Value := .sequence [.null, .null]
    s₁.source = s.source ∧ s₂.source = s.source ∧ s.rest = s₁.rest ++ s₂.rest ∧ Balanced s₁.rest ∧
      run s v {} = andThen (run s₁ v {}) (run s₂) ∧ (run s v {}).2.output = "xxy" := by
  intro s s₁ s₂ v
  have h₁ : s₁.source = s.source := rfl
  have h₂ : s₂.source = s.source := rfl
  have hrest : s.rest = s₁.rest ++ s₂.rest := by decide +kernel
  have hbalanced : Balanced s₁.rest := by decide +kernel
  exact ⟨h₁, h₂, hrest, hbalanced, run_joined h₁ h₂ hrest hbalanced deepest v {}, by decide +kernel⟩

end Script

end YamlQuery.Batch

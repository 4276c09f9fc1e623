import YamlQuery.Proofs.Batch.Rounds
import YamlQuery.Proofs.Batch.Sequence

/-!
# Proofs.Batch.Restoring — the sets of properties behind a loop

A loop looks up in all sets what the number and the key of a round are, and brings this back into the
set `batch` alone.  So what a lookup finds is as it was before, but the set `batch` now has values
that only other sets may have had (`PropertySets.settled`).  That is all a loop does to properties if
no statement in it changes them, and it leaves the sets as they were just if the set `batch` already
spoke for the others (`Point.properties_of_loop`).
-/

namespace YamlQuery

open Batch (roundIndex roundKey roundNames roundKey_ne_roundIndex)

namespace PropertySets

/-- The sets with what is looked up under the names of a round in the set `batch`. -/
def settled (s : PropertySets) : PropertySets :=
  (s.restore roundIndex (s.get? roundIndex)).restore roundKey (s.get? roundKey)

/-- The sets with a number and maybe a key of a round in the set `batch`. -/
def Written (s s' : PropertySets) : Prop :=
  ∃ number key, s' = s.insert own
    (Entries.putIf roundKey key (Entries.putIf roundIndex (some number) s.ownSet))

variable {s s' : PropertySets} {n : String}

theorem settled_eq_assign (s : PropertySets) : s.settled = s.insert own
    (Entries.assign roundKey (s.get? roundKey)
      (Entries.assign roundIndex (s.get? roundIndex) s.ownSet)) := by
  rw [settled, restore_eq, restore_eq, ownSet_insert_own, insert_insert]

section OwnFirst

variable (hs : s.OwnFirst)
include hs

theorem get?_ownSet_of_none (h : s.get? n = none) : Entries.get? n s.ownSet = none :=
  ((get?_eq_none_iff hs).1 h).1

theorem settled_eq_putIf : s.settled = s.insert own
    (Entries.putIf roundKey (s.get? roundKey)
      (Entries.putIf roundIndex (s.get? roundIndex) s.ownSet)) := by
  rw [settled_eq_assign, Entries.assign_eq_putIf, Entries.assign_eq_putIf]
  · exact get?_ownSet_of_none hs
  · rw [Entries.get?_assign_of_ne roundKey_ne_roundIndex]
    exact get?_ownSet_of_none hs

/-- Whatever the set `batch` has got for a round, it is settled in the same way. -/
theorem insert_assign {w w' : Option String}
    (h : w = none → s.get? roundIndex = none ∨ w' = none) :
    s.insert own (Entries.assign roundKey (s.get? roundKey)
      (Entries.assign roundIndex (s.get? roundIndex)
        (Entries.putIf roundKey w' (Entries.putIf roundIndex w s.ownSet)))) = s.settled := by
  rw [Entries.assign_assign_putIf roundKey_ne_roundIndex.symm (get?_ownSet_of_none hs)
    (get?_ownSet_of_none hs) h, settled_eq_putIf hs]

theorem OwnFirst.settled : s.settled.OwnFirst := by
  rw [settled_eq_assign]
  exact hs.insert own _

theorem get?_ownSet_settled (hn : n ∈ roundNames) :
    Entries.get? n s.settled.ownSet = s.get? n := by
  have hor (n : String) : (s.get? n).or (Entries.get? n s.ownSet) = s.get? n := by
    rcases h : s.get? n with _ | v
    · rw [get?_ownSet_of_none hs h, Option.or_none]
    · rfl
  rw [settled_eq_putIf hs, ownSet_insert_own]
  simp only [roundNames, List.mem_cons, List.not_mem_nil, or_false] at hn
  obtain rfl | rfl := hn
  · rw [Entries.get?_putIf_of_ne roundKey_ne_roundIndex.symm, Entries.get?_putIf_self, hor]
  · rw [Entries.get?_putIf_self, Entries.get?_putIf_of_ne roundKey_ne_roundIndex, hor]

/-- Settling does not show in lookups. -/
theorem get?_settled (n : String) : s.settled.get? n = s.get? n := by
  have hothers : s.settled.others = s.others := by
    rw [settled_eq_assign, others_insert_own hs]
  rw [get?_eq (OwnFirst.settled hs), hothers]
  by_cases hn : n ∈ roundNames
  · rw [get?_ownSet_settled hs hn, get?_eq hs]
    cases Entries.get? n s.ownSet <;> cases s.others n <;> rfl
  · simp only [roundNames, List.mem_cons, List.not_mem_nil, or_false, not_or] at hn
    rw [settled_eq_putIf hs, ownSet_insert_own, Entries.get?_putIf_of_ne hn.2,
      Entries.get?_putIf_of_ne hn.1, get?_eq hs]

theorem settled_settled : s.settled.settled = s.settled := by
  have hown : s.settled.ownSet = Entries.putIf roundKey (s.get? roundKey)
      (Entries.putIf roundIndex (s.get? roundIndex) s.ownSet) := by
    rw [settled_eq_putIf hs, ownSet_insert_own]
  have hinsert (ps : Properties) : s.settled.insert own ps = s.insert own ps := by
    rw [settled_eq_assign, insert_insert]
  rw [settled_eq_assign s.settled, get?_settled hs, get?_settled hs, hown, hinsert,
    insert_assign hs .inl]

/-- The sets are settled if the set `batch` speaks for all sets. -/
theorem settled_eq_self_iff :
    s.settled = s ↔ ∀ n ∈ roundNames, Entries.get? n s.ownSet = s.get? n := by
  constructor
  · intro h n hn
    have hsettled := get?_ownSet_settled hs hn
    rwa [h] at hsettled
  · intro h
    rw [settled_eq_putIf hs, Entries.putIf_eq_self (.inr (h roundIndex (by decide))),
      Entries.putIf_eq_self (.inr (h roundKey (by decide))), insert_ownSet hs]

/-- Settling in a round brings nothing but a key. -/
theorem Written.settled (h : s.Written s') : s.Written s'.settled := by
  obtain ⟨number, key, rfl⟩ := h
  rw [settled_eq_putIf (hs.insert own _)]
  have hnumber : (s.insert own (Entries.putIf roundKey key
      (Entries.putIf roundIndex (some number) s.ownSet))).get? roundIndex = some number := by
    refine get?_of_own (hs.insert own _) ?_
    rw [ownSet_insert_own, Entries.get?_putIf_of_ne roundKey_ne_roundIndex.symm,
      Entries.get?_putIf_self, Option.some_or]
  generalize (s.insert own _).get? roundKey = key'
  refine ⟨number, key'.or key, ?_⟩
  rw [hnumber, insert_insert, ownSet_insert_own, Entries.putIf_eq_self (k := roundIndex),
    Entries.putIf_putIf]
  rw [Entries.get?_putIf_of_ne roundKey_ne_roundIndex.symm, Entries.get?_putIf_self]
  exact .inr rfl

end OwnFirst

end PropertySets

namespace Batch

open Relation (ReflTransGen)

namespace Machine

variable {m m' before : Machine} {s : PropertySets}

theorem written_enterRound (h : m.properties = s ∨ s.Written m.properties) (index : Nat)
    (key : Option String) (v : Value) : s.Written (m.enterRound index key v).properties := by
  rw [enterRound_properties]
  obtain rfl | ⟨number, key', hm⟩ := h
  · exact ⟨_, key, rfl⟩
  · refine ⟨String.ofList (Text.decimal index), key.or key', ?_⟩
    have hput (n : String) : Entries.put roundIndex n
        (Entries.putIf roundKey key' (Entries.putIf roundIndex (some number) s.ownSet)) =
        Entries.putIf roundKey key' (Entries.putIf roundIndex (some n) s.ownSet) := by
      change Entries.assign roundIndex (some n) _ = _
      rw [Entries.assign_putIf_comm roundKey_ne_roundIndex.symm
        (.inr (.inr (Entries.mem_keys_putIf roundIndex number s.ownSet)))]
      exact congrArg _ (Entries.put_put roundIndex number n s.ownSet)
    rw [hm, PropertySets.insert_insert, PropertySets.ownSet_insert_own, hput,
      Entries.putIf_putIf]

theorem settled_leaveLoop (hb : before.properties.OwnFirst)
    (h : m.properties = before.properties ∨ before.properties.Written m.properties) :
    (before.leaveLoop m).properties = before.properties.settled := by
  rw [leaveLoop_properties]
  obtain hm | ⟨number, key, hm⟩ := h
  · rw [hm, PropertySets.settled_eq_assign]
  · rw [hm, PropertySets.insert_insert, PropertySets.ownSet_insert_own,
      PropertySets.insert_assign hb (w := some number) nofun]

/-- The properties of the second machine are those of the first, settled or not. -/
def Settles (m m' : Machine) : Prop := m.properties.OwnFirst →
  m'.properties = m.properties ∨ m'.properties = m.properties.settled

/-- Between the rounds of a loop the set `batch` has at most a number and a key of a round more than
before the loop. -/
theorem written_of_rounds (hm : m.properties.OwnFirst)
    (h : ReflTransGen (Point.AfterRound Settles) m m') :
    m'.properties = m.properties ∨ m.properties.Written m'.properties := by
  induction h with
  | refl => exact .inl rfl
  | @tail m₁ m₂ _ hround ih =>
    obtain ⟨index, key, v, hsettles⟩ := hround
    have hwritten := written_enterRound ih index key v
    have hfirst : (m₁.enterRound index key v).properties.OwnFirst := by
      obtain ⟨number, key', hproperties⟩ := hwritten
      rw [hproperties]
      exact hm.insert PropertySets.own _
    obtain hsame | hsettled := hsettles hfirst
    · exact .inr (hsame ▸ hwritten)
    · exact .inr (hsettled ▸ hwritten.settled hm)

theorem compatible_settles : Point.Compatible Settles where
  refl _ _ := .inl rfl
  trans {m₁ m₂ m₃} h h' hm := by
    obtain hsame | hsettled := h hm
    · rw [← hsame]
      exact h' (hsame ▸ hm)
    · obtain hsame' | hsettled' := h' (hsettled ▸ PropertySets.OwnFirst.settled hm)
      · exact .inr (hsame'.trans hsettled)
      · rw [hsettled', hsettled]
        exact .inr (PropertySets.settled_settled hm)
  loop h hm := .inr (settled_leaveLoop hm (written_of_rounds hm h))
  script _ _ := .inl rfl

end Machine

namespace Point

variable {p q : Point} {l : Line} {t : Script}

/-- The next statement neither loads a set of properties nor sets a property. -/
def LeavesProperties (p : Point) : Prop :=
  ∀ l t st, p.Next l t st → ∀ a b, st ≠ .properties a b ∧ st ≠ .setProperty a b

theorem LeavesProperties.obeys (h : p.LeavesProperties) : p.Obeys Machine.Settles := by
  intro l t st v m hnext _ hexec _
  have hst := h l t st hnext
  cases Machine.effect_of_execute hexec with
  | load => exact absurd rfl (hst _ _).1
  | set => exact absurd rfl (hst _ _).2
  | save _ hproperties => exact .inl hproperties
  | none hproperties => exact .inl hproperties

theorem settled_of_passes (hp : p.machine.properties.OwnFirst) (hnext : p.Next l t .foreach)
    (hq : p.Passes q) (hbody : ∀ r r', p.Enters r → r.Reaches r' → r'.LeavesProperties) :
    q.machine.properties = p.machine.properties.settled := by
  obtain ⟨m, hrounds, hm⟩ := Compatible.exists_leaveLoop (R := Machine.Settles) hnext
    (fun r hr v m => Machine.compatible_settles.of_outcome fun r' hr' => (hbody r r' hr hr').obeys)
    hq
  rw [hm, Machine.settled_leaveLoop hp (Machine.written_of_rounds hp hrounds)]

/-- **The sets of properties behind a loop.**  If no statement in the loop changes properties, then
behind it the set `batch` has, under the names of a round, what was looked up before it in all sets.
The sets are what they were before the loop just if the set `batch` has had all this before;
lookups find what they found before. -/
theorem properties_of_loop (hp : p.machine.properties.OwnFirst) (hnext : p.Next l t .foreach)
    (hq : p.Passes q) (hbody : ∀ r r', p.Enters r → r.Reaches r' → r'.LeavesProperties) :
    q.machine.properties = p.machine.properties.settled ∧
      (q.machine.properties = p.machine.properties ↔ ∀ n ∈ roundNames,
        Entries.get? n p.machine.properties.ownSet = p.machine.properties.get? n) ∧
      ∀ n, q.machine.properties.get? n = p.machine.properties.get? n := by
  have hsettled := settled_of_passes hp hnext hq hbody
  rw [hsettled]
  exact ⟨rfl, PropertySets.settled_eq_self_iff hp, PropertySets.get?_settled hp⟩

/-- A loop with nothing in it. -/
def idle : Script := Script.parse "main" "foreach\nend"

/-- The loop with nothing in it, over one value. -/
def emptyLoop (m : Machine) : Point := idle.begin deepest (.sequence [.string "v"]) m

theorem leavesProperties_emptyLoop {m : Machine} (h : (emptyLoop m).Reaches q) :
    q.LeavesProperties := by
  have hstatements : idle.statements = [.ok .foreach, .ok .close] := by decide +kernel
  have hidle : idle.Holds idle := Script.holds_parse _ _
  intro l t st hnext a b
  have hmem := h.mem_statements hidle (by simp [hstatements]) hnext
  rw [hstatements] at hmem
  simp only [List.mem_cons, Except.ok.injEq, List.not_mem_nil, or_false] at hmem
  obtain rfl | rfl := hmem <;> exact ⟨nofun, nofun⟩

theorem exists_passes_emptyLoop (m : Machine) :
    ∃ q l t, (emptyLoop m).Next l t .foreach ∧ (emptyLoop m).Passes q := by
  have hrest : idle.rest = [⟨1, "foreach", "foreach"⟩, ⟨2, "end", "end"⟩] := by
    decide +kernel
  obtain ⟨t, hline, -, ht⟩ := Script.exists_next? hrest
  have hlength : blockLength? 0 t.rest = some 0 := by
    rw [ht]
    decide +kernel
  obtain ⟨body, t', hblock, -, -, hbody, -⟩ := Script.exists_takeBlock? hlength
  have hnext : (emptyLoop m).Next ⟨1, "foreach", "foreach"⟩ t .foreach :=
    ⟨hline, by decide +kernel⟩
  have hrun : runWith (runOther (emptyLoop m).depth) body = fun v m => (.ok v, m) := by
    funext v m
    exact runWith_of_finished (Script.next?_eq_none hbody)
  exact ⟨_, _, _, hnext, .loop ⟨t, hnext, hblock⟩ (by rw [hrun]; rfl)⟩

theorem properties_of_loop_own :
    let m : Machine := { properties := { sets := [("batch", [(roundIndex, "7")]), ("conf", [])] } }
    let p := emptyLoop m
    ∃ q l t, p.machine.properties.OwnFirst ∧ p.Next l t .foreach ∧ p.Passes q ∧
      (∀ r r', p.Enters r → r.Reaches r' → r'.LeavesProperties) ∧
      q.machine.properties = p.machine.properties.settled ∧
      (q.machine.properties = p.machine.properties ↔ ∀ n ∈ roundNames,
        Entries.get? n p.machine.properties.ownSet = p.machine.properties.get? n) ∧
      (∀ n, q.machine.properties.get? n = p.machine.properties.get? n) ∧
      p.machine.properties.settled = p.machine.properties := by
  intro m p
  obtain ⟨q, l, t, hnext, hq⟩ := exists_passes_emptyLoop m
  have hbody (r r' : Point) (hr : p.Enters r) (hr' : r.Reaches r') : r'.LeavesProperties :=
    leavesProperties_emptyLoop (hr.reaches.trans hr')
  have hfirst : p.machine.properties.OwnFirst := rfl
  obtain ⟨hsettled, hiff, hlooks⟩ := properties_of_loop hfirst hnext hq hbody
  exact ⟨q, l, t, hfirst, hnext, hq, hbody, hsettled, hiff, hlooks, by decide⟩

/-- A number of a round that another set has is in the set `batch` behind a loop. -/
theorem properties_of_loop_other :
    let m : Machine := { properties := { sets := [("batch", []), ("conf", [(roundIndex, "x")])] } }
    let p := emptyLoop m
    ∃ q l t, p.Next l t .foreach ∧ p.Passes q ∧
      (∀ r r', p.Enters r → r.Reaches r' → r'.LeavesProperties) ∧
      q.machine.properties.ownSet = [(roundIndex, "x")] ∧
      q.machine.properties ≠ p.machine.properties := by
  intro m p
  obtain ⟨q, l, t, hnext, hq⟩ := exists_passes_emptyLoop m
  have hbody (r r' : Point) (hr : p.Enters r) (hr' : r.Reaches r') : r'.LeavesProperties :=
    leavesProperties_emptyLoop (hr.reaches.trans hr')
  have hfirst : p.machine.properties.OwnFirst := rfl
  have hsettled := settled_of_passes hfirst hnext hq hbody
  refine ⟨q, l, t, hnext, hq, hbody, ?_, ?_⟩ <;> rw [hsettled] <;> decide

end Point

end Batch

end YamlQuery

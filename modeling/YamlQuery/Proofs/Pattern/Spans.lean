import Mathlib.Data.Nat.Bitwise
import YamlQuery.Pattern.Basic

/-!
# Proofs.Pattern.Spans — the parts of a text that an expression matches

`Re.Spans` says by the structure of an expression which parts of a text match, a part being given by
the places where it starts and ends.  `Re.step` is about sets of places, as the bits of numbers.  It
leads from the starts of matches to their ends, and to no other place (`Re.follows_step`).

An expression that may come any number of times is tried no more often than the text has characters.
That is enough, since what matches nothing can be left out (`Re.Power.shorten`).
-/

namespace YamlQuery.Re

variable {text : List Char}

/-! ### Matches -/

/-- So many steps of a relation lead from one place to another. -/
def Power (R : Nat → Nat → Prop) : Nat → Nat → Nat → Prop
  | 0, i, j => i = j
  | n + 1, i, j => ∃ k, R i k ∧ Power R n k j

/-- The character before a place. -/
def before? (text : List Char) : Nat → Option Char
  | 0 => none
  | i + 1 => text[i]?

/-- The expression matches the part of the text between two places. -/
def Spans (text : List Char) : Re → Nat → Nat → Prop
  | .empty, i, j => i = j
  | .set p, i, j => i + 1 = j ∧ text[i]?.any p
  | .look l, i, j => i = j ∧ i ≤ text.length ∧ l.holds (before? text i) text[i]?
  | .cat a b, i, j => ∃ k, a.Spans text i k ∧ b.Spans text k j
  | .alt a b, i, j => a.Spans text i j ∨ b.Spans text i j
  | .times a least most, i, j =>
    ∃ n, least ≤ n ∧ (∀ m ∈ most, n ≤ max least m) ∧ Power (a.Spans text) n i j

namespace Power

variable {R : Nat → Nat → Prop} {n m i j k : Nat}

theorem append : ∀ {n i : Nat}, Power R n i k → Power R m k j → Power R (n + m) i j
  | 0, i, h, h' => by
    obtain rfl : i = k := h
    rwa [Nat.zero_add]
  | n + 1, i, ⟨l, hl, h⟩, h' => by
    rw [Nat.add_right_comm]
    exact ⟨l, hl, h.append h'⟩

theorem split : ∀ {n i : Nat}, Power R (n + m) i j → ∃ k, Power R n i k ∧ Power R m k j
  | 0, i, h => ⟨i, rfl, by rwa [Nat.zero_add] at h⟩
  | n + 1, i, h => by
    rw [Nat.add_right_comm] at h
    obtain ⟨l, hl, h⟩ := h
    obtain ⟨k, hk, h⟩ := split h
    exact ⟨k, ⟨l, hl, hk⟩, h⟩

/-- Steps that never go back, and no further than `top`. -/
theorem le_max {top : Nat} (hR : ∀ i j, R i j → i ≤ j ∧ j ≤ max i top) :
    ∀ {n i : Nat}, Power R n i j → i ≤ j ∧ j ≤ max i top
  | 0, i, h => by
    obtain rfl : i = j := h
    omega
  | n + 1, i, ⟨k, hk, h⟩ => by
    have hik := hR i k hk
    have hkj := h.le_max hR
    omega

/-- Of steps that never go back, those that stay where they are can be left out. -/
theorem shorten (hR : ∀ i j, R i j → i ≤ j) :
    ∀ {n i : Nat}, Power R n i j → i ≤ j ∧ ∃ m ≤ j - i, Power R m i j
  | 0, i, h => by
    obtain rfl : i = j := h
    exact ⟨Nat.le_refl i, 0, Nat.zero_le _, rfl⟩
  | n + 1, i, ⟨k, hk, h⟩ => by
    have hik := hR i k hk
    obtain ⟨hkj, m, hm, h⟩ := h.shorten hR
    refine ⟨by omega, ?_⟩
    by_cases heq : i = k
    · subst heq
      exact ⟨m, hm, h⟩
    · exact ⟨m + 1, by omega, k, hk, h⟩

end Power

/-- A match ends behind its start, and in the text if it starts there. -/
theorem Spans.le_max : ∀ {r : Re} {i j : Nat}, r.Spans text i j → i ≤ j ∧ j ≤ max i text.length
  | .empty, i, j, h => by
    obtain rfl : i = j := h
    omega
  | .set p, i, j, ⟨hj, h⟩ => by
    obtain ⟨c, hc, -⟩ := (Option.any_eq_true _ _).1 h
    obtain ⟨hi, -⟩ := List.getElem?_eq_some_iff.1 hc
    omega
  | .look l, i, j, ⟨hj, hi, _⟩ => by omega
  | .cat a b, i, j, ⟨k, ha, hb⟩ => by
    have hik := ha.le_max
    have hkj := hb.le_max
    omega
  | .alt a b, i, j, h => h.elim Spans.le_max Spans.le_max
  | .times a least most, i, j, ⟨n, _, _, h⟩ => h.le_max fun _ _ h => Spans.le_max h

/-! ### Sets of places -/

theorem testBit_toNat_add (b : Bool) (m i : Nat) :
    (b.toNat + 2 * m).testBit i = match i with
      | 0 => b
      | i + 1 => m.testBit i := by
  cases i with
  | zero => cases b <;> simp [Nat.testBit_zero]
  | succ i =>
    have hdiv : (b.toNat + 2 * m) / 2 = m := by
      have hb := Bool.toNat_le b
      omega
    rw [Nat.testBit_succ, hdiv]

theorem testBit_mask (p : Char → Bool) : ∀ (text : List Char) (i : Nat),
    (mask p text).testBit i = text[i]?.any p
  | [], i => by simp [mask]
  | c :: text, i => by
    rw [mask, testBit_toNat_add]
    cases i with
    | zero => rfl
    | succ i => exact testBit_mask p text i

theorem testBit_lookMask (l : Look) : ∀ (text : List Char) (before : Option Char) (i : Nat),
    (lookMask l before text).testBit i ↔
      i ≤ text.length ∧ l.holds (if i = 0 then before else before? text i) text[i]?
  | [], before, i => by
    rw [lookMask, ← Nat.add_zero (Bool.toNat _), ← Nat.mul_zero 2, testBit_toNat_add]
    cases i <;> simp
  | c :: text, before, i => by
    rw [lookMask, testBit_toNat_add]
    cases i with
    | zero => simp
    | succ i =>
      dsimp only
      rw [testBit_lookMask l text (some c) i, List.length_cons, Nat.add_le_add_iff_right]
      cases i <;> simp [before?]

/-- A step of places follows a relation. -/
def Follows (f : Nat → Nat) (R : Nat → Nat → Prop) : Prop :=
  ∀ places j, (f places).testBit j ↔ ∃ i, places.testBit i ∧ R i j

theorem Follows.repeated {f : Nat → Nat} {R : Nat → Nat → Prop} (h : Follows f R) :
    ∀ n, Follows (repeated f n) (Power R n)
  | 0, places, j => by simp [Re.repeated, Power]
  | n + 1, places, j => by
    rw [Re.repeated]
    split
    · next h0 => simp [h0]
    · rw [h.repeated n (f places) j]
      simp only [h places]
      constructor
      · rintro ⟨k, ⟨i, hi, hk⟩, hj⟩
        exact ⟨i, hi, k, hk, hj⟩
      · rintro ⟨i, hi, k, hk, hj⟩
        exact ⟨k, ⟨i, hi, hk⟩, hj⟩

/-- If the steps from some places lead to no others, then so do several steps. -/
theorem Follows.stays {f : Nat → Nat} {R : Nat → Nat → Prop} (h : Follows f R) {places : Nat}
    (hstay : places ||| f places = places) :
    ∀ {n i j : Nat}, places.testBit i → Power R n i j → places.testBit j
  | 0, i, j, hi, hj => by
    obtain rfl : i = j := hj
    exact hi
  | n + 1, i, j, hi, ⟨k, hk, hj⟩ => by
    refine h.stays hstay ?_ hj
    rw [← hstay, Nat.testBit_or, (h places k).2 ⟨i, hi, hk⟩, Bool.or_true]

theorem Follows.upTo {f : Nat → Nat} {R : Nat → Nat → Prop} (h : Follows f R) :
    ∀ n, Follows (upTo f n) fun i j => ∃ m ≤ n, Power R m i j
  | 0, places, j => by
    rw [Re.upTo]
    constructor
    · exact fun hj => ⟨j, hj, 0, Nat.le_refl 0, rfl⟩
    · rintro ⟨i, hi, m, hm, hj⟩
      obtain rfl : m = 0 := Nat.le_zero.1 hm
      obtain rfl : i = j := hj
      exact hi
  | n + 1, places, j => by
    rw [Re.upTo]
    dsimp only
    split
    · next hstay =>
      constructor
      · exact fun hj => ⟨j, hj, 0, Nat.zero_le _, rfl⟩
      · rintro ⟨i, hi, m, -, hj⟩
        exact h.stays hstay hi hj
    · rw [h.upTo n _ j]
      simp only [Nat.testBit_or, Bool.or_eq_true, h places]
      constructor
      · rintro ⟨k, hk | ⟨i, hi, hk⟩, m, hm, hj⟩
        · exact ⟨k, hk, m, by omega, hj⟩
        · exact ⟨i, hi, m + 1, by omega, k, hk, hj⟩
      · rintro ⟨i, hi, m, hm, hj⟩
        cases m with
        | zero => exact ⟨i, .inl hi, 0, Nat.zero_le n, hj⟩
        | succ m =>
          obtain ⟨k, hk, hj⟩ := hj
          exact ⟨k, .inr ⟨i, hi, hk⟩, m, by omega, hj⟩

/-- **From the starts of matches to their ends.** -/
theorem follows_step (text : List Char) : ∀ r : Re, Follows (step text r) (r.Spans text)
  | .empty, places, j => by simp [step, Spans]
  | .set p, places, j => by
    simp only [step, Spans, Nat.testBit_shiftLeft, Nat.testBit_and, testBit_mask]
    constructor
    · intro h
      obtain ⟨hj, h⟩ := Bool.and_eq_true_iff.1 h
      obtain ⟨hi, hp⟩ := Bool.and_eq_true_iff.1 h
      exact ⟨j - 1, hi, Nat.sub_add_cancel (of_decide_eq_true hj), hp⟩
    · rintro ⟨i, hi, rfl, hp⟩
      simp [hi, hp]
  | .look l, places, j => by
    have hbefore : (if j = 0 then none else before? text j) = before? text j := by
      cases j <;> rfl
    rw [step, Nat.testBit_and, Bool.and_eq_true, testBit_lookMask, hbefore]
    simp only [Spans]
    constructor
    · rintro ⟨hj, h⟩
      exact ⟨j, hj, rfl, h⟩
    · rintro ⟨i, hi, rfl, h⟩
      exact ⟨hi, h⟩
  | .cat a b, places, j => by
    rw [step, follows_step text b]
    simp only [Spans, follows_step text a places]
    constructor
    · rintro ⟨k, ⟨i, hi, hk⟩, hj⟩
      exact ⟨i, hi, k, hk, hj⟩
    · rintro ⟨i, hi, k, hk, hj⟩
      exact ⟨k, ⟨i, hi, hk⟩, hj⟩
  | .alt a b, places, j => by
    rw [step, Nat.testBit_or, Bool.or_eq_true, follows_step text a, follows_step text b]
    simp only [Spans, and_or_left, exists_or]
  | .times a least most, places, j => by
    have ha := follows_step text a
    simp only [step, Spans]
    rw [ha.upTo]
    simp only [ha.repeated least places]
    constructor
    · rintro ⟨k, ⟨i, hi, hk⟩, m, hm, hj⟩
      refine ⟨i, hi, least + m, Nat.le_add_right _ _, ?_, hk.append hj⟩
      rintro most rfl
      dsimp only at hm
      omega
    · rintro ⟨i, hi, n, hn, hmost, hj⟩
      obtain ⟨m, rfl⟩ := Nat.exists_eq_add_of_le hn
      obtain ⟨k, hk, hj⟩ := hj.split
      refine ⟨k, ⟨i, hi, hk⟩, ?_⟩
      cases most with
      | some most =>
        have hle := hmost most rfl
        exact ⟨m, by dsimp only; omega, hj⟩
      | none =>
        -- as many steps as there are characters suffice
        have hbounds := hj.le_max fun _ _ h => Spans.le_max h
        obtain ⟨-, l, hl, hj⟩ := hj.shorten fun _ _ h => (Spans.le_max h).1
        exact ⟨l, by dsimp only; omega, hj⟩

/-- A text matches if some part of it does. -/
theorem isMatch_iff {r : Re} {text : List Char} :
    r.isMatch text ↔ ∃ i j, i ≤ text.length ∧ r.Spans text i j := by
  have hstart (i : Nat) : (Nat.pow 2 (text.length + 1) - 1).testBit i ↔ i ≤ text.length := by
    show (2 ^ (text.length + 1) - 1).testBit i ↔ _
    rw [Nat.testBit_two_pow_sub_one, decide_eq_true_eq, Nat.lt_succ_iff]
  rw [isMatch, bne_iff_ne]
  constructor
  · intro h
    obtain ⟨j, hj⟩ := Nat.exists_testBit_of_ne_zero h
    obtain ⟨i, hi, hij⟩ := (follows_step text r _ j).1 hj
    exact ⟨i, j, (hstart i).1 hi, hij⟩
  · rintro ⟨i, j, hi, hij⟩ h0
    have hj := (follows_step text r _ j).2 ⟨i, (hstart i).2 hi, hij⟩
    rw [h0, Nat.zero_testBit] at hj
    cases hj

end YamlQuery.Re

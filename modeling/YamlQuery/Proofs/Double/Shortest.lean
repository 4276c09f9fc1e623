import Mathlib.Algebra.Order.Field.Power
import Mathlib.Algebra.Order.Field.Rat
import Mathlib.Data.Nat.Cast.Order.Field
import Mathlib.Tactic.Linarith
import Mathlib.Tactic.NormNum
import Mathlib.Tactic.Positivity
import YamlQuery.Double.Decimal

/-!
# Proofs.Double.Shortest — shortest digits tell doubles apart

The reals that round to a positive double form an interval, and no real is in the intervals of two
doubles (`interval_apart`).  The interval holds a number of at most 17 digits, so the search finds
one (`mem_search`).
-/

namespace YamlQuery.Double

/-- A power of a whole exponent, as one power over another. -/
theorem pow_toNat_div_pow_toNat {b : ℚ} (hb : b ≠ 0) (p : ℤ) :
    b ^ p.toNat / b ^ (-p).toNat = b ^ p := by
  rw [← zpow_natCast, ← zpow_natCast, ← zpow_sub₀ hb]
  congr 1
  omega

namespace Interval

/-- The number is in the interval. -/
def Mem (i : Interval) (q : ℚ) : Prop :=
  if i.closed then (i.low / i.den : ℚ) ≤ q ∧ q ≤ i.high / i.den
  else (i.low / i.den : ℚ) < q ∧ q < i.high / i.den

section

variable {i : Interval} {l n : ℕ} {p : ℤ}

theorem div_le_iff (hden : 0 < i.den) : (l / i.den : ℚ) ≤ n * 10 ^ p ↔
    l * Nat.pow 10 (-p).toNat ≤ n * Nat.pow 10 p.toNat * i.den := by
  have hden' : (0 : ℚ) < i.den := by exact_mod_cast hden
  rw [← pow_toNat_div_pow_toNat (by norm_num), ← mul_div_assoc,
    div_le_div_iff₀ hden' (by positivity)]
  exact_mod_cast Iff.rfl

theorem le_div_iff (hden : 0 < i.den) : (n * 10 ^ p : ℚ) ≤ l / i.den ↔
    n * Nat.pow 10 p.toNat * i.den ≤ l * Nat.pow 10 (-p).toNat := by
  have hden' : (0 : ℚ) < i.den := by exact_mod_cast hden
  rw [← pow_toNat_div_pow_toNat (by norm_num), ← mul_div_assoc,
    div_le_div_iff₀ (by positivity) hden']
  exact_mod_cast Iff.rfl

theorem holds_iff_mem (hden : 0 < i.den) : i.holds n p = true ↔ i.Mem (n * 10 ^ p) := by
  have hlow := not_congr (le_div_iff (l := i.low) (n := n) (p := p) hden)
  have hhigh := not_congr (div_le_iff (l := i.high) (n := n) (p := p) hden)
  rw [not_le, not_le] at hlow hhigh
  rw [holds, Mem]
  split
  · rw [div_le_iff hden, le_div_iff hden, Bool.and_eq_true, decide_eq_true_eq, decide_eq_true_eq]
  · rw [hlow, hhigh, Bool.and_eq_true, decide_eq_true_eq, decide_eq_true_eq]

end

end Interval

/-! ### The intervals of two doubles -/

/-- The mantissa and the exponent of a finite double. -/
structure IsMantissa (m : ℕ) (e : ℤ) : Prop where
  lt : m < 2 * fractions
  exponent : -1074 ≤ e
  normal : fractions ≤ m ∨ e = -1074

theorem isMantissa_of_shape {x : Double} {negative : Bool} {m : ℕ} {e : ℤ}
    (h : x.shape = .finite negative m e) : IsMantissa m e := by
  have hlt := Nat.mod_lt x.bits.toNat (show 0 < fractions by decide)
  simp only [shape] at h
  split at h
  · split at h <;> cases h
  · split at h
    · cases h
      exact ⟨by omega, le_refl _, .inr rfl⟩
    · cases h
      exact ⟨by omega, by omega, .inl (by omega)⟩

/-- Quarters of a unit from a mantissa half way down to the lower neighbour. -/
def below (m : ℕ) (e : ℤ) : ℕ := if m = fractions && -1074 < e then 1 else 2

theorem interval_den_pos (m : ℕ) (e : ℤ) : 0 < (interval m e).den :=
  Nat.pow_pos (by decide)

theorem scale_div_den (n m : ℕ) (e : ℤ) :
    ((n * Nat.pow 2 (e - 2).toNat : ℕ) / (interval m e).den : ℚ) = n * 2 ^ (e - 2) := by
  have hden : ((interval m e).den : ℚ) = 2 ^ (-(e - 2)).toNat := by
    rw [interval, neg_sub]
    exact_mod_cast rfl
  rw [hden, Nat.cast_mul, mul_div_assoc, ← pow_toNat_div_pow_toNat (by norm_num)]
  norm_cast

theorem interval_low (m : ℕ) (e : ℤ) :
    ((interval m e).low / (interval m e).den : ℚ) = (4 * m - below m e : ℕ) * 2 ^ (e - 2) :=
  scale_div_den _ m e

theorem four_mul_two_zpow (e : ℤ) : (4 : ℚ) * 2 ^ (e - 2) = 2 ^ e := by
  have hsplit := zpow_add₀ (two_ne_zero (α := ℚ)) (e - 2) 2
  rw [sub_add_cancel] at hsplit
  rw [hsplit]
  norm_num [mul_comm]

theorem interval_value (m : ℕ) (e : ℤ) :
    ((interval m e).value / (interval m e).den : ℚ) = m * 2 ^ e := by
  rw [← four_mul_two_zpow, ← mul_assoc, mul_comm (m : ℚ)]
  exact_mod_cast scale_div_den (4 * m) m e

theorem interval_high (m : ℕ) (e : ℤ) :
    ((interval m e).high / (interval m e).den : ℚ) = (4 * m + 2 : ℕ) * 2 ^ (e - 2) :=
  scale_div_den _ m e

variable {m n : ℕ} {d e : ℤ}

theorem mem_interval_iff {q : ℚ} : (interval m e).Mem q ↔
    if m % 2 = 0 then (4 * m - below m e : ℕ) * 2 ^ (e - 2) ≤ q ∧ q ≤ (4 * m + 2 : ℕ) * 2 ^ (e - 2)
    else (4 * m - below m e : ℕ) * 2 ^ (e - 2) < q ∧ q < (4 * m + 2 : ℕ) * 2 ^ (e - 2) := by
  rw [Interval.Mem, interval_low, interval_high]
  simp only [interval, beq_iff_eq]

theorem mem_interval {q : ℚ} (h : (interval m e).Mem q) :
    ((4 * m - below m e : ℕ) : ℚ) * 2 ^ (e - 2) ≤ q ∧ q ≤ (4 * m + 2 : ℕ) * 2 ^ (e - 2) := by
  rw [mem_interval_iff] at h
  split at h
  · exact h
  · exact ⟨h.1.le, h.2.le⟩

/-- The upper end of an interval does not lie above the lower end of the interval of a greater
double, and where they meet one of the mantissas is odd. -/
theorem gap {m m' k : ℕ} {e : ℤ} (h : IsMantissa m e) (h' : IsMantissa m' (e + k))
    (hlt : 0 < k ∨ m < m') : 4 * m + 2 < (4 * m' - below m' (e + k)) * 2 ^ k ∨
      4 * m + 2 = (4 * m' - below m' (e + k)) * 2 ^ k ∧ (m % 2 = 1 ∨ m' % 2 = 1) := by
  have hm := h.lt
  have he := h.exponent
  have hbelow : below m' (e + k) ≤ 2 ∧ (below m' (e + k) = 2 ∨ m' = fractions) := by
    rw [below]
    split <;> simp_all
  cases k with
  | zero =>
    simp only [Nat.cast_zero, add_zero, pow_zero, mul_one] at *
    omega
  | succ k =>
    have hnormal : fractions ≤ m' := h'.normal.resolve_right (by omega)
    have hone : m' = fractions → below m' (e + (k + 1 : ℕ)) = 1 := by
      rintro rfl
      rw [below, if_pos]
      simp
      omega
    have hscale : (4 * m' - below m' (e + (k + 1 : ℕ))) * 2 ≤
        (4 * m' - below m' (e + (k + 1 : ℕ))) * 2 ^ (k + 1) :=
      Nat.mul_le_mul_left _ (by rw [pow_succ]; have := Nat.one_le_two_pow (n := k); omega)
    simp only [fractions] at *
    omega

theorem not_mem_of_mem {m m' k : ℕ} {e : ℤ} {q : ℚ} (h : IsMantissa m e)
    (h' : IsMantissa m' (e + k)) (hlt : 0 < k ∨ m < m') (hq : (interval m e).Mem q) :
    ¬(interval m' (e + k)).Mem q := by
  intro hq'
  have hunit : (0 : ℚ) < 2 ^ (e - 2) := by positivity
  have hscale : (2 : ℚ) ^ (e + k - 2) = 2 ^ k * 2 ^ (e - 2) := by
    rw [add_sub_right_comm, zpow_add₀ (by norm_num), zpow_natCast, mul_comm]
  have hhigh := (mem_interval hq).2
  have hlow := (mem_interval hq').1
  rcases gap h h' hlt with hgap | ⟨hgap, hodd⟩
  · have hgap' : ((4 * m + 2 : ℕ) : ℚ) < (4 * m' - below m' (e + k) : ℕ) * 2 ^ k := by
      exact_mod_cast hgap
    have hle := hlow.trans hhigh
    rw [hscale, ← mul_assoc, mul_le_mul_iff_left₀ hunit] at hle
    exact hle.not_gt hgap'
  · have hend : ((4 * m' - below m' (e + k) : ℕ) : ℚ) * 2 ^ (e + k - 2) =
        (4 * m + 2 : ℕ) * 2 ^ (e - 2) := by
      rw [hgap, hscale]
      push_cast
      rw [mul_assoc]
    -- an odd mantissa leaves the common end out
    rw [mem_interval_iff] at hq hq'
    rcases hodd with hodd | hodd
    · rw [if_neg (by omega)] at hq
      exact (hend ▸ hlow).not_gt hq.2
    · rw [if_neg (by omega)] at hq'
      exact hhigh.not_gt (hend ▸ hq'.1)

/-- No number rounds to two doubles. -/
theorem interval_apart {m m' : ℕ} {e e' : ℤ} {q : ℚ} (h : IsMantissa m e) (h' : IsMantissa m' e')
    (hq : (interval m e).Mem q) (hq' : (interval m' e').Mem q) : m = m' ∧ e = e' := by
  have hside {m m' : ℕ} {e e' : ℤ} (h : IsMantissa m e) (h' : IsMantissa m' e')
      (hq : (interval m e).Mem q) (hq' : (interval m' e').Mem q) (he : e ≤ e') :
      m' ≤ m ∧ e = e' := by
    obtain ⟨k, rfl⟩ := Int.le.dest he
    have hnot : ¬(0 < k ∨ m < m') := fun hlt => not_mem_of_mem h h' hlt hq hq'
    omega
  rcases le_total e e' with he | he
  · obtain ⟨hm, rfl⟩ := hside h h' hq hq' he
    exact ⟨le_antisymm (hside h' h hq' hq (le_refl e)).1 hm, rfl⟩
  · obtain ⟨hm, rfl⟩ := hside h' h hq' hq he
    exact ⟨le_antisymm hm (hside h h' hq hq' (le_refl e')).1, rfl⟩

/-! ### The search -/

/-- A number is in the interval if it is no farther from the double than half a unit of the
seventeenth digit. -/
theorem mem_interval_of_near {q : ℚ} (h : IsMantissa m e) (hm : m ≠ 0)
    (hlow : m * 2 ^ e - q ≤ m * 2 ^ e / (2 * 10 ^ 16))
    (hhigh : q - m * 2 ^ e ≤ m * 2 ^ e / (2 * 10 ^ 16)) : (interval m e).Mem q := by
  have hunit : (0 : ℚ) < 2 ^ (e - 2) := by positivity
  rw [← four_mul_two_zpow] at hlow hhigh
  have hbound : (m : ℚ) * 2 ^ (e - 2) < 2 ^ 53 * 2 ^ (e - 2) := by
    have hlt : (m : ℚ) < 2 ^ 53 := by exact_mod_cast h.lt
    exact mul_lt_mul_of_pos_right hlt hunit
  have habove : q < (4 * m + 2 : ℕ) * 2 ^ (e - 2) := by
    push_cast
    linarith
  have hbelow : ((4 * m - below m e : ℕ) : ℚ) * 2 ^ (e - 2) < q := by
    by_cases hpower : (m = fractions && -1074 < e) = true
    · have hm' : (m : ℚ) = 2 ^ 52 := by
        simp only [Bool.and_eq_true, decide_eq_true_eq] at hpower
        rw [hpower.1]
        norm_num [fractions]
      rw [below, if_pos hpower, Nat.cast_sub (by omega)]
      push_cast
      rw [hm'] at hlow ⊢
      linarith
    · rw [below, if_neg hpower, Nat.cast_sub (by omega)]
      push_cast
      linarith
  rw [mem_interval_iff]
  split
  · exact ⟨hbelow.le, habove.le⟩
  · exact ⟨hbelow, habove⟩

namespace Interval

variable {i : Interval} {tieUp : Bool} {p : ℤ}

theorem holds_of_nearest? (h : i.nearest? tieUp p = some n) : i.holds n p = true ∧ n ≠ 0 := by
  simp only [nearest?] at h
  split at h
  · next h₁ h₂ =>
    rw [Bool.and_eq_true, bne_iff_ne] at h₁
    cases h
    split
    · exact ⟨h₂, Nat.succ_ne_zero _⟩
    · exact h₁
  · next h₁ h₂ =>
    rw [Bool.and_eq_true, bne_iff_ne] at h₁
    cases h
    exact h₁
  · next h₁ h₂ =>
    cases h
    exact ⟨h₂, Nat.succ_ne_zero _⟩
  · cases h

/-- The multiples of `10 ^ p` on both sides of the value. -/
theorem exists_grid (tieUp : Bool) (hden : 0 < i.den) (p : ℤ) : ∃ n : ℕ,
    (n * 10 ^ p : ℚ) ≤ i.value / i.den ∧ (i.value / i.den : ℚ) < (n + 1 : ℕ) * 10 ^ p ∧
    (i.holds n p = true ∧ n ≠ 0 ∨ i.holds (n + 1) p = true → (i.nearest? tieUp p).isSome) := by
  have hstep : 0 < i.den * Nat.pow 10 p.toNat := Nat.mul_pos hden (Nat.pow_pos (by decide))
  refine ⟨i.value * Nat.pow 10 (-p).toNat / (i.den * Nat.pow 10 p.toNat), ?_, ?_, ?_⟩
  · rw [le_div_iff hden, Nat.mul_assoc, Nat.mul_comm _ i.den]
    exact Nat.div_mul_le_self _ _
  · rw [← not_le, le_div_iff hden, Nat.mul_assoc, Nat.mul_comm _ i.den, not_le]
    exact (Nat.div_lt_iff_lt_mul hstep).1 (Nat.lt_succ_self _)
  · intro h
    rw [← bne_iff_ne, ← Bool.and_eq_true] at h
    simp only [nearest?]
    split
    · rfl
    · rfl
    · rfl
    · next h₁ h₂ =>
      rw [h₁, h₂] at h
      simp at h

theorem holds_search {fuel : ℕ} (h : ∃ k : ℕ, k < fuel ∧ (i.nearest? tieUp (p - k)).isSome) :
    i.holds (i.search tieUp fuel p).1 (i.search tieUp fuel p).2 = true ∧
      (i.search tieUp fuel p).1 ≠ 0 := by
  obtain ⟨k, hk, hsome⟩ := h
  induction fuel generalizing p k with
  | zero => omega
  | succ fuel ih =>
    rw [search]
    split
    · next h => exact holds_of_nearest? h
    · next h =>
      cases k with
      | zero => simp_all
      | succ k => exact ih k (by omega) (by rwa [show p - 1 - (k : ℤ) = p - (k + 1 : ℕ) by omega])

end Interval

/-- The nearest number of seventeen digits reads back. -/
theorem isSome_nearest? (tieUp : Bool) {p : ℤ} (h : IsMantissa m e) (hm : m ≠ 0)
    (hp : (10 : ℚ) ^ 16 * 10 ^ p ≤ m * 2 ^ e) : ((interval m e).nearest? tieUp p).isSome := by
  obtain ⟨n, hlow, hhigh, hsome⟩ :=
    (interval m e).exists_grid tieUp (interval_den_pos m e) p
  have hstep : (0 : ℚ) < 10 ^ p := by positivity
  rw [interval_value] at hlow hhigh
  push_cast at hhigh
  refine hsome ?_
  rw [Interval.holds_iff_mem (interval_den_pos m e), Interval.holds_iff_mem (interval_den_pos m e)]
  by_cases hnear : m * 2 ^ e - n * 10 ^ p ≤ (10 ^ p / 2 : ℚ)
  · refine .inl ⟨mem_interval_of_near h hm (by linarith) (by linarith), ?_⟩
    rintro rfl
    norm_num at hhigh
    linarith
  · refine .inr (mem_interval_of_near h hm ?_ ?_)
    · push_cast
      linarith
    · push_cast
      linarith

theorem pow_length_toDigits_le (hn : n ≠ 0) : 10 ^ ((Nat.toDigits 10 n).length - 1) ≤ n := by
  by_cases hlen : (Nat.toDigits 10 n).length = 1
  · rw [hlen]
    exact Nat.one_le_iff_ne_zero.2 hn
  · have hpos := Nat.length_toDigits_pos (b := 10) (n := n)
    have hnot : ¬(Nat.toDigits 10 n).length ≤ (Nat.toDigits 10 n).length - 1 := by omega
    rw [Nat.length_toDigits_le_iff (by decide) (by omega)] at hnot
    omega

theorem lt_pow_length_toDigits (n : ℕ) : n < 10 ^ (Nat.toDigits 10 n).length :=
  (Nat.length_toDigits_le_iff (by decide) Nat.length_toDigits_pos).1 le_rfl

theorem Interval.zpow_magnitude_le {i : Interval} (hden : 0 < i.den) (hvalue : 0 < i.value) :
    (10 : ℚ) ^ (i.magnitude - 1) ≤ i.value / i.den := by
  have hden' : (0 : ℚ) < i.den := by exact_mod_cast hden
  simp only [magnitude]
  split
  · next h =>
    have hpos := Nat.length_toDigits_pos (b := 10) (n := i.value / i.den)
    have hle := pow_length_toDigits_le (n := i.value / i.den) (Nat.div_pos h hden).ne'
    rw [show ((Nat.toDigits 10 (i.value / i.den)).length : ℤ) - 1 =
      ((Nat.toDigits 10 (i.value / i.den)).length - 1 : ℕ) by omega, zpow_natCast]
    calc (10 : ℚ) ^ ((Nat.toDigits 10 (i.value / i.den)).length - 1)
      _ ≤ (i.value / i.den : ℕ) := by exact_mod_cast hle
      _ ≤ i.value / i.den := Nat.cast_div_le
  · next h =>
    have hpos := Nat.length_toDigits_pos (b := 10) (n := i.den / i.value)
    have hlt := lt_pow_length_toDigits (i.den / i.value)
    rw [Nat.div_lt_iff_lt_mul hvalue] at hlt
    generalize (Nat.toDigits 10 (i.den / i.value)).length = guess at *
    rw [le_div_iff₀ hden']
    split
    · next hle =>
      rw [show (2 : ℤ) - guess - 1 = -((guess - 1 : ℕ) : ℤ) by omega, zpow_neg, zpow_natCast,
        inv_mul_le_iff₀ (by positivity), mul_comm]
      exact_mod_cast hle
    · rw [show (1 : ℤ) - guess - 1 = -(guess : ℤ) by omega, zpow_neg, zpow_natCast,
        inv_mul_le_iff₀ (by positivity)]
      exact_mod_cast hlt.le

/-- The digits that the search finds read back. -/
theorem mem_search (h : IsMantissa m e) (hm : m ≠ 0) (tieUp : Bool) :
    let i := interval m e
    let found := i.search tieUp 17 (i.magnitude - 1)
    i.Mem (found.1 * 10 ^ found.2) ∧ found.1 ≠ 0 := by
  have hden := interval_den_pos m e
  have hvalue : 0 < (interval m e).value :=
    Nat.mul_pos (Nat.mul_pos (by decide) (Nat.pos_of_ne_zero hm)) (Nat.pow_pos (by decide))
  have hp : (10 : ℚ) ^ 16 * 10 ^ ((interval m e).magnitude - 1 - (16 : ℕ)) ≤ m * 2 ^ e := by
    rw [← interval_value, ← zpow_natCast, ← zpow_add₀ (by norm_num), add_sub_cancel]
    exact Interval.zpow_magnitude_le hden hvalue
  have hfound := Interval.holds_search
    ⟨16, show 16 < 17 by decide, isSome_nearest? tieUp h hm hp⟩
  exact ⟨(Interval.holds_iff_mem hden).1 hfound.1, hfound.2⟩

end YamlQuery.Double

import YamlQuery.Double.Basic

/-!
# Proofs.Double.Rounding — integers beyond the signed 64-bit range as doubles

A quotient is rounded by at most one half (`two_mul_roundDiv_le`, `two_mul_le_roundDiv`).  The
doubles from `2 ^ 63` to `2 ^ 64` are multiples of 2048, and an integer between these becomes the
nearest of them (`ratio?_ofInt`).
-/

namespace YamlQuery.Double

theorem two_mul_roundDiv_le (num : Nat) {den : Nat} (hden : 0 < den) :
    2 * (roundDiv num den * den) ≤ 2 * num + den := by
  have hdiv := Nat.div_add_mod num den
  have hmod := Nat.mod_lt num hden
  rw [roundDiv]
  split
  · next h =>
    have hhalf : den ≤ 2 * (num % den) := by
      simp only [Bool.or_eq_true, Bool.and_eq_true, decide_eq_true_eq, beq_iff_eq] at h
      omega
    rw [Nat.add_mul, Nat.mul_comm (num / den)]
    omega
  · rw [Nat.mul_comm (num / den)]
    omega

theorem two_mul_le_roundDiv (num : Nat) {den : Nat} (hden : 0 < den) :
    2 * num ≤ 2 * (roundDiv num den * den) + den := by
  have hdiv := Nat.div_add_mod num den
  have hmod := Nat.mod_lt num hden
  rw [roundDiv]
  split
  · rw [Nat.add_mul, Nat.mul_comm (num / den)]
    omega
  · next h =>
    have hhalf : 2 * (num % den) ≤ den := by
      simp only [Bool.or_eq_true, Bool.and_eq_true, decide_eq_true_eq, beq_iff_eq] at h
      omega
    rw [Nat.mul_comm (num / den)]
    omega

theorem isFinite_iff (x : Double) : x.isFinite ↔ x.ratio?.isSome := by
  rw [isFinite, ratio?]
  cases x.shape <;> simp

theorem shape_ofMagnitude {n : Nat} (hlow : fractions ≤ n) (hhigh : n < infinityBits) :
    (ofMagnitude false n).shape =
      .finite false (n % fractions + fractions) (((n / fractions : Nat) : Int) - 1075) := by
  simp only [infinityBits, fractions] at hlow hhigh ⊢
  have hbits : (ofMagnitude false n).bits.toNat = n := Nat.mod_eq_of_lt (by simp; omega)
  have hnegative : ¬signWeight ≤ n := by
    rw [signWeight]
    omega
  have hbiased : n / 0x10000000000000 % 2048 = n / 0x10000000000000 := Nat.mod_eq_of_lt (by omega)
  simp only [shape, hbits, fractions, hbiased, hnegative, decide_false]
  rw [if_neg (by omega), if_neg (by omega)]

theorem exponentFor_eq {n : Nat} (hlow : 0x8000000000000000 ≤ n)
    (hhigh : n < 0x10000000000000000) : exponentFor n 1 = 11 := by
  have hlog : n.log2 = 63 := (Nat.log2_eq_iff (by omega)).2 ⟨hlow, hhigh⟩
  have hguess : max ((n.log2 : Int) - Nat.log2 1 - 53) (-1074) = 10 := by
    rw [hlog]
    decide
  have hfits : ¬n < 1 * Nat.pow 2 63 := Nat.not_lt.2 hlow
  rw [exponentFor, hguess]
  exact if_neg (by simpa using hfits)

theorem ofInt_eq {n : Nat} (hlow : 0x8000000000000000 ≤ n) (hhigh : n < 0x10000000000000000) :
    ofInt n = ofMagnitude false (1085 * fractions + roundDiv n 2048) := by
  have hle := two_mul_roundDiv_le n (show 0 < 2048 by decide)
  have hnegative : decide ((n : Int) < 0) = false := decide_eq_false (by omega)
  have hzero : ¬((n = 0 || (1 : Nat) = 0) = true) := by simp; omega
  rw [ofInt, hnegative, Int.natAbs_natCast, ofRatio, if_neg hzero, exponentFor_eq hlow hhigh]
  exact congrArg (ofMagnitude false) (Nat.min_eq_left (by
    show 1085 * fractions + roundDiv n 2048 ≤ infinityBits
    simp only [infinityBits, fractions]
    omega))

/-- An integer from `2 ^ 63` to `2 ^ 64` becomes the nearest multiple of 2048. -/
theorem ratio?_ofInt {n : Nat} (hlow : 0x8000000000000000 ≤ n) (hhigh : n < 0x10000000000000000) :
    (ofInt n).ratio? = some (false, roundDiv n 2048 * 2048, 1) := by
  have hle := two_mul_roundDiv_le n (show 0 < 2048 by decide)
  have hge := two_mul_le_roundDiv n (show 0 < 2048 by decide)
  rw [ratio?, ofInt_eq hlow hhigh]
  generalize roundDiv n 2048 = m at *
  rw [shape_ofMagnitude (by simp only [fractions]; omega)
    (by simp only [infinityBits, fractions]; omega)]
  by_cases hm : m = 0x20000000000000
  · subst hm
    rfl
  · have hquotient : (1085 * fractions + m) / fractions = 1086 := by
      simp only [fractions]
      omega
    have hremainder : (1085 * fractions + m) % fractions + fractions = m := by
      simp only [fractions]
      omega
    rw [hquotient, hremainder]
    rfl

end YamlQuery.Double

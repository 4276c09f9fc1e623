import Mathlib.Data.List.TakeWhile
import Mathlib.Tactic.Ring
import YamlQuery.Proofs.Double.Shortest

/-!
# Proofs.Double.Reading — digits as the layouts write them

However a layout puts the digits of a number, with a point or an exponent, they are read back as
that number (`exists_literal?_digits`).  So YAML writes doubles that are different keys in
different ways (`sameKey_of_write_eq`).
-/

namespace YamlQuery.Double

open YamlQuery.Text

/-! ### Digits -/

theorem toNat_of_isDigit {c : Char} (h : c.isDigit) : 48 ≤ c.toNat ∧ c.toNat ≤ 57 := by
  simpa [Char.isDigit, UInt32.le_iff_toNat_le] using h

theorem digitOf?_ten {c : Char} (h : c.isDigit) : digitOf? 10 c = some (c.toNat - '0'.toNat) := by
  have hrange := toNat_of_isDigit h
  have hlt : c.toNat - 48 < 10 := by omega
  simp [digitOf?, digit?, hrange, Option.filter, hlt]

theorem ofDigitChars_replicate (z init : ℕ) :
    Nat.ofDigitChars 10 (List.replicate z '0') init = init * 10 ^ z := by
  induction z generalizing init with
  | zero => simp
  | succ z ih =>
    rw [List.replicate_succ, Nat.ofDigitChars_cons, ih, pow_succ]
    simp
    ring

theorem exists_stripZeros (s : List Char) : ∃ z, s = stripZeros s ++ List.replicate z '0' := by
  refine ⟨(s.reverse.takeWhile (· == '0')).length, ?_⟩
  have hzeros : s.reverse.takeWhile (· == '0') =
      List.replicate (s.reverse.takeWhile (· == '0')).length '0' :=
    List.eq_replicate_of_mem fun c hc => by simpa using List.mem_takeWhile_imp hc
  have hsplit := congrArg List.reverse
    (List.takeWhile_append_dropWhile (p := (· == '0')) (l := s.reverse))
  rw [List.reverse_append, List.reverse_reverse, hzeros, List.reverse_replicate] at hsplit
  exact hsplit.symm

/-- The number that the digits write. -/
def Digits.value (d : Digits) : ℚ :=
  Nat.ofDigitChars 10 d.digits 0 * 10 ^ (d.exponent - d.digits.length)

theorem isDigit_of_mem_decimal {n : ℕ} {c : Char} (h : c ∈ decimal n) : c.isDigit :=
  Nat.isDigit_of_mem_toDigits (by decide) (by decide) h

theorem isDigit_of_mem_shortest {tieUp : Bool} {m : ℕ} {e : ℤ} {c : Char}
    (h : c ∈ (shortest tieUp m e).digits) : c.isDigit := by
  rw [shortest] at h
  split at h
  · simp_all
  · obtain ⟨z, hz⟩ := exists_stripZeros
      (decimal ((interval m e).search tieUp 17 ((interval m e).magnitude - 1)).1)
    exact isDigit_of_mem_decimal (hz ▸ List.mem_append_left _ h)

/-- The shortest digits write the number that the search finds. -/
theorem value_shortest {tieUp : Bool} {m : ℕ} {e : ℤ} (hm : m ≠ 0) :
    let found := (interval m e).search tieUp 17 ((interval m e).magnitude - 1)
    (shortest tieUp m e).value = found.1 * 10 ^ found.2 := by
  intro found
  obtain ⟨z, hz⟩ := exists_stripZeros (decimal found.1)
  have hnumber : Nat.ofDigitChars 10 (decimal found.1) 0 = found.1 :=
    Nat.ofDigitChars_toDigits (by decide) (by decide)
  have hlength := congrArg List.length hz
  rw [List.length_append, List.length_replicate] at hlength
  rw [hz, Nat.ofDigitChars_append, ofDigitChars_replicate] at hnumber
  have hshortest : shortest tieUp m e =
      ⟨stripZeros (decimal found.1), found.2 + (decimal found.1).length⟩ := if_neg hm
  have hexponent : found.2 + (decimal found.1).length - (stripZeros (decimal found.1)).length =
      found.2 + z := by
    omega
  simp only [Digits.value, hshortest, hexponent]
  rw [zpow_add₀ (by norm_num), zpow_natCast, mul_comm (10 ^ found.2), ← mul_assoc]
  exact_mod_cast congrArg (· * (10 : ℚ) ^ found.2) (congrArg (Nat.cast (R := ℚ)) hnumber)

theorem takeDigits_append {ds s : List Char} (hds : ∀ c ∈ ds, c.isDigit)
    (hs : ∀ c ∈ s.head?, digitOf? 10 c = none) (acc count : ℕ) :
    takeDigits acc count (ds ++ s) = (Nat.ofDigitChars 10 ds acc, count + ds.length, s) := by
  induction ds generalizing acc count with
  | nil =>
    cases s with
    | nil => rfl
    | cons c s => simp [takeDigits, hs c rfl]
  | cons c ds ih =>
    rw [List.forall_mem_cons] at hds
    rw [List.cons_append, takeDigits, digitOf?_ten hds.1]
    simp only []
    rw [ih hds.2, Nat.ofDigitChars_cons, List.length_cons, Nat.mul_comm acc]
    simp
    omega

/-! ### Literals -/

section

variable {ds fs s : List Char}

theorem literal?_whole (hds : ∀ c ∈ ds, c.isDigit) (hne : ds ≠ [])
    (hs : ∀ c ∈ s.head?, c = 'e') :
    literal? (ds ++ s) = (exponent? s).map fun e => (Nat.ofDigitChars 10 ds 0, e) := by
  have hnone : ∀ c ∈ s.head?, digitOf? 10 c = none := fun c hc => hs c hc ▸ by decide
  have hpos := List.length_pos_iff.2 hne
  rw [literal?, takeDigits_append hds hnone]
  cases s with
  | nil => simp [hne]
  | cons c s =>
    cases hs c rfl
    simp [hne]

theorem literal?_point (hds : ∀ c ∈ ds, c.isDigit) (hfs : ∀ c ∈ fs, c.isDigit) (hne : ds ≠ [])
    (hs : ∀ c ∈ s.head?, c = 'e') : literal? (ds ++ '.' :: (fs ++ s)) =
      (exponent? s).map fun e => (Nat.ofDigitChars 10 (ds ++ fs) 0, e - (fs.length : ℤ)) := by
  have hnone : ∀ c ∈ s.head?, digitOf? 10 c = none := fun c hc => hs c hc ▸ by decide
  have hpoint : ∀ c ∈ ('.' :: (fs ++ s)).head?, digitOf? 10 c = none := by
    simp
    decide
  have hpos := List.length_pos_iff.2 hne
  rw [literal?, takeDigits_append hds hpoint]
  simp only []
  rw [takeDigits_append hfs hnone, Nat.ofDigitChars_append]
  simp [hne]

theorem takeSign_of_isDigit {c : Char} (hc : c.isDigit) : takeSign (c :: s) = (false, c :: s) := by
  rw [takeSign]
  · intro s h
    cases h
    exact absurd hc (by decide)
  · intro s h
    cases h
    exact absurd hc (by decide)

theorem exists_decimal (n : ℕ) : ∃ c s, decimal n = c :: s ∧ c.isDigit := by
  obtain ⟨c, s, h⟩ := List.exists_cons_of_ne_nil (Nat.toDigits_ne_nil (n := n) (b := 10))
  exact ⟨c, s, h, isDigit_of_mem_decimal (h ▸ List.mem_cons_self)⟩

theorem takeDigits_decimal (n : ℕ) : takeDigits 0 0 (decimal n) = (n, (decimal n).length, []) := by
  have h := takeDigits_append (s := []) (fun c (hc : c ∈ decimal n) => isDigit_of_mem_decimal hc)
    (by simp) 0 0
  rw [List.append_nil] at h
  rw [h, Nat.zero_add]
  exact congrArg (·, (decimal n).length, []) (Nat.ofDigitChars_toDigits (by decide) (by decide))

theorem exponent?_decimalInt {plus : List Char} (hplus : plus = [] ∨ plus = ['+']) (e : ℤ) :
    exponent? ('e' :: ((if e < 0 then [] else plus) ++ decimalInt e)) = some e := by
  obtain ⟨c, s, hs, hc⟩ := exists_decimal e.natAbs
  have hlength : (decimal e.natAbs).length = s.length + 1 := by rw [hs, List.length_cons]
  have hsign : takeSign ((if e < 0 then [] else plus) ++ decimalInt e) =
      (decide (e < 0), decimal e.natAbs) := by
    cases e with
    | ofNat n =>
      have hnonneg : ¬Int.ofNat n < 0 := not_lt.2 (Int.natCast_nonneg n)
      rw [Int.natAbs_ofNat'] at hs ⊢
      rw [if_neg hnonneg, decide_eq_false hnonneg, decimalInt, hs]
      rcases hplus with rfl | rfl
      · exact takeSign_of_isDigit hc
      · rfl
    | negSucc n =>
      rw [if_pos (Int.negSucc_lt_zero n), decide_eq_true (Int.negSucc_lt_zero n)]
      rfl
  rw [exponent?, if_pos (by decide), hsign]
  simp only []
  rw [takeDigits_decimal, hlength]
  show some (if decide (e < 0) = true then -(e.natAbs : ℤ) else e.natAbs) = some e
  rw [Option.some.injEq]
  split
  · next he =>
    rw [decide_eq_true_eq] at he
    omega
  · next he =>
    rw [decide_eq_true_eq] at he
    omega

end

/-! ### Layouts -/

section

variable {d : Digits}

/-- Zeros behind the digits count as powers of ten. -/
theorem value_eq {n z : ℕ} {p : ℤ} (hn : n = Nat.ofDigitChars 10 d.digits 0 * 10 ^ z)
    (hp : p + z = d.exponent - d.digits.length) : (n * 10 ^ p : ℚ) = d.value := by
  rw [Digits.value, ← hp, zpow_add₀ (by norm_num), zpow_natCast, hn]
  push_cast
  ring

theorem exists_literal?_plain (hd : ∀ c ∈ d.digits, c.isDigit) (hne : d.digits ≠ [])
    (point : Bool) : ∃ (n : ℕ) (p : ℤ), literal? (Layout.plain point d) = some (n, p) ∧
      (n * 10 ^ p : ℚ) = d.value := by
  have hzeros (z : ℕ) : ∀ c ∈ List.replicate z '0', c.isDigit := fun c hc => by
    rw [List.eq_of_mem_replicate hc]
    rfl
  rw [Layout.plain]
  split
  · have hfs : ∀ c ∈ List.replicate (-d.exponent).toNat '0' ++ d.digits, c.isDigit := fun c hc =>
      (List.mem_append.1 hc).elim (hzeros _ c) (hd c)
    have h := literal?_point (s := []) (hzeros 1) hfs (by simp) (by simp)
    rw [List.append_nil] at h
    refine ⟨_, _, h, value_eq (z := 0) ?_ ?_⟩
    · rw [← List.append_assoc, List.replicate_append_replicate, Nat.ofDigitChars_append,
        ofDigitChars_replicate, Nat.zero_mul, pow_zero, Nat.mul_one]
    · rw [List.length_append, List.length_replicate]
      omega
  · split
    · have hds : ∀ c ∈ d.digits ++ List.replicate (d.exponent.toNat - d.digits.length) '0',
          c.isDigit := fun c hc => (List.mem_append.1 hc).elim (hd c) (hzeros _ c)
      have hne' : d.digits ++ List.replicate (d.exponent.toNat - d.digits.length) '0' ≠ [] :=
        fun h => hne (List.append_eq_nil_iff.1 h).1
      cases point with
      | true =>
        refine ⟨_, _, literal?_point (s := []) hds (hzeros 1) hne' (by simp),
          value_eq (z := d.exponent.toNat - d.digits.length + 1) ?_ ?_⟩
        · rw [List.append_assoc, List.replicate_append_replicate, Nat.ofDigitChars_append,
            ofDigitChars_replicate]
        · simp
          omega
      | false =>
        refine ⟨_, _, literal?_whole (s := []) hds hne' (by simp),
          value_eq (z := d.exponent.toNat - d.digits.length) ?_ ?_⟩
        · rw [Nat.ofDigitChars_append, ofDigitChars_replicate]
        · omega
    · have htake : d.digits.take d.exponent.toNat ≠ [] := by
        rw [Ne, List.take_eq_nil_iff, not_or]
        exact ⟨by omega, hne⟩
      have hdrop : ∀ c ∈ d.digits.drop d.exponent.toNat, c.isDigit :=
        fun c hc => hd c (List.mem_of_mem_drop hc)
      have h := literal?_point (s := []) (fun c hc => hd c (List.mem_of_mem_take hc)) hdrop htake
        (by simp)
      rw [List.append_nil] at h
      refine ⟨_, _, h, value_eq (z := 0) ?_ ?_⟩
      · rw [List.take_append_drop, pow_zero, Nat.mul_one]
      · rw [List.length_drop]
        omega

theorem exists_literal?_scientific (hd : ∀ c ∈ d.digits, c.isDigit) (hne : d.digits ≠ [])
    {plus : String} (hplus : plus = "" ∨ plus = "+") :
    ∃ (n : ℕ) (p : ℤ), literal? (Layout.scientific plus d) = some (n, p) ∧
      (n * 10 ^ p : ℚ) = d.value := by
  obtain ⟨c, fraction, hdigits⟩ := List.exists_cons_of_ne_nil hne
  have hplus' : plus.toList = [] ∨ plus.toList = ['+'] := by
    rcases hplus with rfl | rfl
    · exact .inl rfl
    · exact .inr rfl
  rw [hdigits, List.forall_mem_cons] at hd
  have hc : ∀ c' ∈ [c], c'.isDigit := by simpa using hd.1
  rw [Layout.scientific, hdigits]
  simp only [List.take_succ_cons, List.take_zero, List.drop_succ_cons, List.drop_zero]
  have hexponent := exponent?_decimalInt hplus' (d.exponent - 1)
  cases fraction with
  | nil =>
    have h := literal?_whole (s := 'e' :: ((if d.exponent - 1 < 0 then [] else plus.toList) ++
      decimalInt (d.exponent - 1))) hc (List.cons_ne_nil _ _) (by simp)
    rw [hexponent] at h
    refine ⟨_, _, h, value_eq (z := 0) ?_ ?_⟩
    · rw [hdigits, pow_zero, Nat.mul_one]
    · simp [hdigits]
  | cons c' s =>
    have h := literal?_point (s := 'e' :: ((if d.exponent - 1 < 0 then [] else plus.toList) ++
      decimalInt (d.exponent - 1))) hc hd.2 (List.cons_ne_nil _ _) (by simp)
    rw [hexponent] at h
    refine ⟨Nat.ofDigitChars 10 ([c] ++ c' :: s) 0, d.exponent - 1 - ((c' :: s).length : ℤ), ?_,
      value_eq (z := 0) ?_ ?_⟩
    · simpa using h
    · rw [hdigits, pow_zero, Nat.mul_one]
      rfl
    · simp [hdigits]
      omega

/-- Digits are read back as the number they write. -/
theorem exists_literal?_digits (hd : ∀ c ∈ d.digits, c.isDigit) (hne : d.digits ≠ [])
    {l : Layout} (hplus : l.plus = "" ∨ l.plus = "+") :
    ∃ (n : ℕ) (p : ℤ), literal? (l.digits d) = some (n, p) ∧ (n * 10 ^ p : ℚ) = d.value := by
  rw [Layout.digits]
  split
  · exact exists_literal?_plain hd hne l.point
  · split
    · exact exists_literal?_plain hd hne l.point
    · exact exists_literal?_scientific hd hne hplus

theorem exists_cons_digits (hd : ∀ c ∈ d.digits, c.isDigit) (hne : d.digits ≠ []) (l : Layout) :
    ∃ c s, l.digits d = c :: s ∧ c.isDigit := by
  obtain ⟨c, s, hdigits⟩ := List.exists_cons_of_ne_nil hne
  have hc : c.isDigit := hd c (hdigits ▸ List.mem_cons_self)
  have hplain : ∃ c s, Layout.plain l.point d = c :: s ∧ c.isDigit := by
    rw [Layout.plain]
    split
    · exact ⟨'0', _, rfl, rfl⟩
    · split
      · exact ⟨c, _, by rw [hdigits]; rfl, hc⟩
      · obtain ⟨k, hk⟩ : ∃ k, d.exponent.toNat = k + 1 := ⟨d.exponent.toNat - 1, by omega⟩
        exact ⟨c, _, by rw [hdigits, hk]; rfl, hc⟩
  rw [Layout.digits]
  split
  · exact hplain
  · split
    · exact hplain
    · exact ⟨c, _, by rw [Layout.scientific, hdigits]; rfl, hc⟩

end

/-! ### Doubles -/

section

variable {m m' : ℕ} {e e' : ℤ} (tieUp : Bool)

theorem value_shortest_zero (e : ℤ) : (shortest tieUp 0 e).value = 0 := by
  have hzero : Nat.ofDigitChars 10 ['0'] 0 = 0 := rfl
  simp [shortest, Digits.value, hzero]

theorem value_shortest_ne_zero (h : IsMantissa m e) (hm : m ≠ 0) :
    (shortest tieUp m e).value ≠ 0 := by
  rw [value_shortest hm]
  have hfound := (mem_search h hm tieUp).2
  positivity

theorem digits_shortest_ne_nil (h : IsMantissa m e) : (shortest tieUp m e).digits ≠ [] := by
  by_cases hm : m = 0
  · simp [shortest, hm]
  · intro hnil
    refine value_shortest_ne_zero tieUp h hm ?_
    simp [Digits.value, hnil]

/-- The shortest digits of two doubles write one number only if the doubles are the same, or both
are zeros. -/
theorem eq_of_value_shortest_eq (h : IsMantissa m e) (h' : IsMantissa m' e')
    (hvalue : (shortest tieUp m e).value = (shortest tieUp m' e').value) :
    m = 0 ∧ m' = 0 ∨ m = m' ∧ e = e' := by
  by_cases hm : m = 0
  · subst hm
    rw [value_shortest_zero] at hvalue
    exact .inl ⟨rfl, by_contra fun hm' => value_shortest_ne_zero tieUp h' hm' hvalue.symm⟩
  · by_cases hm' : m' = 0
    · subst hm'
      rw [value_shortest_zero] at hvalue
      exact absurd hvalue (value_shortest_ne_zero tieUp h hm)
    · rw [value_shortest hm, value_shortest hm'] at hvalue
      have hmem := (mem_search h hm tieUp).1
      have hmem' := (mem_search h' hm' tieUp).1
      rw [← hvalue] at hmem'
      exact .inr (interval_apart h h' hmem hmem')

end

/-- A finite double is read back from its text: its sign, and the number its digits write. -/
theorem exists_literal?_write {l : Layout} (hplus : l.plus = "" ∨ l.plus = "+") {x : Double}
    {negative : Bool} {m : ℕ} {e : ℤ} (hx : x.shape = .finite negative m e) :
    ∃ (s : List Char) (n : ℕ) (p : ℤ), takeSign (l.write x) = (negative, s) ∧
      literal? s = some (n, p) ∧ (n * 10 ^ p : ℚ) = (shortest l.tieUp m e).value := by
  have hm := isMantissa_of_shape hx
  have hd (c : Char) : c ∈ (shortest l.tieUp m e).digits → c.isDigit := isDigit_of_mem_shortest
  have hne := digits_shortest_ne_nil l.tieUp hm
  obtain ⟨n, p, hread, hvalue⟩ := exists_literal?_digits hd hne hplus
  obtain ⟨c, s, hcons, hc⟩ := exists_cons_digits hd hne l
  refine ⟨l.digits (shortest l.tieUp m e), n, p, ?_, hread, hvalue⟩
  rw [Layout.write, hx]
  cases negative with
  | true => rfl
  | false =>
    show takeSign (l.digits (shortest l.tieUp m e)) = _
    rw [hcons]
    exact takeSign_of_isDigit hc

theorem exists_shape {x : Double} (hx : x.isFinite) :
    ∃ negative m e, x.shape = .finite negative m e := by
  rw [isFinite] at hx
  cases hshape : x.shape with
  | finite negative m e => exact ⟨negative, m, e, rfl⟩
  | nan => simp [hshape] at hx
  | infinite negative => simp [hshape] at hx

/-- The texts of the doubles that are not finite. -/
theorem write_of_not_finite {x : Double} (hx : ¬x.isFinite) :
    x.shape = .nan ∧ Layout.yaml.write x = ['.', 'n', 'a', 'n'] ∨
    x.shape = .infinite false ∧ Layout.yaml.write x = ['.', 'i', 'n', 'f'] ∨
    x.shape = .infinite true ∧ Layout.yaml.write x = ['-', '.', 'i', 'n', 'f'] := by
  rw [isFinite] at hx
  rw [Layout.write]
  cases hshape : x.shape with
  | nan => exact .inl ⟨rfl, rfl⟩
  | infinite negative =>
    cases negative with
    | false => exact .inr (.inl ⟨rfl, rfl⟩)
    | true => exact .inr (.inr ⟨rfl, rfl⟩)
  | finite negative m e => simp [hshape] at hx

theorem literal?_write_of_not_finite {x : Double} (hx : ¬x.isFinite) :
    literal? (takeSign (Layout.yaml.write x)).2 = none := by
  rcases write_of_not_finite hx with ⟨-, h⟩ | ⟨-, h⟩ | ⟨-, h⟩ <;> rw [h] <;> decide

theorem isFinite_of_write_eq {x y : Double} (h : Layout.yaml.write x = Layout.yaml.write y)
    (hx : x.isFinite) : y.isFinite := by
  by_contra hy
  obtain ⟨negative, m, e, hx⟩ := exists_shape hx
  obtain ⟨s, n, p, hsign, hread, -⟩ := exists_literal?_write (l := .yaml) (.inl rfl) hx
  have hnone := literal?_write_of_not_finite hy
  rw [← h, hsign, hread] at hnone
  cases hnone

/-- **Doubles that YAML writes in one way are one key.** -/
theorem sameKey_of_write_eq {x y : Double} (h : Layout.yaml.write x = Layout.yaml.write y) :
    x.sameKey y := by
  by_cases hfinite : x.isFinite
  · obtain ⟨negative, m, e, hx⟩ := exists_shape hfinite
    obtain ⟨negative', m', e', hy⟩ := exists_shape (isFinite_of_write_eq h hfinite)
    obtain ⟨s, n, p, hsign, hread, hvalue⟩ := exists_literal?_write (l := .yaml) (.inl rfl) hx
    obtain ⟨s', n', p', hsign', hread', hvalue'⟩ := exists_literal?_write (l := .yaml) (.inl rfl) hy
    rw [h, hsign', Prod.mk.injEq] at hsign
    obtain ⟨rfl, rfl⟩ := hsign
    rw [hread', Option.some.injEq, Prod.mk.injEq] at hread
    obtain ⟨rfl, rfl⟩ := hread
    rw [sameKey, hx, hy]
    rcases eq_of_value_shortest_eq false (isMantissa_of_shape hx) (isMantissa_of_shape hy)
      (hvalue.symm.trans hvalue') with ⟨rfl, rfl⟩ | ⟨rfl, rfl⟩
    · rfl
    · cases m <;> simp
  · have hfinite' : ¬y.isFinite := mt (isFinite_of_write_eq h.symm) hfinite
    rw [sameKey]
    rcases write_of_not_finite hfinite with ⟨hx, hw⟩ | ⟨hx, hw⟩ | ⟨hx, hw⟩ <;>
    rcases write_of_not_finite hfinite' with ⟨hy, hw'⟩ | ⟨hy, hw'⟩ | ⟨hy, hw'⟩ <;>
    rw [hw, hw'] at h <;> simp_all

/-- The text of a double starts as a number does. -/
theorem exists_cons_write (x : Double) :
    ∃ c s, Layout.yaml.write x = c :: s ∧ (c.isDigit ∨ c = '-' ∨ c = '.') := by
  by_cases hfinite : x.isFinite
  · obtain ⟨negative, m, e, hx⟩ := exists_shape hfinite
    have hd (c : Char) : c ∈ (shortest false m e).digits → c.isDigit := isDigit_of_mem_shortest
    have hne := digits_shortest_ne_nil false (isMantissa_of_shape hx)
    obtain ⟨c, s, hcons, hc⟩ := exists_cons_digits hd hne .yaml
    rw [Layout.write, hx]
    cases negative with
    | true => exact ⟨'-', _, rfl, .inr (.inl rfl)⟩
    | false => exact ⟨c, s, hcons, .inl hc⟩
  · rcases write_of_not_finite hfinite with ⟨-, h⟩ | ⟨-, h⟩ | ⟨-, h⟩
    · exact ⟨_, _, h, .inr (.inr rfl)⟩
    · exact ⟨_, _, h, .inr (.inr rfl)⟩
    · exact ⟨_, _, h, .inr (.inl rfl)⟩

/-- The text of a double has a point or an exponent. -/
theorem point_or_exponent_mem_write (x : Double) :
    '.' ∈ Layout.yaml.write x ∨ 'e' ∈ Layout.yaml.write x := by
  by_cases hfinite : x.isFinite
  · obtain ⟨negative, m, e, hx⟩ := exists_shape hfinite
    have hdigits (d : Digits) : '.' ∈ Layout.yaml.digits d ∨ 'e' ∈ Layout.yaml.digits d := by
      simp only [Layout.digits, Layout.yaml]
      split
      · left
        rw [Layout.plain]
        split
        · simp
        · split <;> simp
      · right
        simp [Layout.scientific]
    rw [Layout.write, hx]
    exact (hdigits _).imp (List.mem_append_right _) (List.mem_append_right _)
  · left
    rcases write_of_not_finite hfinite with ⟨-, h⟩ | ⟨-, h⟩ | ⟨-, h⟩ <;> rw [h] <;> decide

/-! ### Integers -/

theorem exists_cons_decimalInt (i : ℤ) :
    ∃ c s, decimalInt i = c :: s ∧ (c.isDigit ∨ c = '-' ∨ c = '.') := by
  cases i with
  | ofNat n =>
    obtain ⟨c, s, h, hc⟩ := exists_decimal n
    exact ⟨c, s, h, .inl hc⟩
  | negSucc n => exact ⟨'-', _, rfl, .inr (.inl rfl)⟩

theorem isDigit_of_mem_decimalInt {i : ℤ} {c : Char} (h : c ∈ decimalInt i) :
    c.isDigit ∨ c = '-' := by
  cases i with
  | ofNat n => exact .inl (isDigit_of_mem_decimal h)
  | negSucc n => exact (List.mem_cons.1 h).symm.imp_left isDigit_of_mem_decimal

theorem decimal_injective {m n : ℕ} (h : decimal m = decimal n) : m = n := by
  have hread := congrArg (fun s => takeDigits 0 0 s) h
  rw [takeDigits_decimal, takeDigits_decimal, Prod.mk.injEq] at hread
  exact hread.1

theorem decimalInt_injective {i j : ℤ} (h : decimalInt i = decimalInt j) : i = j := by
  have hminus (m n : ℕ) : decimalInt (.ofNat m) ≠ decimalInt (.negSucc n) := by
    intro h
    have hmem : '-' ∈ decimal m := by
      rw [show decimal m = decimalInt (.negSucc n) from h]
      exact List.mem_cons_self
    exact absurd (isDigit_of_mem_decimal hmem) (by decide)
  cases i with
  | ofNat m =>
    cases j with
    | ofNat n => rw [decimal_injective h]
    | negSucc n => exact absurd h (hminus m n)
  | negSucc m =>
    cases j with
    | ofNat n => exact absurd h.symm (hminus n m)
    | negSucc n => rw [Nat.succ.inj (decimal_injective (List.cons.inj h).2)]

theorem decimalInt_ne_write (i : ℤ) (x : Double) : decimalInt i ≠ Layout.yaml.write x := by
  intro h
  rcases point_or_exponent_mem_write x with hmem | hmem
  · rw [← h] at hmem
    exact absurd (isDigit_of_mem_decimalInt hmem) (by decide)
  · rw [← h] at hmem
    exact absurd (isDigit_of_mem_decimalInt hmem) (by decide)

end YamlQuery.Double

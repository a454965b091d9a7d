import Mathlib.Algebra.Order.Field.Power
import Mathlib.Algebra.Order.Ring.Rat
import Mathlib.Tactic.Ring
import ScriptCore.Double

/-!
# The value of a number

A finite number denotes a rational. Apart from the two zeros no rational has two bit patterns, and
`exactInt?` reads off the integer exactly when the rational is one.

* `Double.value`: the rational that a finite number denotes;
* `eq_of_value_eq`: a value that is not zero has one bit pattern;
* `integral?_eq_some_iff`, `exactInt?_eq_some_iff`: the integer that a number denotes;
* `numEq_iff`: equality of numbers is equality of bits or of zeros.
-/

namespace ScriptCore

namespace Double

variable {x y : Double}

/-! ### Fields and bits -/

theorem fraction_lt (x : Double) : x.fraction < 2 ^ 52 := by
  unfold fraction
  exact Nat.mod_lt _ (by decide)

theorem exponentField_lt (x : Double) : x.exponentField < 2048 := Nat.mod_lt _ (by decide)

/-- A bit pattern is its three fields side by side. -/
theorem toNat_bits (x : Double) :
    x.bits.toNat = (if x.negative then 2 ^ 63 else 0) + x.exponentField * 2 ^ 52 + x.fraction := by
  have hlt : x.bits.toNat < 2 ^ 64 := x.bits.toNat_lt
  simp only [negative, exponentField, fraction, Nat.shiftRight_eq_div_pow, Nat.shiftLeft_eq,
    beq_iff_eq]
  split <;> omega

/-- Numbers with the same fields are the same. -/
theorem eq_of_fields (hnegative : x.negative = y.negative)
    (hexponent : x.exponentField = y.exponentField) (hfraction : x.fraction = y.fraction) :
    x = y := by
  have hbits : x.bits.toNat = y.bits.toNat := by
    rw [toNat_bits, toNat_bits, hnegative, hexponent, hfraction]
  obtain ⟨bits⟩ := x
  obtain ⟨bits'⟩ := y
  exact congrArg mk (UInt64.toNat_inj.1 hbits)

/-! ### Significand and scale -/

theorem mantissa_lt (x : Double) : x.mantissa < 2 ^ 53 := by
  have hlt := x.fraction_lt
  unfold mantissa
  split <;> omega

/-- Only numbers with the least scale lack the hidden bit. -/
theorem scale_eq_or_le_mantissa (x : Double) : x.scale = -1074 ∨ 2 ^ 52 ≤ x.mantissa := by
  unfold scale mantissa
  split
  · left
    omega
  · right
    omega

theorem neg_le_scale (x : Double) : -1074 ≤ x.scale := by
  unfold scale
  omega

theorem isZero_iff : x.isZero = true ↔ x.mantissa = 0 := by
  simp only [isZero, mantissa, Bool.and_eq_true, beq_iff_eq]
  split <;> omega

/-- Significand and scale determine the fields they are made of. -/
theorem fields_of_mantissa_scale (hmantissa : x.mantissa = y.mantissa)
    (hscale : x.scale = y.scale) : x.exponentField = y.exponentField ∧ x.fraction = y.fraction := by
  have hx := x.fraction_lt
  have hy := y.fraction_lt
  unfold mantissa at hmantissa
  unfold scale at hscale
  split at hmantissa <;> split at hmantissa <;> omega

/-! ### Values -/

/-- The sign as a factor. -/
def sign (x : Double) : Int := if x.negative then -1 else 1

/-- The rational that a finite number denotes. -/
def value (x : Double) : ℚ := x.sign * x.mantissa * 2 ^ x.scale

theorem abs_value (x : Double) : |x.value| = x.mantissa * 2 ^ x.scale := by
  have hsign : |(x.sign : ℚ)| = 1 := by
    unfold sign
    split <;> simp
  have hpow : (0 : ℚ) < 2 ^ x.scale := by positivity
  rw [value, abs_mul, abs_mul, hsign, one_mul, Nat.abs_cast, abs_of_pos hpow]

theorem value_eq_zero_iff : x.value = 0 ↔ x.isZero = true := by
  rw [isZero_iff, ← abs_eq_zero, abs_value]
  have hpow : (2 : ℚ) ^ x.scale ≠ 0 := by positivity
  rw [mul_eq_zero, or_iff_left hpow, Nat.cast_eq_zero]

/-- A number with a larger scale has a larger magnitude, as its hidden bit is set. -/
theorem abs_value_lt_of_scale_lt (h : x.scale < y.scale) : |x.value| < |y.value| := by
  have hleast := x.neg_le_scale
  have hhidden : 2 ^ 52 ≤ y.mantissa := y.scale_eq_or_le_mantissa.resolve_left (by omega)
  have hpow : (0 : ℚ) < 2 ^ x.scale := by positivity
  rw [abs_value, abs_value]
  calc (x.mantissa : ℚ) * 2 ^ x.scale
      < 2 ^ 53 * 2 ^ x.scale := by
        refine mul_lt_mul_of_pos_right ?_ hpow
        exact_mod_cast x.mantissa_lt
    _ = 2 ^ 52 * 2 ^ (x.scale + 1) := by
        rw [zpow_add_one₀ (by norm_num : (2 : ℚ) ≠ 0)]
        ring
    _ ≤ y.mantissa * 2 ^ y.scale := by
        refine mul_le_mul ?_ ?_ (by positivity) (Nat.cast_nonneg _)
        · exact_mod_cast hhidden
        · exact zpow_le_zpow_right₀ (by norm_num) (by omega)

/-- A value that is not zero has one bit pattern. -/
theorem eq_of_value_eq (h : x.value = y.value) (hzero : x.isZero = false) : x = y := by
  have habs : |x.value| = |y.value| := congrArg _ h
  have hscale : x.scale = y.scale := by
    rcases lt_trichotomy x.scale y.scale with hlt | heq | hlt
    · exact absurd habs (abs_value_lt_of_scale_lt hlt).ne
    · exact heq
    · exact absurd habs.symm (abs_value_lt_of_scale_lt hlt).ne
  have hpow : (2 : ℚ) ^ y.scale ≠ 0 := by positivity
  have hmantissa : x.mantissa = y.mantissa := by
    rw [abs_value, abs_value, hscale] at habs
    exact_mod_cast mul_right_cancel₀ hpow habs
  have hnegative : x.negative = y.negative := by
    have hne : (y.mantissa : ℚ) ≠ 0 := by
      rw [← hmantissa, Nat.cast_ne_zero]
      exact fun heq => Bool.false_ne_true (hzero.symm.trans (isZero_iff.2 heq))
    rw [value, value, hscale, hmantissa] at h
    have hsign : x.sign = y.sign := by
      exact_mod_cast mul_right_cancel₀ hne (mul_right_cancel₀ hpow h)
    unfold sign at hsign
    cases hx : x.negative <;> cases hy : y.negative <;> simp_all
  obtain ⟨hexponent, hfraction⟩ := fields_of_mantissa_scale hmantissa hscale
  exact eq_of_fields hnegative hexponent hfraction

/-! ### Integers -/

/-- A finite number is an integer exactly when its value is. -/
theorem integral?_eq_some_iff {n : Int} :
    x.integral? = some n ↔ x.isFinite = true ∧ x.value = n := by
  have hsigned : ∀ m : Nat, (if x.negative then -(m : Int) else m) = x.sign * m := by
    intro m
    unfold sign
    split <;> simp
  unfold integral?
  by_cases hfinite : x.isFinite = true
  · simp only [hfinite, if_true, hsigned, true_and, value]
    cases x.scale with
    | ofNat k =>
      rw [Option.some_inj, Nat.shiftLeft_eq, Int.ofNat_eq_natCast, zpow_natCast, mul_assoc]
      exact_mod_cast Iff.rfl
    | negSucc k =>
      have hpow : (2 : ℚ) ^ (k + 1) ≠ 0 := pow_ne_zero _ two_ne_zero
      have hvalue : ∀ n : Int, (x.sign : ℚ) * x.mantissa * 2 ^ Int.negSucc k = n ↔
          x.sign * x.mantissa = n * 2 ^ (k + 1) := by
        intro n
        rw [zpow_negSucc, ← div_eq_mul_inv, div_eq_iff hpow]
        exact_mod_cast Iff.rfl
      have hsquare : x.sign * x.sign = 1 := by
        unfold sign
        split <;> rfl
      simp only [hvalue, Nat.shiftLeft_eq, one_mul, Nat.shiftRight_eq_div_pow]
      split
      · rename_i hmod
        have hdvd : x.mantissa / 2 ^ (k + 1) * 2 ^ (k + 1) = x.mantissa :=
          Nat.div_mul_cancel (Nat.dvd_of_mod_eq_zero hmod)
        rw [Option.some_inj]
        constructor
        · rintro rfl
          rw [mul_assoc]
          exact_mod_cast congrArg (fun m : Nat => x.sign * (m : Int)) hdvd.symm
        · intro heq
          rw [← hdvd] at heq
          push_cast at heq
          rw [← mul_assoc] at heq
          exact_mod_cast mul_right_cancel₀ (pow_ne_zero _ two_ne_zero) heq
      · rename_i hmod
        refine iff_of_false (by simp) fun heq => hmod ?_
        have hmantissa : (x.mantissa : Int) = x.sign * n * 2 ^ (k + 1) := by
          rw [mul_assoc, ← heq, ← mul_assoc, hsquare, one_mul]
        refine Nat.mod_eq_zero_of_dvd (Int.natCast_dvd_natCast.1 ?_)
        rw [hmantissa]
        exact_mod_cast Dvd.intro_left _ rfl
  · simp [hfinite]


theorem toInt_of_checked? {n : Int} {m : Int64} (h : checked? n = some m) : n = m.toInt := by
  unfold checked? at h
  split at h
  · rename_i hrange
    cases h
    exact (Int64.toInt_ofInt_of_le hrange.1 (Int.lt_of_le_of_lt hrange.2 (by decide))).symm
  · cases h

theorem checked?_toInt (m : Int64) : checked? m.toInt = some m := by
  unfold checked?
  rw [if_pos ⟨Int64.minValue_le_toInt m, Int64.toInt_le m⟩, Int64.ofInt_toInt]

/-- The 64-bit integer that a number denotes. -/
theorem exactInt?_eq_some_iff {n : Int64} :
    x.exactInt? = some n ↔ x.isFinite = true ∧ x.value = n.toInt := by
  rw [exactInt?, Option.bind_eq_some_iff]
  constructor
  · rintro ⟨m, hm, hn⟩
    rw [toInt_of_checked? hn] at hm
    exact integral?_eq_some_iff.1 hm
  · intro h
    exact ⟨n.toInt, integral?_eq_some_iff.2 h, checked?_toInt n⟩

/-! ### Equality of numbers -/

theorem isNaN_eq_false_of_isFinite (h : x.isFinite = true) : x.isNaN = false := by
  simp only [isFinite, bne_iff_ne, ne_eq] at h
  simp [isNaN, h]

theorem isFinite_of_isZero (h : x.isZero = true) : x.isFinite = true := by
  simp only [isZero, Bool.and_eq_true, beq_iff_eq] at h
  simp [isFinite, h.1]

theorem numEq_iff : x.numEq y = true ↔
    x.isNaN = false ∧ (x = y ∨ x.isZero = true ∧ y.isZero = true) := by
  simp only [numEq, Bool.and_eq_true, Bool.not_eq_true', Bool.or_eq_true, beq_iff_eq]
  constructor
  · rintro ⟨⟨hx, -⟩, h⟩
    exact ⟨hx, h⟩
  · rintro ⟨hx, h⟩
    refine ⟨⟨hx, ?_⟩, h⟩
    rcases h with rfl | ⟨-, hy⟩
    · exact hx
    · exact isNaN_eq_false_of_isFinite (isFinite_of_isZero hy)

theorem numEq_comm (x y : Double) : x.numEq y = y.numEq x := by
  unfold numEq
  rw [Bool.and_comm (!x.isNaN), Bool.and_comm x.isZero, BEq.comm (a := x)]

theorem numEq_trans {z : Double} (hxy : x.numEq y = true) (hyz : y.numEq z = true) :
    x.numEq z = true := by
  obtain ⟨hx, hxy⟩ := numEq_iff.1 hxy
  obtain ⟨-, hyz⟩ := numEq_iff.1 hyz
  refine numEq_iff.2 ⟨hx, ?_⟩
  rcases hxy with rfl | ⟨hx, hy⟩
  · exact hyz
  · rcases hyz with rfl | ⟨-, hz⟩
    · exact .inr ⟨hx, hy⟩
    · exact .inr ⟨hx, hz⟩

/-- Both zeros denote the integer zero. -/
theorem exactInt?_of_isZero (h : x.isZero = true) : x.exactInt? = some 0 :=
  exactInt?_eq_some_iff.2 ⟨isFinite_of_isZero h, value_eq_zero_iff.2 h⟩

/-- Numbers that are equal denote the same integer, if any. -/
theorem exactInt?_eq_of_numEq (h : x.numEq y = true) : x.exactInt? = y.exactInt? := by
  rcases (numEq_iff.1 h).2 with rfl | ⟨hx, hy⟩
  · rfl
  · rw [exactInt?_of_isZero hx, exactInt?_of_isZero hy]

/-- Numbers that denote the same integer are equal. -/
theorem numEq_of_exactInt? {n : Int64} (hx : x.exactInt? = some n) (hy : y.exactInt? = some n) :
    x.numEq y = true := by
  obtain ⟨hfinite, hx⟩ := exactInt?_eq_some_iff.1 hx
  obtain ⟨-, hy⟩ := exactInt?_eq_some_iff.1 hy
  have hvalue : x.value = y.value := hx.trans hy.symm
  refine numEq_iff.2 ⟨isNaN_eq_false_of_isFinite hfinite, ?_⟩
  cases hzero : x.isZero with
  | false => exact .inl (eq_of_value_eq hvalue hzero)
  | true => exact .inr ⟨rfl, value_eq_zero_iff.1 (hvalue ▸ value_eq_zero_iff.2 hzero)⟩

end Double

end ScriptCore

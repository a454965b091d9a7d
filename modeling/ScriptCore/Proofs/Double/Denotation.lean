import ScriptCore.Proofs.Double.Exact
import ScriptCore.Heap.Equality

/-!
# What a bit pattern denotes

A bit pattern denotes a rational by the rule of the binary format: with sign `s`, exponent `e` and
fraction `f` it is `(-1) ^ s * (1 + f / 2 ^ 52) * 2 ^ (e - 1023)`, without the leading one and with
the least exponent if `e` is zero. Patterns with the greatest exponent denote nothing.

* `Double.Denotes`: the rule, field by field;
* `denotes_iff`: the significand and the scale of a number say the same;
* `truncated`, `saturated`: rounding towards zero, and the nearest 64-bit integer;
* `integers_read_exactly`: `exactInt?` reads off a 64-bit integer exactly if the pattern denotes it.
-/

namespace ScriptCore

namespace Double

variable {x : Double} {q q' : ℚ}

/-- The rational that a bit pattern denotes. -/
inductive Denotes (x : Double) : ℚ → Prop
  | subnormal {s f : ℕ} : s < 2 → f < 2 ^ 52 → x.bits.toNat = s * 2 ^ 63 + f →
      Denotes x ((-1) ^ s * (f / 2 ^ 52) * 2 ^ (-1022 : ℤ))
  | normal {s e f : ℕ} : s < 2 → 0 < e → e < 2047 → f < 2 ^ 52 →
      x.bits.toNat = s * 2 ^ 63 + e * 2 ^ 52 + f →
      Denotes x ((-1) ^ s * (1 + f / 2 ^ 52) * 2 ^ ((e : ℤ) - 1023))

/-! ### The rule by significand and scale -/

/-- The fields of a bit pattern are what it is composed of. -/
theorem fields_of_toNat_bits {s e f : ℕ} (hs : s < 2) (he : e < 2048) (hf : f < 2 ^ 52)
    (hbits : x.bits.toNat = s * 2 ^ 63 + e * 2 ^ 52 + f) :
    x.sign = (-1) ^ s ∧ x.exponentField = e ∧ x.fraction = f := by
  have hnegative : x.negative = decide (s = 1) := by
    simp only [negative, hbits, Nat.shiftRight_eq_div_pow, beq_eq_decide]
    congr 1
    simp only [eq_iff_iff]
    omega
  refine ⟨?_, ?_, ?_⟩
  · rw [sign, hnegative]
    obtain rfl | rfl : s = 0 ∨ s = 1 := by omega
    · rfl
    · rfl
  · simp only [exponentField, hbits, Nat.shiftRight_eq_div_pow]
    omega
  · simp only [fraction, hbits, Nat.shiftLeft_eq]
    omega

/-- Scales are counted from the last bit of the fraction, 52 places below the leading one. -/
theorem div_mul_two_zpow (m : ℚ) (e : ℤ) : m / 2 ^ 52 * 2 ^ e = m * 2 ^ (e - 52) := by
  rw [zpow_sub₀ two_ne_zero, div_mul_eq_mul_div, mul_div_assoc]
  rfl

theorem Denotes.value_eq (h : x.Denotes q) : x.isFinite = true ∧ x.value = q := by
  cases h with
  | @subnormal s f hs hf hbits =>
    rw [← add_zero (s * 2 ^ 63), ← zero_mul (2 ^ 52)] at hbits
    obtain ⟨hsign, hexponent, hfraction⟩ := fields_of_toNat_bits hs (by omega) hf hbits
    have hmantissa : x.mantissa = f := by rw [mantissa, if_pos hexponent, hfraction]
    have hscale : x.scale = -1022 - 52 := by
      unfold scale
      omega
    refine ⟨by simp [isFinite, hexponent], ?_⟩
    rw [value, hsign, hmantissa, hscale, mul_assoc, mul_assoc, div_mul_two_zpow, Int.cast_pow,
      Int.cast_neg, Int.cast_one]
  | @normal s e f hs hpos he hf hbits =>
    obtain ⟨hsign, hexponent, hfraction⟩ := fields_of_toNat_bits hs (by omega) hf hbits
    have hmantissa : x.mantissa = 2 ^ 52 + f := by
      rw [mantissa, if_neg (by omega), hfraction, Nat.shiftLeft_eq, one_mul]
    have hscale : x.scale = (e : ℤ) - 1023 - 52 := by
      unfold scale
      omega
    have hleading : (1 : ℚ) + f / 2 ^ 52 = (2 ^ 52 + f : ℕ) / 2 ^ 52 := by
      rw [Nat.cast_add, Nat.cast_pow, Nat.cast_ofNat, add_div,
        div_self (pow_ne_zero _ two_ne_zero)]
    refine ⟨by simp [isFinite, hexponent, he.ne], ?_⟩
    rw [value, hsign, hmantissa, hscale, hleading, mul_assoc, mul_assoc, div_mul_two_zpow,
      Int.cast_pow, Int.cast_neg, Int.cast_one]

/-- A finite number denotes something. -/
theorem exists_denotes (hx : x.isFinite = true) : ∃ q, x.Denotes q := by
  have hbits := x.toNat_bits
  have hlt := x.exponentField_lt
  have hne : x.exponentField ≠ 2047 := by simpa [isFinite] using hx
  let s : ℕ := if x.negative then 1 else 0
  have hs : s < 2 := by
    show (if x.negative then 1 else 0) < 2
    split <;> decide
  have hsigned : x.bits.toNat = s * 2 ^ 63 + x.exponentField * 2 ^ 52 + x.fraction := by
    rw [hbits]
    show _ = (if x.negative then 1 else 0) * 2 ^ 63 + _ + _
    split <;> simp
  by_cases hzero : x.exponentField = 0
  · exact ⟨_, .subnormal hs x.fraction_lt (by rw [hsigned, hzero, zero_mul, add_zero])⟩
  · exact ⟨_, .normal hs (by omega) (by omega) x.fraction_lt hsigned⟩

/-- Significand and scale give what the bits denote. -/
theorem denotes_iff : x.Denotes q ↔ x.isFinite = true ∧ x.value = q := by
  refine ⟨Denotes.value_eq, ?_⟩
  rintro ⟨hx, rfl⟩
  obtain ⟨q, hq⟩ := exists_denotes hx
  exact hq.value_eq.2 ▸ hq

/-- A bit pattern denotes one rational at most. -/
theorem Denotes.unique (h : x.Denotes q) (h' : x.Denotes q') : q = q' :=
  h.value_eq.2.symm.trans h'.value_eq.2

/-! ### Integers -/

theorem exactInt?_eq_some_iff_denotes {n : Int64} :
    x.exactInt? = some n ↔ x.Denotes n.toInt := by
  rw [exactInt?_eq_some_iff, denotes_iff]

/-- Only integers that fit a word are read off. -/
theorem exactInt?_eq_none_iff :
    x.exactInt? = none ↔ ∀ n : ℤ, x.Denotes n → n < -2 ^ 63 ∨ 2 ^ 63 ≤ n := by
  constructor
  · intro hnone n hn
    by_contra hrange
    have hword : (Int64.ofInt n).toInt = n := Int64.toInt_ofInt_of_le (by omega) (by omega)
    have hsome : x.exactInt? = some (Int64.ofInt n) :=
      exactInt?_eq_some_iff_denotes.2 (hword.symm ▸ hn)
    rw [hnone] at hsome
    cases hsome
  · intro hout
    rw [Option.eq_none_iff_forall_ne_some]
    intro n hn
    have hle := n.le_toInt
    have hlt := n.toInt_lt
    have hrange := hout n.toInt (exactInt?_eq_some_iff_denotes.1 hn)
    omega

/-- Rounded towards zero. A NaN counts as zero. -/
def truncated (x : Double) : ℤ :=
  if x.isNaN then 0
  else
    match x.scale with
    | .ofNat k => x.sign * (x.mantissa <<< k : ℕ)
    | .negSucc k => x.sign * (x.mantissa >>> (k + 1) : ℕ)

/-- The 64-bit integer that is nearest to a number rounded towards zero. -/
def saturated (x : Double) : Int64 := Int64.ofInt (max (-2 ^ 63) (min x.truncated (2 ^ 63 - 1)))

/-- Rounding changes no integer. -/
theorem truncated_of_integral? {n : ℤ} (h : x.integral? = some n) : x.truncated = n := by
  have hfinite := (integral?_eq_some_iff.1 h).1
  have hsigned : ∀ m : ℕ, (if x.negative then -(m : ℤ) else m) = x.sign * m := by
    intro m
    unfold sign
    split <;> simp
  unfold integral? at h
  unfold truncated
  simp only [hfinite, if_true, hsigned] at h
  rw [isNaN_eq_false_of_isFinite hfinite, if_neg Bool.false_ne_true]
  cases hscale : x.scale with
  | ofNat k =>
    rw [hscale] at h
    exact Option.some.inj h
  | negSucc k =>
    rw [hscale] at h
    simp only at h ⊢
    split at h
    · exact Option.some.inj h
    · cases h

theorem toInt_saturated (hlow : -2 ^ 63 ≤ x.truncated) (hhigh : x.truncated < 2 ^ 63) :
    x.saturated.toInt = x.truncated := by
  have hclamped : max (-2 ^ 63) (min x.truncated (2 ^ 63 - 1)) = x.truncated := by omega
  rw [saturated, hclamped]
  exact Int64.toInt_ofInt_of_le (by omega) (by omega)

/-- A number without a fraction that lies in the range of integers is converted. -/
theorem exactInt?_eq_saturated (x : Double) :
    x.exactInt? = if x.isFinite = true ∧ x.value = x.truncated ∧ -2 ^ 63 ≤ x.value ∧
      x.value < 2 ^ 63 then some x.saturated else none := by
  split
  · rename_i h
    obtain ⟨hfinite, hvalue, hlow, hhigh⟩ := h
    rw [hvalue] at hlow hhigh
    have hword : x.saturated.toInt = x.truncated :=
      toInt_saturated (Int.cast_le.1 (by push_cast; exact hlow))
        (Int.cast_lt.1 (by push_cast; exact hhigh))
    exact exactInt?_eq_some_iff.2 ⟨hfinite, by rw [hvalue, hword]⟩
  · rename_i h
    rw [Option.eq_none_iff_forall_ne_some]
    intro n hn
    obtain ⟨hfinite, hvalue⟩ := exactInt?_eq_some_iff.1 hn
    have htruncated := truncated_of_integral? (integral?_eq_some_iff.2 ⟨hfinite, hvalue⟩)
    have hlow : ((-2 ^ 63 : ℤ) : ℚ) ≤ n.toInt := Int.cast_le.2 n.le_toInt
    have hhigh : (n.toInt : ℚ) < (2 ^ 63 : ℤ) := Int.cast_lt.2 n.toInt_lt
    push_cast at hlow hhigh
    exact h ⟨hfinite, by rw [hvalue, htruncated], hvalue ▸ hlow, hvalue ▸ hhigh⟩

end Double

namespace Heap

theorem equal_int_float (h : Heap) (a : Int64) (x : Double) :
    h.equal (.int a) (.float x) = true ↔ x.Denotes a.toInt :=
  beq_iff_eq.trans Double.exactInt?_eq_some_iff_denotes

theorem equal_float_int (h : Heap) (a : Int64) (x : Double) :
    h.equal (.float x) (.int a) = true ↔ x.Denotes a.toInt :=
  beq_iff_eq.trans Double.exactInt?_eq_some_iff_denotes

end Heap

/-- **Integers are read off exactly.** A bit pattern gives a 64-bit integer exactly if it denotes
that integer, and gives none if it denotes nothing, a number that is no integer or one out of range;
both zeros give zero. A test of fraction and range with a conversion that saturates comes to the
same. An integer and a number are equal exactly if the number denotes the integer. -/
theorem integers_read_exactly (x : Double) :
    (∀ n : Int64, x.exactInt? = some n ↔ x.Denotes n.toInt) ∧
    (x.exactInt? = none ↔ ∀ n : ℤ, x.Denotes n → n < -2 ^ 63 ∨ 2 ^ 63 ≤ n) ∧
    (x.isFinite = false → x.exactInt? = none) ∧
    (x.bits = 0 ∨ x.bits = 0x8000000000000000 → x.exactInt? = some 0) ∧
    (x.exactInt? = if x.isFinite = true ∧ x.value = x.truncated ∧ -2 ^ 63 ≤ x.value ∧
      x.value < 2 ^ 63 then some x.saturated else none) ∧
    ∀ (h : Heap) (a : Int64), (h.equal (.int a) (.float x) = true ↔ x.Denotes a.toInt) ∧
      (h.equal (.float x) (.int a) = true ↔ x.Denotes a.toInt) := by
  refine ⟨fun n => Double.exactInt?_eq_some_iff_denotes, Double.exactInt?_eq_none_iff, ?_, ?_,
    x.exactInt?_eq_saturated, fun h a => ⟨h.equal_int_float a x, h.equal_float_int a x⟩⟩
  · intro hx
    rw [Double.exactInt?_eq_none_iff]
    intro n hn
    rw [hn.value_eq.1] at hx
    cases hx
  · intro hzero
    refine Double.exactInt?_of_isZero ?_
    unfold Double.isZero Double.exponentField Double.fraction
    rcases hzero with h | h <;> rw [h] <;> rfl

/-- The range of integers has its lower end, and not its upper one. -/
example : (Double.mk 0xc3e0000000000000).exactInt? = some Int64.minValue ∧
    (Double.mk 0x43e0000000000000).exactInt? = none := by decide

end ScriptCore

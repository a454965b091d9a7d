/-!
# Double-precision numbers by their bits

A `Double` is the bit pattern of a binary floating-point number: one sign bit, eleven exponent
bits, fifty-two fraction bits.  Everything that only inspects a number is defined on the bits;
arithmetic rounds to nearest, ties to even.

* `negative`, `exponentField`, `fraction`: the three fields;
* `mantissa`, `scale`: a finite number is `± mantissa * 2 ^ scale`;
* `numEq`: numeric equality, false on every NaN and blind to the sign of zero;
* `exactInt?`: the 64-bit integer a number denotes, if it denotes one;
* `add`, `sub`, `mul`, `div`, `ofInt`, `scaleCount`: arithmetic;
* `nanoseconds?`: a number of seconds as a length of time.
-/

namespace ScriptCore

/-- The 64-bit word of an integer that fits one. -/
def checked? (n : Int) : Option Int64 :=
  if Int64.minValue.toInt ≤ n ∧ n ≤ Int64.maxValue.toInt then some (Int64.ofInt n) else none

/-- A double-precision number, kept as its bit pattern. -/
structure Double where
  bits : UInt64
  deriving DecidableEq, Repr, Inhabited

namespace Double

/-! ### Fields -/

/-- The sign bit is set. -/
def negative (x : Double) : Bool := x.bits.toNat >>> 63 == 1

/-- The eleven exponent bits. -/
def exponentField (x : Double) : Nat := x.bits.toNat >>> 52 % 2048

/-- The fifty-two fraction bits. -/
def fraction (x : Double) : Nat := x.bits.toNat % 1 <<< 52

/-- Neither infinite nor a NaN. -/
def isFinite (x : Double) : Bool := x.exponentField != 2047

/-- Not a number. -/
def isNaN (x : Double) : Bool := x.exponentField == 2047 && x.fraction != 0

/-- One of the two zeros. -/
def isZero (x : Double) : Bool := x.exponentField == 0 && x.fraction == 0

/-- The integer significand: the hidden bit is present unless the number is subnormal. -/
def mantissa (x : Double) : Nat :=
  if x.exponentField = 0 then x.fraction else 1 <<< 52 + x.fraction

/-- The binary exponent that goes with `mantissa`. -/
def scale (x : Double) : Int := (max x.exponentField 1 : Nat) - 1075

/-! ### Comparison with numbers and integers -/

/-- Numeric equality: a NaN equals nothing, the two zeros equal each other. -/
def numEq (x y : Double) : Bool :=
  !x.isNaN && !y.isNaN && (x == y || (x.isZero && y.isZero))

/-- The number is finite and at least one. -/
def atLeastOne (x : Double) : Bool :=
  x.isFinite && !x.negative && 1023 ≤ x.exponentField

/-- The integer a finite number denotes, if its value is integral. -/
def integral? (x : Double) : Option Int :=
  if x.isFinite then
    let signed (m : Nat) : Int := if x.negative then -(m : Int) else m
    match x.scale with
    | .ofNat k => some (signed (x.mantissa <<< k))
    | .negSucc k =>
        if x.mantissa % 1 <<< (k + 1) = 0 then some (signed (x.mantissa >>> (k + 1))) else none
  else none

/-- The 64-bit integer a number denotes exactly, if any. -/
def exactInt? (x : Double) : Option Int64 := x.integral?.bind checked?

/-! ### Arithmetic -/

/-- The result of an operation that has none, such as the product of zero and infinity. -/
def indefinite : Double := ⟨0xfff8000000000000⟩

/-- A NaN operand as it comes out of an operation: its top fraction bit is set. -/
def quiet (x : Double) : Double := ⟨x.bits ||| 0x0008000000000000⟩

/-- The number as a core float. -/
def toFloat (x : Double) : Float := Float.ofBits x.bits

/-- A core float as a number. -/
def ofFloat (f : Float) : Double := ⟨f.toBits⟩

/-- An operation on numbers: the first NaN operand is the result, an operation without a result
gives `indefinite`, every other result is rounded to nearest. -/
def combine (f : Float → Float → Float) (x y : Double) : Double :=
  if x.isNaN then x.quiet
  else if y.isNaN then y.quiet
  else
    let r := ofFloat (f x.toFloat y.toFloat)
    if r.isNaN then indefinite else r

def add : Double → Double → Double := combine (· + ·)
def sub : Double → Double → Double := combine (· - ·)
def mul : Double → Double → Double := combine (· * ·)
def div : Double → Double → Double := combine (· / ·)

/-- The number nearest to an integer. -/
def ofInt (n : Int64) : Double := ofFloat (Float.ofInt n.toInt)

/-- A count times a factor, rounded as numbers are and then cut to a 64-bit count. -/
def scaleCount (n : Nat) (factor : Double) : Nat :=
  (Float.ofNat n * factor.toFloat).toUInt64.toNat

/-! ### Lengths of time -/

/-- The integer nearest to `a / b`, ties to even. -/
def roundDiv (a b : Nat) : Nat :=
  let q := a / b
  let r := a % b
  if 2 * r < b then q
  else if b < 2 * r then q + 1
  else if q % 2 = 0 then q else q + 1

/-- A number of seconds in nanoseconds, ties to even.  Negative numbers, NaNs and anything from
`2 ^ 64` seconds on are no length of time; minus zero is. -/
def nanoseconds? (x : Double) : Option Nat :=
  if x.isFinite && (x.isZero || !x.negative) then
    match x.scale with
    | .ofNat k =>
        if x.mantissa <<< k < UInt64.size then some (x.mantissa <<< k * 1_000_000_000) else none
    | .negSucc k => some (roundDiv (x.mantissa * 1_000_000_000) (1 <<< (k + 1)))
  else none

end Double

end ScriptCore

import ScriptCore.Double

/-!
# The shortest decimal that reads back

A finite non-zero number `mantissa * 2 ^ scale` owns an interval of reals that round to it.
`Double.shortest` is the decimal with the fewest digits in that interval, and among those the one
nearest to the number; of two equally near ones the larger.

All comparisons are exact: both sides are brought over a common power of two and ten and compared
as natural numbers.
-/

namespace ScriptCore

/-- A positive decimal `0.d₁d₂… * 10 ^ (exponent + 1)`: its digits and the power of ten of the
first one. -/
structure Decimal where
  digits : List Nat
  exponent : Int
  deriving DecidableEq, Repr

namespace Double

/-- A fraction of naturals, the form in which reals are compared. -/
structure Ratio where
  num : Nat
  den : Nat

namespace Ratio

/-- `n * 2 ^ e` as a fraction. -/
def ofBinary (n : Nat) : Int → Ratio
  | .ofNat k => ⟨n <<< k, 1⟩
  | .negSucc k => ⟨n, 1 <<< (k + 1)⟩

/-- The fraction divided by `10 ^ p`. -/
def perTen (r : Ratio) : Int → Ratio
  | .ofNat k => ⟨r.num, r.den * Nat.pow 10 k⟩
  | .negSucc k => ⟨r.num * Nat.pow 10 (k + 1), r.den⟩

/-- The integer part. -/
def floor (r : Ratio) : Nat := r.num / r.den

/-- The fraction is below the integer. -/
def ltNat (r : Ratio) (n : Nat) : Bool := r.num < n * r.den

/-- The fraction is above the integer. -/
def gtNat (r : Ratio) (n : Nat) : Bool := n * r.den < r.num

end Ratio

/-- The magnitude of a finite number. -/
def magnitude (x : Double) : Ratio := Ratio.ofBinary x.mantissa x.scale

/-- Lower end of the interval of reals that round to the number.  Below a power of two the
neighbour is half as far away as above it. -/
def lowerEnd (x : Double) : Ratio :=
  if x.fraction = 0 then Ratio.ofBinary (4 * x.mantissa - 1) (x.scale - 2)
  else Ratio.ofBinary (2 * x.mantissa - 1) (x.scale - 1)

/-- Upper end of the interval of reals that round to the number. -/
def upperEnd (x : Double) : Ratio := Ratio.ofBinary (2 * x.mantissa + 1) (x.scale - 1)

/-- `n * 10 ^ p` rounds to the number.  The ends belong to the interval when the significand is
even. -/
def owns (x : Double) (n : Nat) (p : Int) : Bool :=
  let lo := x.lowerEnd.perTen p
  let hi := x.upperEnd.perTen p
  if x.mantissa % 2 = 0 then !lo.gtNat n && !hi.ltNat n else lo.ltNat n && hi.gtNat n

/-- On the grid of multiples of `10 ^ p`: the neighbour of the number that rounds to it, the nearer
one if both do, the larger one if both are equally near. -/
def candidate? (x : Double) (p : Int) : Option Nat :=
  let v := x.magnitude.perTen p
  let n := v.floor
  match x.owns n p, x.owns (n + 1) p with
  | true, true => some (if 2 * v.num < (2 * n + 1) * v.den then n else n + 1)
  | true, false => some n
  | false, true => some (n + 1)
  | false, false => none

/-- Power of ten of the leading digit: the first `k` from `guess` downwards with `10 ^ k` not above
the number. -/
def leadingPower (x : Double) : Nat → Int → Int
  | 0, guess => guess
  | fuel + 1, guess =>
      if 1 ≤ (x.magnitude.perTen guess).floor then guess else leadingPower x fuel (guess - 1)

/-- The grids for one, two, … digits, coarsest first, until one has a candidate. -/
def search (x : Double) : Nat → Int → Nat × Int
  | 0, p => ((x.magnitude.perTen p).floor, p)
  | fuel + 1, p =>
      match x.candidate? p with
      | some n => (n, p)
      | none => search x fuel (p - 1)

/-- The decimal digits of a number, most significant first. -/
def digitsOf (n : Nat) : List Nat := (Nat.toDigits 10 n).map fun c => c.toNat - '0'.toNat

/-- The shortest decimal of a finite non-zero number; its last digit is not zero. -/
def shortest (x : Double) : Decimal :=
  let start : Int := (x.scale + (x.mantissa.log2 : Int)) * 30103 / 100000 + 1
  let k := leadingPower x 4 start
  let (n, p) := search x 17 k
  let ds := digitsOf n
  { digits := (ds.reverse.dropWhile (· == 0)).reverse
    exponent := p + (ds.length : Int) - 1 }

end Double

end ScriptCore

import ScriptCore.Double.Shortest

/-!
# The written form of numbers

One writer with two layouts.  `Double.text` is the form scripts see: positional between `10 ^ -4`
and `10 ^ 16`, always with a point, scientific elsewhere.  `Double.plainText` never uses an exponent
and writes integral numbers without a point.
-/

namespace ScriptCore

/-- The choices of a number format. -/
structure NumberLayout where
  /-- Powers of ten of the leading digit that are written without an exponent. -/
  positional : Int → Bool
  /-- An integral number is written with `.0`. -/
  keepsPoint : Bool

namespace NumberLayout

private def digitString (ds : List Nat) : String :=
  String.ofList (ds.map fun d => Char.ofNat ('0'.toNat + d))

private def zeros (n : Nat) : String := String.ofList (List.replicate n '0')

/-- A decimal without an exponent. -/
def position (layout : NumberLayout) (d : Decimal) : String :=
  match d.exponent with
  | .negSucc k => "0." ++ zeros k ++ digitString d.digits
  | .ofNat k =>
      if d.digits.length ≤ k + 1 then
        digitString d.digits ++ zeros (k + 1 - d.digits.length) ++
          (if layout.keepsPoint then ".0" else "")
      else
        digitString (d.digits.take (k + 1)) ++ "." ++ digitString (d.digits.drop (k + 1))

/-- A decimal with one digit before the point and an exponent. -/
def scientific (d : Decimal) : String :=
  digitString (d.digits.take 1) ++
    (if d.digits.length ≤ 1 then "" else "." ++ digitString (d.digits.drop 1)) ++
    "e" ++ toString d.exponent

/-- A number in a layout. -/
def write (layout : NumberLayout) (x : Double) : String :=
  if x.isNaN then "NaN"
  else
    (if x.negative then "-" else "") ++
      if !x.isFinite then "inf"
      else if x.isZero then (if layout.keepsPoint then "0.0" else "0")
      else
        let d := x.shortest
        if layout.positional d.exponent then layout.position d else scientific d

end NumberLayout

namespace Double

/-- The form scripts see: an exponent below `10 ^ -4` and from `10 ^ 16` on. -/
def scriptLayout : NumberLayout where
  positional k := decide (-4 ≤ k ∧ k < 16)
  keepsPoint := true

/-- The form without exponents. -/
def plainLayout : NumberLayout where
  positional _ := true
  keepsPoint := false

def text (x : Double) : String := scriptLayout.write x

def plainText (x : Double) : String := plainLayout.write x

end Double

end ScriptCore

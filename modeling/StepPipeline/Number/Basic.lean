import StepPipeline.Number.Double

/-!
# Numbers of a document

A number is a whole number as written, or a double. The two are compared as fractions, exactly.
-/
namespace StepPipeline

/-- A number of a document. Whole numbers keep to the range of 64 bits, signed or unsigned. -/
inductive Number where
  | whole (n : Int)
  | double (x : Double)
  deriving DecidableEq, Repr, Inhabited

namespace Number

/-- The least and the greatest whole number of 64 bits. -/
def least : Int := -(twoTo 63)
def greatest : Int := twoTo 64 - 1

def InRange : Number → Prop
  | whole n => least ≤ n ∧ n ≤ greatest
  | double x => x.isFinite = true

instance : DecidablePred InRange
  | whole n => inferInstanceAs (Decidable (least ≤ n ∧ n ≤ greatest))
  | double x => inferInstanceAs (Decidable (x.isFinite = true))

/-- The value as a numerator and a denominator. -/
def toFraction : Number → Int × Nat
  | whole n => (n, 1)
  | double x => x.toFraction

/-- The value rounded to a double. -/
def toDouble : Number → Double
  | whole n => .ofInt n
  | double x => x

/-- Exact comparison of values. -/
def lessThan (x y : Number) : Bool :=
  let (a, b) := x.toFraction
  let (c, d) := y.toFraction
  a * d < c * b

/-- Whether the value is a whole number, however it is written. -/
def isWhole : Number → Bool
  | whole _ => true
  | double x => let (num, den) := x.toFraction; num % den = 0

/-- Two numbers are the same when they round to the same double; `0` and `-0` do. -/
def same (x y : Number) : Bool :=
  let (a, b) := x.toDouble.toFraction
  let (c, d) := y.toDouble.toFraction
  a * d = c * b

/-- Two numbers are close when they round to doubles less than `2 ^ -52` apart. -/
def close (x y : Number) : Bool :=
  let (a, b) := x.toDouble.toFraction
  let (c, d) := y.toDouble.toFraction
  (a * d - c * b).natAbs * twoTo 52 < b * d

/-- The natural number that the value is, if it is one. -/
def toNat? (x : Number) : Option Nat :=
  let (num, den) := x.toFraction
  if num < 0 then none else if num % den = 0 then some (num.toNat / den) else none

end Number
end StepPipeline

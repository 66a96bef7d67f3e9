/-!
# Double precision, exactly

A double is its 64 bits. Its value is a fraction, and arithmetic is done on fractions: an operation
takes the exact result and rounds it once, to the nearest double, a tie to the even one.
-/
namespace StepPipeline

def twoTo (k : Nat) : Nat := Nat.pow 2 k

def tenTo (k : Nat) : Nat := Nat.pow 10 k

/-- A number of double precision, by its bits: sign, eleven bits of exponent, 52 of fraction. -/
structure Double where
  bits : UInt64
  deriving DecidableEq, Repr, Inhabited

namespace Double

def negative (x : Double) : Bool :=
  twoTo 63 ≤ x.bits.toNat

/-- The eleven bits of the exponent. -/
def exponentBits (x : Double) : Nat :=
  x.bits.toNat / twoTo 52 % twoTo 11

/-- The 52 bits of the fraction. -/
def fractionBits (x : Double) : Nat :=
  x.bits.toNat % twoTo 52

def isFinite (x : Double) : Bool :=
  x.exponentBits != 2047

/-- The magnitude is `significand · 2 ^ scale`. -/
def significand (x : Double) : Nat :=
  if x.exponentBits = 0 then x.fractionBits else x.fractionBits + twoTo 52

def scale (x : Double) : Int :=
  (max x.exponentBits 1 : Nat) - 1075

/-- `n · 2 ^ e` as a fraction. -/
def dyadic (n : Nat) (e : Int) : Nat × Nat :=
  if 0 ≤ e then (n * twoTo e.toNat, 1) else (n, twoTo (-e).toNat)

/-- The magnitude as a numerator and a denominator. -/
def magnitude (x : Double) : Nat × Nat :=
  dyadic x.significand x.scale

/-- The value as a numerator and a denominator. -/
def toFraction (x : Double) : Int × Nat :=
  let (num, den) := x.magnitude
  (if x.negative then -(num : Int) else num, den)

/-- `num / den` to the nearest whole number, a tie to the even one. -/
def roundEven (num den : Nat) : Nat :=
  let q := num / den
  let r := num % den
  if den < 2 * r then q + 1
  else if 2 * r < den then q
  else q + q % 2

/-- The exponent `e` with `2 ^ e ≤ num / den < 2 ^ (e + 1)`. -/
def binaryExponent (num den : Nat) : Int :=
  let e : Int := (Nat.log2 num : Int) - Nat.log2 den
  let (n, d) := dyadic num (-e)
  if n < d * den then e - 1 else e

/-- The bits of the nearest double to `num / den`, infinity from the greatest double's upper
neighbour on. -/
def nearestBits (num den : Nat) : Nat :=
  if num = 0 then 0
  else
    let q := max (binaryExponent num den - 52) (-1074)
    let (n, d) := dyadic num (-q)
    min ((q + 1074).toNat * twoTo 52 + roundEven n (d * den)) (2047 * twoTo 52)

/-- The nearest double to `num / den`, with the given sign. -/
def nearest (minus : Bool) (num den : Nat) : Double :=
  ⟨((if minus then twoTo 63 else 0) + nearestBits num den).toUInt64⟩

def ofNat (n : Nat) : Double :=
  nearest false n 1

def ofInt (n : Int) : Double :=
  nearest (n < 0) n.natAbs 1

def zero (minus : Bool) : Double :=
  nearest minus 0 1

/-- The product, rounded. -/
def mul (x y : Double) : Double :=
  let (a, b) := x.magnitude
  let (c, d) := y.magnitude
  nearest (x.negative != y.negative) (a * c) (b * d)

/-- The quotient by a divisor other than zero, rounded. -/
def div (x y : Double) : Double :=
  let (a, b) := x.magnitude
  let (c, d) := y.magnitude
  nearest (x.negative != y.negative) (a * d) (b * c)

/-- The nearest double to `n · 10 ^ e`. -/
def ofDecimal (minus : Bool) (n : Nat) (e : Int) : Double :=
  if 0 ≤ e then nearest minus (n * tenTo e.toNat) 1 else nearest minus n (tenTo (-e).toNat)

end Double
end StepPipeline

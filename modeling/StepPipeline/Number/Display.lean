import StepPipeline.Number.Basic
import StepPipeline.Number.Shortest

/-!
# How numbers are written

Whole numbers are written in decimal. A double is written with the fewest digits that read back;
a `Layout` says where the point goes and when an exponent is written.
-/
namespace StepPipeline

/-- The choices in writing a double. `pointWithin` is the greatest number of places before the
point, `zerosWithin` bounds the zeros after it; outside these the exponent is written. -/
structure Layout where
  pointWithin : Int
  zerosWithin : Int
  wholeEnding : String
  plusExponent : String
  minusExponent : String

/-- Up to sixteen places stand before the point and up to four zeros after it, a whole value keeps
`.0`, and an exponent has its sign. -/
def Layout.document : Layout :=
  ⟨16, -5, ".0", "e+", "e-"⟩

namespace Double

/-- `count` zeros. -/
def zeros (count : Int) : List Char :=
  List.replicate count.toNat '0'

/-- A decimal other than zero in the given layout. -/
def Decimal.write (l : Layout) (d : Decimal) : List Char :=
  let digits := Nat.toDigits 10 d.digits
  let place : Int := digits.length + d.exponent
  if 0 ≤ d.exponent ∧ place ≤ l.pointWithin then
    digits ++ zeros d.exponent ++ l.wholeEnding.toList
  else if 0 < place ∧ place ≤ l.pointWithin then
    digits.take place.toNat ++ '.' :: digits.drop place.toNat
  else if l.zerosWithin < place ∧ place ≤ 0 then
    '0' :: '.' :: zeros (-place) ++ digits
  else
    let e := place - 1
    let mark := if e < 0 then l.minusExponent else l.plusExponent
    let mantissa := match digits with
      | [] => []
      | [d] => [d]
      | d :: rest => d :: '.' :: rest
    mantissa ++ mark.toList ++ Nat.toDigits 10 e.natAbs

/-- A finite double in the given layout; zero keeps its sign. -/
def write (l : Layout) (x : Double) : List Char :=
  let magnitude := if x.significand = 0 then '0' :: l.wholeEnding.toList else x.shortest.write l
  if x.negative then '-' :: magnitude else magnitude

end Double

/-- A whole number in decimal. -/
def writeInt (n : Int) : List Char :=
  if n < 0 then '-' :: Nat.toDigits 10 n.natAbs else Nat.toDigits 10 n.natAbs

/-- A number as documents have it. -/
def Number.write : Number → List Char
  | .whole n => writeInt n
  | .double x => x.write .document

end StepPipeline

import StepPipeline.Number.Double

/-!
# The shortest decimal that reads back

A double stands for every real that rounds to it. Among the decimals in that interval `shortest`
takes one with the fewest digits, and of those the one nearest to the value, a tie to the even
digit. All arithmetic is on whole numbers: the value and the ends of its interval are multiples of
a quarter of the double's last place.
-/
namespace StepPipeline.Double

/-- `digits · 10 ^ exponent`, without trailing zeros in `digits`. -/
structure Decimal where
  digits : Nat
  exponent : Int
  deriving DecidableEq, Repr

/-- The reals that round to a double, as numerators over one denominator. The ends belong to the
interval iff `closed`. -/
structure Interval where
  low : Nat
  value : Nat
  high : Nat
  den : Nat
  closed : Bool

/-- The interval of a positive double: half a place to either side, and a quarter below a power of
two. -/
def interval (x : Double) : Interval :=
  let m := x.significand
  let below := if x.fractionBits = 0 && 1 < x.exponentBits then 1 else 2
  let (unit, den) := dyadic 1 (x.scale - 2)
  ⟨(4 * m - below) * unit, 4 * m * unit, (4 * m + 2) * unit, den, m % 2 = 0⟩

/-- Whether `n / d` lies in the interval. -/
def Interval.holds (i : Interval) (n d : Nat) : Bool :=
  if i.closed then i.low * d ≤ n * i.den && n * i.den ≤ i.high * d
  else i.low * d < n * i.den && n * i.den < i.high * d

/-- The least `k ≤ limit` with `den ≤ num · 10 ^ k`, or `limit`. -/
def leadingZeros (num den : Nat) : (limit : Nat) → Nat
  | 0 => 0
  | limit + 1 => if den ≤ num then 0 else leadingZeros (num * 10) den limit + 1

/-- The `k` with `10 ^ (k - 1) ≤ num / den < 10 ^ k`, for a magnitude of a double. -/
def decimalPlace (num den : Nat) : Int :=
  if den ≤ num then (Nat.toDigits 10 (num / den)).length else 1 - (leadingZeros num den 400 : Nat)

/-- The point of the grid `10 ^ e` in the interval that lies nearest to the value. -/
def gridPoint? (i : Interval) (e : Int) : Option Nat :=
  let (up, down) : Nat × Nat := if 0 ≤ e then (tenTo e.toNat, 1) else (1, tenTo (-e).toNat)
  let below := i.value * down / (i.den * up)
  let fits (n : Nat) : Bool := i.holds (n * up) down
  let rest := 2 * (i.value * down % (i.den * up))
  let upper := if rest = i.den * up then below % 2 = 1 else i.den * up < rest
  match fits below, fits (below + 1) with
  | true, true => some (if upper then below + 1 else below)
  | true, false => some below
  | false, true => some (below + 1)
  | false, false => none

/-- Moves trailing zeros into the exponent. -/
def Decimal.strip (digits : Nat) (exponent : Int) : (limit : Nat) → Decimal
  | 0 => ⟨digits, exponent⟩
  | limit + 1 =>
    if digits % 10 = 0 then Decimal.strip (digits / 10) (exponent + 1) limit else ⟨digits, exponent⟩

/-- Tries the grids with `count`, `count + 1`, … digits. -/
def firstGrid (i : Interval) (place : Int) (count : Nat) : (limit : Nat) → Decimal
  | 0 => ⟨i.value / i.den, 0⟩
  | limit + 1 =>
    match gridPoint? i (place - count) with
    | some n => Decimal.strip n (place - count) 20
    | none => firstGrid i place (count + 1) limit

/-- The shortest decimal of a positive double; seventeen digits always suffice. -/
def shortest (x : Double) : Decimal :=
  let i := x.interval
  firstGrid i (decimalPlace i.value i.den) 1 17

end StepPipeline.Double

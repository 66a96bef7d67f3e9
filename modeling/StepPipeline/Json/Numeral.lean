import StepPipeline.Document.Cursor

/-!
# Numbers in JSON text

A numeral is scanned first, then valued. Whole numbers within 64 bits keep their value. Any other
numeral becomes a double: as many leading digits as fit into 64 bits give a double, which is then
scaled by a power of ten; the two roundings are part of the value.
-/
namespace StepPipeline.Json

open Document

/-- A numeral as written. `afterExponent` has the place behind each digit of the exponent. -/
structure Numeral where
  minus : Bool
  whole : List Nat
  /-- The digits after the point, if there is one. -/
  fraction : Option (List Nat)
  /-- Whether the exponent is negative, and its digits, each with the place behind it. -/
  exponent : Option (Bool × List (Nat × Position))
  deriving Repr

/-- The fault that meets a reader, and the one that meets a passer. -/
structure Faults where
  read : Fault
  pass : Fault

def Faults.both (cause : FaultCause) (p : Position) : Faults :=
  ⟨⟨cause, some p⟩, ⟨cause, some p⟩⟩

def digit? (c : Char) : Option Nat :=
  if '0' ≤ c ∧ c ≤ '9' then some (c.toNat - 0x30) else none

/-- The digits at the cursor, each with the place behind it. -/
def takeDigits : List Char → Position → List (Nat × Position) × Cursor
  | [], p => ([], ⟨[], p⟩)
  | c :: rest, p =>
    match digit? c with
    | none => ([], ⟨c :: rest, p⟩)
    | some d =>
      let (ds, cur) := takeDigits rest (p.after c)
      ((d, p.after c) :: ds, cur)

/-- The digits before the point; a leading zero stands alone. -/
def scanWhole (cur : Cursor) : Except Faults (List Nat × Cursor) :=
  match cur.rest with
  | [] => .error ⟨⟨.unfinishedValue, some cur.place⟩, ⟨.badNumber, some cur.place⟩⟩
  | c :: _ =>
    let (ds, next) := takeDigits cur.rest cur.place
    match ds with
    | [] => .error (.both .badNumber (cur.place.into c))
    | (0, _) :: (_, q) :: _ => .error (.both .badNumber q)
    | ds => .ok (ds.map (·.1), next)

def scanFraction (cur : Cursor) : Except Faults (Option (List Nat) × Cursor) :=
  match cur.rest with
  | '.' :: rest =>
    let (ds, next) := takeDigits rest (cur.place.after '.')
    match ds, next.rest with
    | [], [] => .error ⟨⟨.unfinishedValue, some next.place⟩, ⟨.badNumber, some next.place⟩⟩
    | [], c :: _ => .error (.both .badNumber (next.place.into c))
    | ds, _ => .ok (some (ds.map (·.1)), next)
  | _ => .ok (none, cur)

/-- The sign and the digits after the exponent's mark. -/
def scanPower (minus : Bool) (cur : Cursor) :
    Except Faults (Option (Bool × List (Nat × Position)) × Cursor) :=
  let (ds, next) := takeDigits cur.rest cur.place
  match ds, next.rest with
  | [], [] => .error ⟨⟨.unfinishedValue, some next.place⟩, ⟨.badNumber, some next.place⟩⟩
  | [], c :: _ => .error (.both .badNumber (next.place.into c))
  | ds, _ => .ok (some (minus, ds), next)

def scanExponent (cur : Cursor) : Except Faults (Option (Bool × List (Nat × Position)) × Cursor) :=
  match cur.rest with
  | c :: rest =>
    if c = 'e' ∨ c = 'E' then
      let p := cur.place.after c
      match rest with
      | '+' :: more => scanPower false ⟨more, p.after '+'⟩
      | '-' :: more => scanPower true ⟨more, p.after '-'⟩
      | _ => scanPower false ⟨rest, p⟩
    else .ok (none, cur)
  | [] => .ok (none, cur)

def scanNumeral (cur : Cursor) : Except Faults (Numeral × Cursor) := do
  let (minus, cur) := match cur.rest with
    | '-' :: rest => (true, ⟨rest, cur.place.after '-'⟩)
    | _ => (false, cur)
  let (whole, cur) ← scanWhole cur
  let (fraction, cur) ← scanFraction cur
  let (exponent, cur) ← scanExponent cur
  return (⟨minus, whole, fraction, exponent⟩, cur)

/-- The greatest significand. -/
def significandLimit : Nat := twoTo 64 - 1

/-- The greatest exponent that is read digit by digit. -/
def exponentLimit : Nat := twoTo 31 - 1

/-- Takes digits into the significand as long as it fits, and returns those left over. -/
def takeSignificand (significand : Nat) : List Nat → Nat × List Nat
  | [] => (significand, [])
  | d :: rest =>
    if significandLimit < significand * 10 + d then (significand, d :: rest)
    else takeSignificand (significand * 10 + d) rest

/-- The exponent, or the place behind the digit with which it grows too large. -/
def takeExponent (value : Nat) : List (Nat × Position) → Except Position Nat
  | [] => .ok value
  | (d, p) :: rest =>
    if exponentLimit < value * 10 + d then .error p else takeExponent (value * 10 + d) rest

/-- `x · 10 ^ e`. A power above the greatest one of ten is out of range unless `x` is zero; below
the least, the division is done in steps, four of which bring any value to zero. -/
def scaleByTen (minus : Bool) (significand : Nat) (e : Int) : Option Double :=
  let x := Double.nearest minus significand 1
  let ten (k : Nat) := Double.nearest false (tenTo k) 1
  if significand = 0 then some x
  else if 308 < e then none
  else if 0 ≤ e then
    let y := x.mul (ten e.toNat)
    if y.isFinite then some y else none
  else some (divide ten x (-e).toNat 4)
where
  /-- Divides by `10 ^ k`, at most `10 ^ 308` at a time. -/
  divide (ten : Nat → Double) (x : Double) (k : Nat) : (limit : Nat) → Double
    | 0 => Double.zero x.negative
    | limit + 1 =>
      if k ≤ 308 then x.div (ten k) else divide ten (x.div (ten 308)) (k - 308) limit

/-- The value of a numeral that ends at `last`. -/
def Numeral.value (n : Numeral) (last : Position) : Except Fault Number :=
  let (wholePart, dropped) := takeSignificand 0 n.whole
  let scaled (significand : Nat) (e : Int) : Except Fault Number :=
    match scaleByTen n.minus significand e with
    | some x => .ok (.double x)
    | none => .error ⟨.numberOutOfRange, some last⟩
  let (significand, unused) := takeSignificand wholePart (n.fraction.getD [])
  let point : Int := dropped.length - ((n.fraction.getD []).length - unused.length : Nat)
  match n.exponent with
  | some (minus, digits) =>
    match takeExponent 0 digits with
    | .ok e => scaled significand (if minus then point - e else point + e)
    | .error p =>
      if significand = 0 ∨ minus then .ok (.double (.zero n.minus))
      else .error ⟨.numberOutOfRange, some p⟩
  | none =>
    match n.fraction, dropped with
    | none, [] =>
      if !n.minus then .ok (.whole wholePart)
      else if wholePart = 0 ∨ twoTo 63 < wholePart then .ok (.double (.nearest true wholePart 1))
      else .ok (.whole (-(wholePart : Int)))
    | _, _ => scaled significand point

end StepPipeline.Json

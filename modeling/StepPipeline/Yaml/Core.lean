import StepPipeline.Document.Fault

/-!
# The values of YAML scalars

A plain scalar without a tag is null, a boolean, a number or a text by its form. Whole numbers may
be decimal, hexadecimal, octal or binary; digits behind a leading zero make a text. Decimal numbers
are rounded once; one that rounds to no finite double is a text.
-/
namespace StepPipeline.Yaml

open Document (Scalar)

def isNull (s : String) : Bool :=
  s = "null" || s = "Null" || s = "NULL" || s = "~"

def bool? (s : String) : Option Bool :=
  if s = "true" ∨ s = "True" ∨ s = "TRUE" then some true
  else if s = "false" ∨ s = "False" ∨ s = "FALSE" then some false
  else none

/-- The value of a digit below the base. -/
def digit? (base : Nat) (c : Char) : Option Nat :=
  let value :=
    if '0' ≤ c ∧ c ≤ '9' then some (c.toNat - 0x30)
    else if 'a' ≤ c ∧ c ≤ 'z' then some (c.toNat - 0x57)
    else if 'A' ≤ c ∧ c ≤ 'Z' then some (c.toNat - 0x37)
    else none
  value.filter (· < base)

def natural? (base : Nat) (cs : List Char) : Option Nat :=
  if cs.isEmpty then none
  else (cs.mapM (digit? base)).map fun ds => ds.foldl (fun n d => n * base + d) 0

/-- Digits behind a leading zero, perhaps after a sign. -/
def isPaddedNumeral (cs : List Char) : Bool :=
  let digits := match cs with
    | '-' :: rest | '+' :: rest => rest
    | _ => cs
  match digits with
  | '0' :: d :: rest => (d :: rest).all Char.isDigit
  | _ => false

/-- The magnitude of a numeral with a base, or of a decimal one. -/
def magnitude? (cs : List Char) : Option Nat :=
  match cs with
  | '0' :: 'x' :: rest => natural? 16 rest
  | '0' :: 'o' :: rest => natural? 8 rest
  | '0' :: 'b' :: rest => natural? 2 rest
  | _ => if isPaddedNumeral cs then none else natural? 10 cs

/-- The whole number that a scalar writes. -/
def whole? (cs : List Char) : Option Int :=
  match cs with
  | '-' :: rest => (magnitude? rest).map fun n => -(n : Int)
  | '+' :: rest => (magnitude? rest).map Int.ofNat
  | _ => (magnitude? cs).map Int.ofNat

/-- The parts of a decimal numeral without sign: its digits as a whole number, and the exponent. -/
def decimal? (cs : List Char) : Option (Nat × Int) :=
  let whole := cs.takeWhile Char.isDigit
  let (fraction, rest) := match cs.drop whole.length with
    | '.' :: rest => (rest.takeWhile Char.isDigit, rest.dropWhile Char.isDigit)
    | rest => ([], rest)
  let exponent : Option Int := match rest with
    | [] => some 0
    | c :: rest =>
      if c = 'e' ∨ c = 'E' then
        match rest with
        | '-' :: digits => (natural? 10 digits).map fun n => -(n : Int)
        | '+' :: digits => (natural? 10 digits).map Int.ofNat
        | digits => (natural? 10 digits).map Int.ofNat
      else none
  match natural? 10 (whole ++ fraction), exponent with
  | some n, some e => some (n, e - fraction.length)
  | _, _ => none

/-- The exponent beyond which a decimal rounds to zero or to no finite double, whatever its digits
up to `digits` many. -/
def clampExponent (digits : Nat) (e : Int) : Int :=
  max (min e 400) (-(400 + digits : Int))

/-- The finite double that a scalar writes in decimal. -/
def decimalDouble? (cs : List Char) : Option Double :=
  let (minus, digits) := match cs with
    | '-' :: rest => (true, rest)
    | '+' :: rest => (false, rest)
    | _ => (false, cs)
  match decimal? digits with
  | some (n, e) =>
    let x := Double.ofDecimal minus n (clampExponent cs.length e)
    if x.isFinite then some x else none
  | none => none

/-- The doubles that are written by name. -/
def infinite (minus : Bool) : Double := ⟨if minus then 0xFFF0000000000000 else 0x7FF0000000000000⟩
def notANumber : Double := ⟨0x7FF8000000000000⟩

def double? (s : String) : Option Double :=
  match s with
  | ".inf" | ".Inf" | ".INF" | "+.inf" | "+.Inf" | "+.INF" => some (infinite false)
  | "-.inf" | "-.Inf" | "-.INF" => some (infinite true)
  | ".nan" | ".NaN" | ".NAN" => some notANumber
  | _ => decimalDouble? s.toList

/-- The range of 128 bits, signed or unsigned. -/
def fitsLong (n : Int) : Bool := -(twoTo 127 : Int) ≤ n && n < twoTo 128

def fits (n : Int) : Bool := Number.least ≤ n && n ≤ Number.greatest

/-- A whole number as a scalar, if the scalar writes one that fits into 128 bits; one that does not
fit into 64 is refused. -/
def wholeScalar? (s : String) : Option (Except String Scalar) :=
  match whole? s.toList with
  | some n =>
    if fits n then some (.ok (.number (.whole n)))
    else if fitsLong n then some (.error ("integer " ++ s ++ " is out of range"))
    else none
  | none => none

/-- The value of a plain scalar. -/
def plainScalar (s : String) : Except String Scalar :=
  if s = "" ∨ isNull s then .ok .null
  else match bool? s with
    | some b => .ok (.bool b)
    | none =>
      match wholeScalar? s with
      | some value => value
      | none =>
        if isPaddedNumeral s.toList then .ok (.text s)
        else match double? s with
          | some x => .ok (.number (.double x))
          | none => .ok (.text s)

/-- What a scalar whose tag asks for a kind is if it is not of that kind. -/
def refuse (s kind : String) : Except String Scalar :=
  .error ("invalid value: string " ++ Text.quote s ++ ", expected " ++ kind)

/-- The value of a scalar with the tag of a core kind; scalars with other tags are texts. -/
def taggedScalar (tag s : String) : Except String Scalar :=
  match tag with
  | "tag:yaml.org,2002:bool" =>
    match bool? s with
    | some b => .ok (.bool b)
    | none => refuse s "a boolean"
  | "tag:yaml.org,2002:int" =>
    match wholeScalar? s with
    | some value => value
    | none => refuse s "an integer"
  | "tag:yaml.org,2002:float" =>
    match double? s with
    | some x => .ok (.number (.double x))
    | none => refuse s "a float"
  | "tag:yaml.org,2002:null" => if isNull s then .ok .null else refuse s "null"
  | _ => .ok (.text s)

end StepPipeline.Yaml

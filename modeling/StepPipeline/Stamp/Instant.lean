import StepPipeline.Document.Decode
import StepPipeline.Number.Double
import StepPipeline.Text.Blank

/-!
# Instants

An instant is a second of the civil calendar in universal time, and a part of it. Written, it is a
date, `T`, a time and `Z`; the part of a second has no digits, three, six or nine, the fewest that
keep it. Reading allows short fields, blanks between them, a signed year and any offset.
-/
namespace StepPipeline

structure Instant where
  /-- Seconds since the beginning of 1970. -/
  seconds : Int
  /-- The part of the second in nanoseconds; in a leap second it is counted on past `10 ^ 9`. -/
  nanos : Nat
  deriving DecidableEq, Repr, Inhabited

namespace Instant

/-! ## The calendar -/

structure Date where
  year : Int
  month : Nat
  day : Nat
  deriving DecidableEq, Repr

def isLeapYear (year : Int) : Bool :=
  year % 4 = 0 && (year % 100 ≠ 0 || year % 400 = 0)

def daysInMonth (year : Int) (month : Nat) : Nat :=
  if month = 2 then (if isLeapYear year then 29 else 28)
  else if month = 4 ∨ month = 6 ∨ month = 9 ∨ month = 11 then 30 else 31

/-- Days from 1 March of year 0 to a date; years begin in March, so that a leap day comes last. -/
def marchDays (d : Date) : Int :=
  let year := if d.month ≤ 2 then d.year - 1 else d.year
  let month := (d.month + 9) % 12
  year * 365 + year / 4 - year / 100 + year / 400 + ((153 * month + 2) / 5 : Nat)
    + (d.day - 1 : Nat)

/-- Days from 1 January 1970 to a date. -/
def daysOf (d : Date) : Int :=
  marchDays d - 719468

/-- The date a number of days after 1 January 1970. -/
def dateOf (days : Int) : Date :=
  let z := days + 719468
  let era := z / 146097
  let inEra := (z % 146097).toNat
  let year := (inEra - inEra / 1460 + inEra / 36524 - inEra / 146096) / 365
  let inYear := inEra - (365 * year + year / 4 - year / 100)
  let m := (5 * inYear + 2) / 153
  let month := if m < 10 then m + 3 else m - 9
  ⟨(year : Int) + era * 400 + (if month ≤ 2 then 1 else 0), month, inYear - (153 * m + 2) / 5 + 1⟩

/-- The years that dates may have. -/
def leastYear : Int := -262143
def greatestYear : Int := 262142

/-! ## Writing -/

/-- `n` in decimal with at least `width` digits. -/
def padded (width n : Nat) : List Char :=
  let digits := Nat.toDigits 10 n
  List.replicate (width - digits.length) '0' ++ digits

def writeYear (year : Int) : List Char :=
  if 0 ≤ year ∧ year ≤ 9999 then padded 4 year.toNat
  else (if year < 0 then '-' else '+') :: padded 4 year.natAbs

def writeFraction (nanos : Nat) : List Char :=
  if nanos = 0 then []
  else if nanos % 1000000 = 0 then '.' :: padded 3 (nanos / 1000000)
  else if nanos % 1000 = 0 then '.' :: padded 6 (nanos / 1000)
  else '.' :: padded 9 nanos

def toString (t : Instant) : String :=
  let d := dateOf (t.seconds / 86400)
  let s := (t.seconds % 86400).toNat
  let leap := t.nanos / 1000000000
  String.ofList (writeYear d.year ++ '-' :: padded 2 d.month ++ '-' :: padded 2 d.day
    ++ 'T' :: padded 2 (s / 3600) ++ ':' :: padded 2 (s / 60 % 60)
    ++ ':' :: padded 2 (s % 60 + leap) ++ writeFraction (t.nanos % 1000000000) ++ ['Z'])

/-! ## Reading -/

inductive ReadError where
  | outOfRange
  | noSuchTime
  | invalid
  | tooShort
  | tooLong
  deriving DecidableEq, Repr

def ReadError.message : ReadError → String
  | outOfRange => "input is out of range"
  | noSuchTime => "no possible date and time matching input"
  | invalid => "input contains invalid characters"
  | tooShort => "premature end of input"
  | tooLong => "trailing input"

/-- The number that at least one and at most `width` digits write. -/
def number (width : Nat) (s : List Char) : Except ReadError (Nat × List Char) :=
  let digits := (s.take width).takeWhile Char.isDigit
  match digits, s with
  | [], [] => .error .tooShort
  | [], _ => .error .invalid
  | ds, _ =>
    let n := ds.foldl (fun n c => n * 10 + (c.toNat - 0x30)) 0
    if n < twoTo 63 then .ok (n, s.drop ds.length) else .error .outOfRange

/-- A number of two digits at most, between two bounds. -/
def bounded (least greatest : Nat) (s : List Char) : Except ReadError (Nat × List Char) := do
  let (n, rest) ← number 2 (Text.trimStart s)
  if least ≤ n ∧ n ≤ greatest then return (n, rest) else .error .outOfRange

/-- A year, of four digits at most unless it has a sign. -/
def year (s : List Char) : Except ReadError (Int × List Char) := do
  let s := Text.trimStart s
  let (n, rest) ← match s with
    | '-' :: rest => (number rest.length rest).map fun (n, rest) => (-(n : Int), rest)
    | '+' :: rest => (number rest.length rest).map fun (n, rest) => ((n : Int), rest)
    | _ => (number 4 s).map fun (n, rest) => ((n : Int), rest)
  if -(twoTo 31 : Int) ≤ n ∧ n < twoTo 31 then return (n, rest) else .error .outOfRange

/-- A mark, after blanks. -/
def mark (c : Char) (s : List Char) : Except ReadError (List Char) :=
  match Text.trimStart s with
  | [] => .error .tooShort
  | x :: rest => if x = c then .ok rest else .error .invalid

/-- A part of a second; digits beyond the ninth are dropped. -/
def fraction (s : List Char) : Except ReadError (Nat × List Char) :=
  match s with
  | '.' :: rest => do
    let (n, more) ← number 9 rest
    return (n * tenTo (9 - (rest.length - more.length)), more.dropWhile Char.isDigit)
  | _ => .ok (0, s)

/-- Two digits, the first of them at most `tens`. -/
def twoDigits (tens : Char) (s : List Char) : Except ReadError (Nat × List Char) :=
  match s with
  | a :: b :: rest =>
    if a.isDigit ∧ b.isDigit then
      if a ≤ tens then .ok ((a.toNat - 0x30) * 10 + (b.toNat - 0x30), rest) else .error .outOfRange
    else .error .invalid
  | [a] => if a.utf8Size < 2 then .error .tooShort else .error .invalid
  | [] => .error .tooShort

/-- An offset from universal time in seconds. -/
def offset (s : List Char) : Except ReadError (Int × List Char) :=
  match s with
  | 'U' :: 'T' :: 'C' :: rest => .ok (0, rest)
  | c :: rest =>
    if c = 'Z' ∨ c = 'z' then .ok (0, rest)
    else if (s.take 3).map Char.toUpper = ['U', 'T', 'C'] then .ok (0, s.drop 3)
    else if c = '+' ∨ c = '-' ∨ c = '\u2212' then do
      let (hours, rest) ← twoDigits '9' rest
      let (minutes, rest) ← twoDigits '5' (rest.dropWhile fun c => c = ':' ∨ Text.isBlank c)
      let seconds : Int := hours * 3600 + minutes * 60
      return (if c = '+' then seconds else -seconds, rest)
    else .error .invalid
  | [] => .error .tooShort

def read (s : List Char) : Except ReadError Instant := do
  let (year, s) ← year s
  let s ← mark '-' s
  let (month, s) ← bounded 1 12 s
  let s ← mark '-' s
  let (day, s) ← bounded 1 31 s
  let s ← match s with
    | [] => .error .tooShort
    | c :: rest => if c = 't' ∨ c = 'T' ∨ c = ' ' then .ok rest else .error .invalid
  let (hour, s) ← bounded 0 23 s
  let s ← mark ':' s
  let (minute, s) ← bounded 0 59 s
  let s ← mark ':' s
  let (second, s) ← bounded 0 60 s
  let (nanos, s) ← fraction s
  let (offset, s) ← offset (Text.trimStart s)
  if Text.trimStart s ≠ [] then .error .tooLong
  if year < leastYear ∨ greatestYear < year ∨ daysInMonth year month < day then .error .outOfRange
  if offset ≤ -86400 ∨ 86400 ≤ offset then .error .outOfRange
  let leap := if second = 60 then 1 else 0
  let seconds := daysOf ⟨year, month, day⟩ * 86400 + hour * 3600 + minute * 60
    + (second - leap : Nat) - offset
  let utc := (dateOf (seconds / 86400)).year
  if utc < leastYear ∨ greatestYear < utc then .error .noSuchTime
  return ⟨seconds, nanos + leap * 1000000000⟩

def decode : Document.Decoder Instant :=
  .notated "an RFC 3339 formatted date and time string" fun s =>
    (read s.toList).mapError ReadError.message

end Instant
end StepPipeline

/-!
# UTF-8: between octets and text

Octets are read one character at a time. `next` takes the longest run of octets that begins a
well-formed character; when the run breaks off it stands for nothing, and reading goes on after it.

* `encode`: the octets of a text,
* `decode?`: the text of octets that are well-formed throughout,
* `decodeLossy`: the text of any octets, with U+FFFD for every broken run.
-/
namespace StepPipeline

/-- What a process writes and a file holds. -/
abbrev Bytes := List UInt8

namespace Utf8

/-- The octets of one character. -/
def encodeChar (c : Char) : Bytes :=
  let n := c.toNat
  if n < 0x80 then [n.toUInt8]
  else if n < 0x800 then [(0xC0 + n / 0x40).toUInt8, (0x80 + n % 0x40).toUInt8]
  else if n < 0x10000 then
    [(0xE0 + n / 0x1000).toUInt8, (0x80 + n / 0x40 % 0x40).toUInt8, (0x80 + n % 0x40).toUInt8]
  else
    [(0xF0 + n / 0x40000).toUInt8, (0x80 + n / 0x1000 % 0x40).toUInt8,
      (0x80 + n / 0x40 % 0x40).toUInt8, (0x80 + n % 0x40).toUInt8]

def encode (s : String) : Bytes :=
  s.toList.flatMap encodeChar

def isTail (b : UInt8) : Bool :=
  0x80 ≤ b && b ≤ 0xBF

/-- How a character begins: the bits its first octet gives, the octets still owed, and the range
the next octet must lie in. -/
structure Lead where
  bits : Nat
  owed : Nat
  least : UInt8
  greatest : UInt8

/-- The first octets of characters longer than one octet; the ranges leave out overlong forms,
surrogates and code points above U+10FFFF. -/
def lead? (b : UInt8) : Option Lead :=
  if 0xC2 ≤ b && b ≤ 0xDF then some ⟨b.toNat - 0xC0, 1, 0x80, 0xBF⟩
  else if b = 0xE0 then some ⟨0, 2, 0xA0, 0xBF⟩
  else if b = 0xED then some ⟨0xD, 2, 0x80, 0x9F⟩
  else if 0xE1 ≤ b && b ≤ 0xEF then some ⟨b.toNat - 0xE0, 2, 0x80, 0xBF⟩
  else if b = 0xF0 then some ⟨0, 3, 0x90, 0xBF⟩
  else if 0xF1 ≤ b && b ≤ 0xF3 then some ⟨b.toNat - 0xF0, 3, 0x80, 0xBF⟩
  else if b = 0xF4 then some ⟨4, 3, 0x80, 0x8F⟩
  else none

/-- Takes the owed octets as long as they fit: the code point if all did, and how many were
taken. -/
def takeTail (acc : Nat) : (owed : Nat) → (least greatest : UInt8) → Bytes → Option Nat × Nat
  | 0, _, _, _ => (some acc, 0)
  | _ + 1, _, _, [] => (none, 0)
  | owed + 1, least, greatest, b :: rest =>
    if least ≤ b && b ≤ greatest then
      let (code, taken) := takeTail (acc * 0x40 + (b.toNat - 0x80)) owed 0x80 0xBF rest
      (code, taken + 1)
    else (none, 0)

/-- The character that `b` begins, if it is whole, and how many octets after `b` belong to it. -/
def next (b : UInt8) (rest : Bytes) : Option Char × Nat :=
  if b < 0x80 then (some (Char.ofNat b.toNat), 0)
  else match lead? b with
    | none => (none, 0)
    | some l =>
      let (code, taken) := takeTail l.bits l.owed l.least l.greatest rest
      (code.map Char.ofNat, taken)

/-- The characters of `bytes`, with `none` for each broken run. -/
def chars : Bytes → List (Option Char)
  | [] => []
  | b :: rest =>
    let (c, taken) := next b rest
    c :: chars (rest.drop taken)
termination_by bytes => bytes.length
decreasing_by simp only [List.length_drop, List.length_cons]; omega

/-- The text of well-formed octets. -/
def decode? (bytes : Bytes) : Option String :=
  ((chars bytes).mapM id).map String.ofList

/-- The text of any octets; a broken run becomes one replacement character. -/
def decodeLossy (bytes : Bytes) : String :=
  String.ofList ((chars bytes).map (·.getD '\uFFFD'))

/-- The number of octets of a text. -/
def size (s : List Char) : Nat :=
  s.foldr (fun c n => c.utf8Size + n) 0

end Utf8
end StepPipeline

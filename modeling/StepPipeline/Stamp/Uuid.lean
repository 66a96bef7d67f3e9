import StepPipeline.Document.Decode
import StepPipeline.Number.Double
import StepPipeline.Text.Utf8

/-!
# Identifiers of 128 bits

An identifier is written as 32 hexadecimal digits in five groups between hyphens. It may also be
read without hyphens, between braces, or as a URN.
-/
namespace StepPipeline

structure Uuid where
  value : BitVec 128
  deriving DecidableEq, Repr, Inhabited

namespace Uuid

inductive ReadError where
  /-- A character that is neither a digit nor a hyphen, and its place, counted from one. -/
  | badChar (c : Char) (place : Nat)
  | badLength (length : Nat)
  | badGroupCount (count : Nat)
  | badGroupLength (group expected found : Nat)
  deriving DecidableEq, Repr

def ReadError.message : ReadError → String
  | badChar c place =>
    "invalid character: expected an optional prefix of `urn:uuid:` followed by [0-9a-fA-F-], found `"
      ++ String.ofList [c] ++ "` at " ++ toString place
  | badLength n => "invalid length: expected length 32 for simple format, found " ++ toString n
  | badGroupCount n => "invalid group count: expected 5, found " ++ toString n
  | badGroupLength group expected found =>
    "invalid group length in group " ++ toString group ++ ": expected " ++ toString expected
      ++ ", found " ++ toString found

def digit? (c : Char) : Option Nat :=
  if '0' ≤ c ∧ c ≤ '9' then some (c.toNat - 0x30)
  else if 'a' ≤ c ∧ c ≤ 'f' then some (c.toNat - 0x57)
  else if 'A' ≤ c ∧ c ≤ 'F' then some (c.toNat - 0x37)
  else none

def ofDigits? (cs : List Char) : Option Uuid :=
  (cs.mapM digit?).map fun ds => ⟨BitVec.ofNat 128 (ds.foldl (fun n d => n * 16 + d) 0)⟩

/-- The first place in front of a hyphen where a group ends elsewhere than it should: the group and
its length. `starts` are the proper beginnings of the groups. -/
def misplaced : (group : Nat) → (starts hyphens : List Nat) → Option (Nat × Nat)
  | group, start :: next :: starts, hyphen :: hyphens =>
    if hyphen + 1 = next then misplaced (group + 1) (next :: starts) hyphens
    else some (group, hyphen - start)
  | _, _, _ => none

/-- Why `text` cannot be read. -/
def explain (text : List Char) : ReadError :=
  let (inner, offset, simple) := match text with
    | '\x7b' :: rest =>
      if rest.getLast? = some '\x7d' then (rest.dropLast, 1, false) else (text, 0, true)
    | 'u' :: 'r' :: 'n' :: ':' :: 'u' :: 'u' :: 'i' :: 'd' :: ':' :: rest => (rest, 9, false)
    | _ => (text, 0, true)
  match scan inner 0 with
  | .error (c, place) => .badChar c (place + offset + 1)
  | .ok hyphens =>
    if hyphens = [] ∧ simple then .badLength (Utf8.size text)
    else if hyphens.length ≠ 4 then .badGroupCount (hyphens.length + 1)
    else match misplaced 0 [0, 9, 14, 19, 24] hyphens with
      | some (group, found) => .badGroupLength group ([8, 4, 4, 4].getD group 12) found
      | none => .badGroupLength 4 12 (Utf8.size text - 24)
where
  /-- The places of the hyphens, or the first character that does not belong. -/
  scan : List Char → Nat → Except (Char × Nat) (List Nat)
    | [], _ => .ok []
    | c :: rest, place =>
      if c = '-' then (scan rest (place + 1)).map (place :: ·)
      else if (digit? c).isSome then scan rest (place + 1)
      else .error (c, place)

/-- Reads five groups between hyphens. -/
def readGroups (text : List Char) : Except ReadError Uuid :=
  let groups := (text.splitOn '-')
  match groups.map List.length, ofDigits? groups.flatten with
  | [8, 4, 4, 4, 12], some id => .ok id
  | _, _ => .error (explain text)

def read (text : List Char) : Except ReadError Uuid :=
  match Utf8.size text, text with
  | 32, _ =>
    match ofDigits? text with
    | some id => .ok id
    | none => .error (explain text)
  | 36, _ => readGroups text
  | 38, '\x7b' :: rest =>
    if rest.getLast? = some '\x7d' then readGroups rest.dropLast else .error (explain text)
  | 45, 'u' :: 'r' :: 'n' :: ':' :: 'u' :: 'u' :: 'i' :: 'd' :: ':' :: rest => readGroups rest
  | _, _ => .error (explain text)

/-- The 32 digits. -/
def digits (id : Uuid) : List Char :=
  (List.range 32).map fun i => Text.hexDigit (id.value.toNat / twoTo (4 * (31 - i)) % 16)

def toString (id : Uuid) : String :=
  let ds := id.digits
  String.ofList (ds.take 8 ++ '-' :: (ds.drop 8).take 4 ++ '-' :: (ds.drop 12).take 4
    ++ '-' :: (ds.drop 16).take 4 ++ '-' :: ds.drop 20)

/-- The random identifier that takes its free bits from `value`. -/
def random (value : BitVec 128) : Uuid :=
  let free := value &&& ~~~(BitVec.ofNat 128 (0xF000C000 * twoTo 48))
  ⟨free ||| BitVec.ofNat 128 (0x40008000 * twoTo 48)⟩

def decode : Document.Decoder Uuid :=
  .notated "a UUID string" fun s =>
    (read s.toList).mapError fun e => "UUID parsing failed: " ++ e.message

end Uuid
end StepPipeline

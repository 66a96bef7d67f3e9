import StepPipeline.Document.Fault

/-!
# Places and characters in YAML text

A cursor is the unread part of a text, with the characters, lines and columns before it.
-/
namespace StepPipeline.Yaml

/-- A place in a text; all counts begin at zero. -/
structure Mark where
  index : Nat
  line : Nat
  column : Nat
  deriving DecidableEq, Repr, Inhabited

structure Cursor where
  rest : List Char
  mark : Mark
  deriving Repr

/-- Why a text is not well formed, and where. -/
structure Problem where
  text : String
  mark : Mark
  deriving Repr

def Problem.message (p : Problem) : String :=
  p.text ++ " at line " ++ toString (p.mark.line + 1) ++ " column " ++ toString (p.mark.column + 1)

def isBreak (c : Char) : Bool :=
  c = '\n' || c = '\r' || c = '\u0085' || c = '\u2028' || c = '\u2029'

def isBlank (c : Char) : Bool :=
  c = ' ' || c = '\t'

/-- A letter, a digit, `_` or `-`. -/
def isWord (c : Char) : Bool :=
  c.isAlphanum || c = '_' || c = '-'

/-- Characters that a text may hold. -/
def isAllowed (c : Char) : Bool :=
  let n := c.toNat
  n = 0x09 || n = 0x0A || n = 0x0D || (0x20 ≤ n && n ≤ 0x7E) || n = 0x85
    || (0xA0 ≤ n && n ≤ 0xD7FF) || (0xE000 ≤ n && n ≤ 0xFFFD) || (0x10000 ≤ n && n ≤ 0x10FFFF)

namespace Cursor

def ofString (s : String) : Cursor := ⟨s.toList, ⟨0, 0, 0⟩⟩

def fail (cur : Cursor) (text : String) : Except Problem α :=
  .error ⟨text, cur.mark⟩

/-- The character `n` places ahead. -/
def ahead (cur : Cursor) (n : Nat) : Option Char := cur.rest[n]?

def peek (cur : Cursor) : Option Char := cur.rest.head?

/-- Whether the next character is `c`. -/
def starts (cur : Cursor) (c : Char) : Bool := cur.peek = some c

/-- Whether the text ends `n` places ahead, or has a blank or line break there. -/
def gapAhead (cur : Cursor) (n : Nat) : Bool :=
  match cur.ahead n with
  | none => true
  | some c => isBlank c || isBreak c

/-- Whether the text or its line ends here. -/
def atLineEnd (cur : Cursor) : Bool :=
  match cur.peek with
  | none => true
  | some c => isBreak c

def atBlank (cur : Cursor) : Bool :=
  match cur.peek with
  | none => false
  | some c => isBlank c

/-- The cursor behind `n` characters of the line. -/
def skip (cur : Cursor) (n : Nat) : Cursor :=
  let taken := min n cur.rest.length
  ⟨cur.rest.drop n,
    { cur.mark with index := cur.mark.index + taken, column := cur.mark.column + taken }⟩

/-- The line break at the cursor, as it counts in a text, and the cursor behind it. -/
def lineBreak (cur : Cursor) : List Char × Cursor :=
  let next (n : Nat) : Cursor := ⟨cur.rest.drop n, ⟨cur.mark.index + n, cur.mark.line + 1, 0⟩⟩
  match cur.rest with
  | '\r' :: '\n' :: _ => (['\n'], next 2)
  | c :: _ =>
    if c = '\u2028' ∨ c = '\u2029' then ([c], next 1)
    else if isBreak c then (['\n'], next 1)
    else ([], cur)
  | [] => ([], cur)

/-- The characters up to the first that does not satisfy `p`, and the cursor behind them. -/
def takeWhile (cur : Cursor) (p : Char → Bool) : List Char × Cursor :=
  let taken := cur.rest.takeWhile p
  (taken, cur.skip taken.length)

def skipWhile (cur : Cursor) (p : Char → Bool) : Cursor := (cur.takeWhile p).2

/-- The cursor behind blanks and a comment, if one follows. -/
def skipComment (cur : Cursor) : Cursor :=
  let cur := cur.skipWhile isBlank
  if cur.starts '#' then cur.skipWhile (!isBreak ·) else cur

/-- Whether a line begins here with `c` three times and then a gap. -/
def atIndicator (cur : Cursor) (c : Char) : Bool :=
  cur.mark.column = 0 && cur.rest.take 3 = [c, c, c] && cur.gapAhead 3

/-- Whether a document begins or ends at this line. -/
def atDocumentIndicator (cur : Cursor) : Bool :=
  cur.atIndicator '-' || cur.atIndicator '.'

end Cursor
end StepPipeline.Yaml

import StepPipeline.Yaml.Cursor

/-!
# Scalars in YAML text

Plain, quoted and block scalars, read from their first character. Line breaks inside a flow scalar
are folded: a single one is a space, of several the first is dropped.
-/
namespace StepPipeline.Yaml

/-! ## Folding -/

/-- Blanks and line breaks between two parts of a scalar. -/
structure Gap where
  /-- Whether a line break has been seen. -/
  broken : Bool
  blanks : List Char
  first : List Char
  more : List Char

def Gap.empty : Gap := ⟨false, [], [], []⟩

/-- What a gap counts as between two parts. -/
def Gap.fold (g : Gap) : List Char :=
  if g.broken then
    if g.first.head? = some '\n' then (if g.more.isEmpty then [' '] else g.more)
    else g.first ++ g.more
  else g.blanks

/-- Takes blanks and line breaks. In a line after the first, a tab before column `indent` is a
fault. -/
def takeGap (indent : Nat) : (limit : Nat) → Gap → Cursor → Except Problem (Gap × Cursor)
  | 0, g, cur => .ok (g, cur)
  | limit + 1, g, cur =>
    match cur.peek with
    | none => .ok (g, cur)
    | some c =>
      if isBlank c then
        if g.broken ∧ c = '\t' ∧ cur.mark.column < indent then
          cur.fail "found a tab character that violates indentation"
        else
          takeGap indent limit (if g.broken then g else { g with blanks := g.blanks ++ [c] })
            (cur.skip 1)
      else if isBreak c then
        let (text, next) := cur.lineBreak
        takeGap indent limit
          (if g.broken then { g with more := g.more ++ text } else ⟨true, [], text, []⟩) next
      else .ok (g, cur)

/-! ## Plain scalars -/

def isFlowIndicator (c : Char) : Bool :=
  c = ',' || c = '[' || c = ']' || c = '\x7b' || c = '\x7d'

/-- Takes the part of a plain scalar up to a blank, a line break or the end of the scalar. -/
def takePlain (inFlow : Bool) : (limit : Nat) → Cursor → Except Problem (List Char × Cursor)
  | 0, cur => .ok ([], cur)
  | limit + 1, cur =>
    match cur.peek with
    | none => .ok ([], cur)
    | some c =>
      if isBlank c || isBreak c then .ok ([], cur)
      else if inFlow && c = ':'
          && (cur.ahead 1).any (fun d => isFlowIndicator d || d = '?') then
        cur.fail "found unexpected ':'"
      else if (c = ':' && cur.gapAhead 1) || (inFlow && isFlowIndicator c) then .ok ([], cur)
      else do
        let (more, next) ← takePlain inFlow limit (cur.skip 1)
        return (c :: more, next)

/-- Reads a plain scalar that may go on in lines indented by `indent`. Returns its text, the cursor
behind it and the blanks after it, and whether these have a line break. -/
def readPlain (inFlow : Bool) (indent : Nat) :
    (limit : Nat) → (text : List Char) → Gap → Cursor →
      Except Problem (List Char × Bool × Cursor)
  | 0, text, gap, cur => .ok (text, gap.broken, cur)
  | limit + 1, text, gap, cur =>
    if cur.atDocumentIndicator || cur.starts '#' then .ok (text, gap.broken, cur)
    else do
      let (part, next) ← takePlain inFlow (cur.rest.length + 1) cur
      let (text, gap) :=
        if part.isEmpty then (text, gap) else (text ++ gap.fold ++ part, Gap.empty)
      match next.peek with
      | none => return (text, gap.broken, next)
      | some c =>
        if !(isBlank c || isBreak c) then return (text, gap.broken, next)
        else
          let (gap, next) ← takeGap indent (next.rest.length + 1) gap next
          if !inFlow && next.mark.column < indent then return (text, gap.broken, next)
          else readPlain inFlow indent limit text gap next

/-! ## Quoted scalars -/

/-- The character that a one-letter escape stands for. -/
def escaped? (c : Char) : Option Char :=
  match c with
  | '0' => some '\x00'
  | 'a' => some '\x07'
  | 'b' => some '\x08'
  | 't' | '\t' => some '\t'
  | 'n' => some '\n'
  | 'v' => some '\x0b'
  | 'f' => some '\x0c'
  | 'r' => some '\r'
  | 'e' => some '\x1b'
  | ' ' | '"' | '/' | '\\' => some c
  | 'N' => some '\u0085'
  | '_' => some '\u00a0'
  | 'L' => some '\u2028'
  | 'P' => some '\u2029'
  | _ => none

/-- How many digits follow an escape that gives a code. -/
def codeLength? (c : Char) : Option Nat :=
  match c with
  | 'x' => some 2
  | 'u' => some 4
  | 'U' => some 8
  | _ => none

def hex? (c : Char) : Option Nat :=
  if '0' ≤ c ∧ c ≤ '9' then some (c.toNat - 0x30)
  else if 'a' ≤ c ∧ c ≤ 'f' then some (c.toNat - 0x57)
  else if 'A' ≤ c ∧ c ≤ 'F' then some (c.toNat - 0x37)
  else none

/-- The number that exactly `count` hexadecimal digits write. -/
def hexCode? (count : Nat) (cs : List Char) : Option Nat :=
  let digits := cs.take count
  if digits.length < count then none
  else (digits.mapM hex?).map fun ds => ds.foldl (fun n d => n * 16 + d) 0

/-- Reads the escape at the cursor. -/
def readEscape (cur : Cursor) : Except Problem (Char × Cursor) :=
  match cur.ahead 1 with
  | none => cur.fail "found unknown escape character"
  | some c =>
    match escaped? c, codeLength? c with
    | some d, _ => .ok (d, cur.skip 2)
    | none, some count =>
      match hexCode? count (cur.rest.drop 2) with
      | none => cur.fail "did not find expected hexdecimal number"
      | some n =>
        if (0xD800 ≤ n ∧ n ≤ 0xDFFF) ∨ 0x10FFFF < n then
          cur.fail "found invalid Unicode character escape code"
        else .ok (Char.ofNat n, cur.skip (2 + count))
    | none, none => cur.fail "found unknown escape character"

/-- Takes the part of a quoted scalar up to a blank, a line break, the closing quote or an escaped
line break; returns whether it was the last of these. -/
def takeQuoted (quote : Char) : (limit : Nat) → Cursor → Except Problem (List Char × Bool × Cursor)
  | 0, cur => .ok ([], false, cur)
  | limit + 1, cur =>
    match cur.peek with
    | none => .ok ([], false, cur)
    | some c =>
      let onward (d : Char) (next : Cursor) : Except Problem (List Char × Bool × Cursor) := do
        let (more, broken, last) ← takeQuoted quote limit next
        return (d :: more, broken, last)
      if isBlank c || isBreak c then .ok ([], false, cur)
      else if quote = '\'' && c = '\'' && cur.ahead 1 = some '\'' then onward '\'' (cur.skip 2)
      else if c = quote then .ok ([], false, cur)
      else if quote = '"' && c = '\\' then
        if (cur.ahead 1).any isBreak then .ok ([], true, (cur.skip 1).lineBreak.2)
        else do
          let (d, next) ← readEscape cur
          onward d next
      else onward c (cur.skip 1)

/-- Reads a quoted scalar from behind its opening quote. -/
def readQuoted (quote : Char) :
    (limit : Nat) → (text : List Char) → Cursor → Except Problem (List Char × Cursor)
  | 0, _, cur => cur.fail "found unexpected end of stream"
  | limit + 1, text, cur =>
    if cur.atDocumentIndicator then cur.fail "found unexpected document indicator"
    else if cur.rest.isEmpty then cur.fail "found unexpected end of stream"
    else do
      let (part, broken, next) ← takeQuoted quote (cur.rest.length + 1) cur
      let text := text ++ part
      if next.starts quote then return (text, next.skip 1)
      else
        let (gap, next) ← takeGap 0 (next.rest.length + 1) { Gap.empty with broken } next
        readQuoted quote limit (text ++ gap.fold) next

/-! ## Block scalars -/

/-- What happens to the line breaks at the end of a block scalar. -/
inductive Chomping where
  | strip
  | clip
  | keep
  deriving DecidableEq, Repr

def chomping? (cur : Cursor) : Option Chomping :=
  if cur.starts '+' then some .keep else if cur.starts '-' then some .strip else none

/-- The indentation at the cursor, if a digit gives one. -/
def increment? (cur : Cursor) : Except Problem (Option Nat) :=
  match cur.peek with
  | some c =>
    if c = '0' then cur.fail "found an indentation indicator equal to 0"
    else if c.isDigit then .ok (some (c.toNat - 0x30))
    else .ok none
  | none => .ok none

/-- Reads the header behind the indicator of a block scalar: chomping and indentation in either
order, then the rest of the line. -/
def readHeader (cur : Cursor) : Except Problem (Chomping × Option Nat × Cursor) := do
  let (chomping, increment, cur) ← match chomping? cur with
    | some chomping => do
      let cur := cur.skip 1
      let increment ← increment? cur
      pure (chomping, increment, if increment.isSome then cur.skip 1 else cur)
    | none => do
      match ← increment? cur with
      | none => pure (.clip, none, cur)
      | some n =>
        let cur := cur.skip 1
        match chomping? cur with
        | some chomping => pure (chomping, some n, cur.skip 1)
        | none => pure (.clip, some n, cur)
  let cur := cur.skipComment
  if !cur.atLineEnd then cur.fail "did not find expected comment or line break"
  return (chomping, increment, cur.lineBreak.2)

/-- Takes indentation and empty lines; `indent` is zero as long as it is not known. Returns the line
breaks and the greatest column reached. -/
def takeBreaks (indent : Nat) :
    (limit : Nat) → (breaks : List Char) → (greatest : Nat) → Cursor →
      Except Problem (List Char × Nat × Cursor)
  | 0, breaks, greatest, cur => .ok (breaks, greatest, cur)
  | limit + 1, breaks, greatest, cur =>
    let spaces := (cur.rest.takeWhile (· = ' ')).length
    let room := if indent = 0 then spaces else indent - cur.mark.column
    let cur := cur.skip (min spaces room)
    let greatest := max greatest cur.mark.column
    if (indent = 0 ∨ cur.mark.column < indent) ∧ cur.starts '\t' then
      cur.fail "found a tab character where an indentation space is expected"
    else if cur.peek.any isBreak then
      let (text, next) := cur.lineBreak
      takeBreaks indent limit (breaks ++ text) greatest next
    else .ok (breaks, greatest, cur)

/-- Reads the lines of a block scalar. `lead` is the line break before the current line and `breaks`
are those of the empty lines after it; `blankLead` tells whether the line before began blank. -/
def readLines (literal : Bool) (chomping : Chomping) (indent : Nat) :
    (limit : Nat) → (text lead breaks : List Char) → (blankLead : Bool) → Cursor →
      Except Problem (List Char × Cursor)
  | 0, text, _, _, _, cur => .ok (text, cur)
  | limit + 1, text, lead, breaks, blankLead, cur =>
    if cur.mark.column = indent ∧ !cur.rest.isEmpty then do
      let folded := !literal && lead.head? = some '\n' && !blankLead && !cur.atBlank
      let joint := if folded then (if breaks.isEmpty then [' '] else []) else lead
      let (line, next) := cur.takeWhile (!isBreak ·)
      let (lead, next) := next.lineBreak
      let (after, _, next) ← takeBreaks indent (next.rest.length + 1) [] 0 next
      readLines literal chomping indent limit (text ++ joint ++ breaks ++ line) lead after
        cur.atBlank next
    else
      let text := if chomping = .strip then text else text ++ lead
      .ok (if chomping = .keep then text ++ breaks else text, cur)

/-- Reads a block scalar from behind its indicator, inside a block indented by `parent`. -/
def readBlock (literal : Bool) (parent : Int) (cur : Cursor) :
    Except Problem (List Char × Cursor) := do
  let (chomping, increment, cur) ← readHeader cur
  let given := match increment with
    | none => 0
    | some n => (max parent 0).toNat + n
  let (breaks, greatest, cur) ← takeBreaks given (cur.rest.length + 1) [] 0 cur
  let indent := if given = 0 then max (max greatest (parent + 1).toNat) 1 else given
  readLines literal chomping indent (cur.rest.length + 1) [] [] breaks false cur

end StepPipeline.Yaml

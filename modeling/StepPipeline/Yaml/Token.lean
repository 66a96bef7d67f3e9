import StepPipeline.Text.Utf8
import StepPipeline.Yaml.Scalar

/-!
# YAML tokens

A `Lexer` is a text on its way into tokens: the cursor, the tokens that wait, and what the tokens so
far say about the next ones. Whether a token begins a key shows only at the colon after it, so a
place where a key may begin is remembered, and tokens from that place on wait.
-/
namespace StepPipeline.Yaml

inductive Token where
  | streamEnd
  | version (major minor : Nat)
  | tagShorthand (handle stem : String)
  | documentStart
  | documentEnd
  | blockSequenceStart
  | blockMappingStart
  | blockEnd
  | flowSequenceStart
  | flowSequenceEnd
  | flowMappingStart
  | flowMappingEnd
  | blockEntry
  | flowEntry
  | key
  | value
  | reference (name : String)
  | anchor (name : String)
  | tag (handle suffix : String)
  | scalar (text : String) (plain : Bool)
  deriving DecidableEq, Repr

/-- A place where a key may have begun: the number of its first token, and whether nothing but a key
may stand there. -/
structure KeyPlace where
  number : Nat
  mark : Mark
  required : Bool
  deriving Repr

structure Lexer where
  cursor : Cursor
  /-- Tokens that have not been taken. -/
  waiting : List Token
  /-- The number of tokens taken. -/
  taken : Nat
  /-- The column of the innermost block, and those of the blocks around it. -/
  indent : Int
  indents : List Int
  /-- Whether a key may begin here. -/
  keyAllowed : Bool
  /-- The latest place for a key in each open flow collection, the innermost first, and outside. -/
  keyPlaces : List (Option KeyPlace)
  deriving Repr

namespace Lexer

def ofString (s : String) : Lexer :=
  ⟨.ofString s, [], 0, -1, [], true, [none]⟩

def inFlow (lx : Lexer) : Bool := 1 < lx.keyPlaces.length

def fail (lx : Lexer) (text : String) : Except Problem α := lx.cursor.fail text

def emit (lx : Lexer) (token : Token) : Lexer :=
  { lx with waiting := lx.waiting ++ [token] }

/-- Puts a token before the one with the given number. -/
def emitAt (lx : Lexer) (number : Nat) (token : Token) : Lexer :=
  { lx with waiting := lx.waiting.insertIdx (number - lx.taken) token }

/-- The number that the next token will have. -/
def nextNumber (lx : Lexer) : Nat := lx.taken + lx.waiting.length

def skip (lx : Lexer) (n : Nat) : Lexer :=
  { lx with cursor := lx.cursor.skip n }

/-! ## Keys and blocks -/

def keyExpected : String := "could not find expected ':'"

/-- Gives up the places whose key is no longer possible: keys keep to one line and are not long. -/
def dropStale (lx : Lexer) : Except Problem Lexer := do
  let here := lx.cursor.mark
  let places ← lx.keyPlaces.mapM fun
    | none => pure none
    | some place =>
      if place.mark.line < here.line ∨ place.mark.index + 1024 < here.index then
        if place.required then lx.fail keyExpected else pure none
      else pure (some place)
  return { lx with keyPlaces := places }

/-- Gives up the innermost place. -/
def dropPlace (lx : Lexer) : Except Problem Lexer :=
  match lx.keyPlaces with
  | some place :: rest =>
    if place.required then lx.fail keyExpected else .ok { lx with keyPlaces := none :: rest }
  | _ => .ok lx

/-- Remembers that a key may begin here. -/
def savePlace (lx : Lexer) : Except Problem Lexer :=
  if lx.keyAllowed then do
    let required := !lx.inFlow && lx.indent = lx.cursor.mark.column
    let place : KeyPlace := ⟨lx.nextNumber, lx.cursor.mark, required⟩
    let lx ← lx.dropPlace
    return { lx with keyPlaces := some place :: lx.keyPlaces.drop 1 }
  else .ok lx

/-- Opens a block at a column deeper than the current one. -/
def openBlock (lx : Lexer) (column : Nat) (number : Option Nat) (token : Token) : Lexer :=
  if !lx.inFlow && lx.indent < column then
    let lx := { lx with indents := lx.indent :: lx.indents, indent := column }
    match number with
    | some n => lx.emitAt n token
    | none => lx.emit token
  else lx

/-- Closes the blocks deeper than a column. -/
def closeBlocks (lx : Lexer) (column : Int) : Lexer :=
  if lx.inFlow then lx
  else
    let closed := (lx.indent :: lx.indents).takeWhile (column < ·)
    match (lx.indent :: lx.indents).drop closed.length with
    | indent :: indents =>
      { lx with indent, indents, waiting := lx.waiting ++ closed.map fun _ => Token.blockEnd }
    | [] => lx

/-! ## Between tokens -/

/-- Skips blanks, comments and line breaks. Outside flow collections a tab may not stand where a key
may begin, and a key may begin in a new line. -/
def toNext : (limit : Nat) → Lexer → Lexer
  | 0, lx => lx
  | limit + 1, lx =>
    let cur := if lx.cursor.mark.index = 0 && lx.cursor.starts '\uFEFF' then lx.cursor.skip 1
      else lx.cursor
    let tabs := lx.inFlow || !lx.keyAllowed
    let cur := cur.skipWhile fun c => c = ' ' || (tabs && c = '\t')
    let cur := if cur.starts '#' then cur.skipWhile (!isBreak ·) else cur
    if cur.peek.any isBreak then
      toNext limit { lx with
        cursor := cur.lineBreak.2, keyAllowed := if lx.inFlow then lx.keyAllowed else true }
    else { lx with cursor := cur }

/-! ## Directives, tags and anchors -/

/-- A decimal number of at most nine digits. -/
def readNumber (cur : Cursor) : Except Problem (Nat × Cursor) :=
  let (digits, next) := cur.takeWhile Char.isDigit
  if digits.isEmpty then cur.fail "did not find expected version number"
  else if 9 < digits.length then cur.fail "found extremely long version number"
  else .ok (digits.foldl (fun n c => n * 10 + (c.toNat - 0x30)) 0, next)

/-- `!`, then letters and perhaps another `!`. -/
def readHandle (directive : Bool) (cur : Cursor) : Except Problem (List Char × Cursor) :=
  if !cur.starts '!' then cur.fail "did not find expected '!'"
  else
    let (word, next) := (cur.skip 1).takeWhile isWord
    if next.starts '!' then .ok ('!' :: word ++ ['!'], next.skip 1)
    else if directive && !word.isEmpty then next.fail "did not find expected '!'"
    else .ok ('!' :: word, next)

/-- Characters that a tag may hold besides letters. -/
def isTagMark (verbatim : Bool) (c : Char) : Bool :=
  ";/?:@&=+$.!~*'()".toList.contains c || (verbatim && (c = ',' || c = '[' || c = ']'))

/-- The octets that escapes at the cursor give, `owed` more of them. -/
def takeOctets : (owed : Nat) → Cursor → Except Problem (Bytes × Cursor)
  | 0, cur => .ok ([], cur)
  | owed + 1, cur =>
    match cur.starts '%', hexCode? 2 (cur.rest.drop 1) with
    | true, some n =>
      if 0x80 ≤ n ∧ n < 0xC0 then do
        let (more, next) ← takeOctets owed (cur.skip 3)
        return (n.toUInt8 :: more, next)
      else cur.fail "found an incorrect trailing UTF-8 octet"
    | _, _ => cur.fail "did not find URI escaped octet"

/-- The character that escapes at the cursor give, octet by octet. -/
def readTagEscape (cur : Cursor) : Except Problem (List Char × Cursor) := do
  match hexCode? 2 (cur.rest.drop 1) with
  | none => cur.fail "did not find URI escaped octet"
  | some n =>
    let owed ←
      if n < 0x80 then pure 0
      else if 0xC0 ≤ n ∧ n < 0xE0 then pure 1
      else if 0xE0 ≤ n ∧ n < 0xF0 then pure 2
      else if 0xF0 ≤ n ∧ n < 0xF8 then pure 3
      else cur.fail "found an incorrect leading UTF-8 octet"
    let (tail, next) ← takeOctets owed (cur.skip 3)
    return ((Utf8.decodeLossy (n.toUInt8 :: tail)).toList, next)

/-- Takes the characters of a tag. -/
def takeTag (verbatim : Bool) : (limit : Nat) → Cursor → Except Problem (List Char × Cursor)
  | 0, cur => .ok ([], cur)
  | limit + 1, cur =>
    match cur.peek with
    | none => .ok ([], cur)
    | some c =>
      if c = '%' then do
        let (here, next) ← readTagEscape cur
        let (more, last) ← takeTag verbatim limit next
        return (here ++ more, last)
      else if isWord c || isTagMark verbatim c then do
        let (more, last) ← takeTag verbatim limit (cur.skip 1)
        return (c :: more, last)
      else .ok ([], cur)

/-- Reads a tag whose first characters are `head`, a `!` before them not counted. -/
def readTagText (verbatim : Bool) (head : List Char) (cur : Cursor) :
    Except Problem (List Char × Cursor) := do
  let (text, next) ← takeTag verbatim (cur.rest.length + 1) cur
  if text.isEmpty ∧ head.isEmpty then cur.fail "did not find expected tag URI"
  return (head.drop 1 ++ text, next)

/-- A handle between two `!`. -/
def isHandle (handle : List Char) : Bool :=
  1 < handle.length && handle.getLast? = some '!'

/-- Reads the tag at the cursor: between angle brackets, with a handle, or after a single `!`. -/
def readTag (inFlow : Bool) (cur : Cursor) : Except Problem (Token × Cursor) := do
  let (handle, suffix, next) ←
    if cur.ahead 1 = some '<' then do
      let (text, next) ← readTagText true [] (cur.skip 2)
      if !next.starts '>' then next.fail "did not find the expected '>'"
      pure ([], text, next.skip 1)
    else do
      let (handle, next) ← readHandle false cur
      if isHandle handle then do
        let (text, next) ← readTagText false [] next
        pure (handle, text, next)
      else do
        let (text, next) ← readTagText false handle next
        pure (if text.isEmpty then ([], ['!'], next) else (['!'], text, next))
  if !(inFlow && next.starts ',') && !next.gapAhead 0 then
    next.fail "did not find expected whitespace or line break"
  return (.tag (String.ofList handle) (String.ofList suffix), next)

/-- Reads the name of an anchor or alias from behind its indicator. -/
def readName (cur : Cursor) : Except Problem (String × Cursor) :=
  let (word, next) := cur.takeWhile isWord
  let ended := next.gapAhead 0 || next.peek.any ("?:,]\x7d%@\x60".toList.contains ·)
  if word.isEmpty || !ended then
    next.fail "did not find expected alphabetic or numeric character"
  else .ok (String.ofList word, next)

/-- Reads the directive at the cursor, with the rest of its line. -/
def readDirective (cur : Cursor) : Except Problem (Token × Cursor) := do
  let (name, next) := (cur.skip 1).takeWhile isWord
  if name.isEmpty then next.fail "could not find expected directive name"
  if !next.gapAhead 0 then next.fail "found unexpected non-alphabetical character"
  let (token, next) ←
    if name = "YAML".toList then do
      let (major, next) ← readNumber (next.skipWhile isBlank)
      if !next.starts '.' then next.fail "did not find expected digit or '.' character"
      let (minor, next) ← readNumber (next.skip 1)
      pure (Token.version major minor, next)
    else if name = "TAG".toList then do
      let (handle, next) ← readHandle true (next.skipWhile isBlank)
      if !next.atBlank then next.fail "did not find expected whitespace"
      let (stem, next) ← readTagText true [] (next.skipWhile isBlank)
      if !next.gapAhead 0 then next.fail "did not find expected whitespace or line break"
      pure (Token.tagShorthand (String.ofList handle) (String.ofList stem), next)
    else next.fail "found unknown directive name"
  let next := next.skipComment
  if !next.atLineEnd then next.fail "did not find expected comment or line break"
  return (token, next.lineBreak.2)

/-! ## Tokens -/

/-- Ends all blocks, before a directive, a document or the end of the text. -/
def resetBlocks (lx : Lexer) : Except Problem Lexer := do
  let lx ← (lx.closeBlocks (-1)).dropPlace
  return { lx with keyAllowed := false }

def readStreamEnd (lx : Lexer) : Except Problem Lexer := do
  let mark := lx.cursor.mark
  let mark := if mark.column = 0 then mark else { mark with line := mark.line + 1, column := 0 }
  let lx ← { lx with cursor := { lx.cursor with mark } }.resetBlocks
  return lx.emit .streamEnd

def readDocumentMark (lx : Lexer) (token : Token) : Except Problem Lexer := do
  let lx ← lx.resetBlocks
  return (lx.skip 3).emit token

def readFlowStart (lx : Lexer) (token : Token) : Except Problem Lexer := do
  let lx ← lx.savePlace
  return ({ lx with keyPlaces := none :: lx.keyPlaces, keyAllowed := true }.skip 1).emit token

def readFlowEnd (lx : Lexer) (token : Token) : Except Problem Lexer := do
  let lx ← lx.dropPlace
  let places := if lx.inFlow then lx.keyPlaces.drop 1 else lx.keyPlaces
  return ({ lx with keyPlaces := places, keyAllowed := false }.skip 1).emit token

def readFlowEntry (lx : Lexer) : Except Problem Lexer := do
  let lx ← lx.dropPlace
  return ({ lx with keyAllowed := true }.skip 1).emit .flowEntry

def readBlockEntry (lx : Lexer) : Except Problem Lexer := do
  if !lx.inFlow && !lx.keyAllowed then
    lx.fail "block sequence entries are not allowed in this context"
  let lx ← (lx.openBlock lx.cursor.mark.column none .blockSequenceStart).dropPlace
  return ({ lx with keyAllowed := true }.skip 1).emit .blockEntry

def readKey (lx : Lexer) : Except Problem Lexer := do
  if !lx.inFlow && !lx.keyAllowed then
    lx.fail "mapping keys are not allowed in this context"
  let lx ← (lx.openBlock lx.cursor.mark.column none .blockMappingStart).dropPlace
  return ({ lx with keyAllowed := !lx.inFlow }.skip 1).emit .key

/-- A colon: it makes a key of what began at the remembered place, or follows a longer key. -/
def readValue (lx : Lexer) : Except Problem Lexer := do
  match lx.keyPlaces with
  | some place :: places =>
    let lx := (lx.emitAt place.number .key).openBlock place.mark.column (some place.number)
      .blockMappingStart
    return ({ lx with keyPlaces := none :: places, keyAllowed := false }.skip 1).emit .value
  | _ =>
    if !lx.inFlow && !lx.keyAllowed then
      lx.fail "mapping values are not allowed in this context"
    let lx := lx.openBlock lx.cursor.mark.column none .blockMappingStart
    return ({ lx with keyAllowed := !lx.inFlow }.skip 1).emit .value

/-- A token that may begin a key and after which none may begin. -/
def readNode (lx : Lexer) (read : Cursor → Except Problem (Token × Cursor)) :
    Except Problem Lexer := do
  let lx ← lx.savePlace
  let (token, next) ← read lx.cursor
  return { lx with cursor := next, keyAllowed := false }.emit token

def readPlainScalar (lx : Lexer) : Except Problem Lexer := do
  let lx ← lx.savePlace
  let (text, broken, next) ← readPlain lx.inFlow (lx.indent + 1).toNat (lx.cursor.rest.length + 1)
    [] .empty lx.cursor
  return { lx with cursor := next, keyAllowed := broken }.emit (.scalar (String.ofList text) true)

def readBlockScalar (lx : Lexer) (literal : Bool) : Except Problem Lexer := do
  let lx ← lx.dropPlace
  let (text, next) ← readBlock literal lx.indent (lx.cursor.skip 1)
  return { lx with cursor := next, keyAllowed := true }.emit (.scalar (String.ofList text) false)

def readQuotedScalar (quote : Char) (cur : Cursor) : Except Problem (Token × Cursor) := do
  let (text, next) ← readQuoted quote (cur.rest.length + 1) [] (cur.skip 1)
  return (.scalar (String.ofList text) false, next)

/-- Reads the token that begins with `c` at the cursor. -/
def readFrom (lx : Lexer) (c : Char) : Except Problem Lexer :=
  let cur := lx.cursor
  let gap := cur.gapAhead 1
  let flow := lx.inFlow
  if cur.mark.column = 0 && c = '%' then do
    let lx ← lx.resetBlocks
    let (token, next) ← readDirective lx.cursor
    return { lx with cursor := next }.emit token
  else if cur.atIndicator '-' then lx.readDocumentMark .documentStart
  else if cur.atIndicator '.' then lx.readDocumentMark .documentEnd
  else if c = '[' then lx.readFlowStart .flowSequenceStart
  else if c = '\x7b' then lx.readFlowStart .flowMappingStart
  else if c = ']' then lx.readFlowEnd .flowSequenceEnd
  else if c = '\x7d' then lx.readFlowEnd .flowMappingEnd
  else if c = ',' then lx.readFlowEntry
  else if c = '-' && gap then lx.readBlockEntry
  else if c = '?' && (flow || gap) then lx.readKey
  else if c = ':' && (flow || gap) then lx.readValue
  else if c = '*' then lx.readNode fun cur => do
    let (name, next) ← readName (cur.skip 1)
    return (.reference name, next)
  else if c = '&' then lx.readNode fun cur => do
    let (name, next) ← readName (cur.skip 1)
    return (.anchor name, next)
  else if c = '!' then lx.readNode (readTag flow)
  else if c = '|' && !flow then lx.readBlockScalar true
  else if c = '>' && !flow then lx.readBlockScalar false
  else if c = '\'' || c = '"' then lx.readNode (readQuotedScalar c)
  else if isBlank c || "#|>%@\x60".toList.contains c then
    lx.fail "found character that cannot start any token"
  else lx.readPlainScalar

/-- Reads one more token, with the tokens that open or close blocks before it. -/
def readMore (lx : Lexer) : Except Problem Lexer := do
  let lx ← (lx.toNext (lx.cursor.rest.length + 1)).dropStale
  let lx := lx.closeBlocks lx.cursor.mark.column
  match lx.cursor.peek with
  | none => lx.readStreamEnd
  | some c => lx.readFrom c

/-- Reads on until it is settled what the first waiting token is. -/
def settle : (limit : Nat) → Lexer → Except Problem Lexer
  | 0, lx => .ok lx
  | limit + 1, lx => do
    let lx ← if lx.waiting.isEmpty then pure lx else lx.dropStale
    let open_ := lx.keyPlaces.any fun place => place.any (·.number = lx.taken)
    if lx.waiting.isEmpty || open_ then
      settle limit (← lx.readMore)
    else return lx

end Lexer
end StepPipeline.Yaml

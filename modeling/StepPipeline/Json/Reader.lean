import StepPipeline.Document.Node
import StepPipeline.Json.Numeral

/-!
# Reading JSON text

`Text.node` turns a text into a document node, with the faults of the text at the places where they
meet a reader. `Json.parse` reads a whole text as one value.

A reader may stand inside at most `depthLimit` arrays and objects.
-/
namespace StepPipeline.Json

open Document

/-- The number of arrays and objects that a reader may not enter any more. -/
def depthLimit : Nat := 128

/-- The rest of a word whose first letter stands at the cursor. -/
def scanWord : List Char → Cursor → Except Fault Cursor
  | [], cur => .ok cur
  | w :: word, ⟨rest, p⟩ =>
    match rest with
    | [] => .error ⟨.unfinishedValue, some p⟩
    | c :: rest =>
      if c = w then scanWord word ⟨rest, p.after c⟩ else .error ⟨.wordExpected, some (p.into c)⟩

def hex? (c : Char) : Option Nat :=
  if '0' ≤ c ∧ c ≤ '9' then some (c.toNat - 0x30)
  else if 'a' ≤ c ∧ c ≤ 'f' then some (c.toNat - 0x57)
  else if 'A' ≤ c ∧ c ≤ 'F' then some (c.toNat - 0x37)
  else none

/-- The number that four hexadecimal digits write. -/
def hex4? (a b c d : Char) : Option Nat := do
  return ((← hex? a) * 16 + (← hex? b)) * 256 + (← hex? c) * 16 + (← hex? d)

/-- The place behind the next `count` octets, if the text has as many. -/
def octetsBehind : (count : Nat) → List Char → Position → Option Position
  | 0, _, p => some p
  | _ + 1, [], _ => none
  | count + 1, c :: rest, p =>
    if count + 1 < c.utf8Size then some ⟨p.line, p.column + count + 1⟩
    else octetsBehind (count + 1 - c.utf8Size) rest (p.after c)
termination_by count => count
decreasing_by have := c.utf8Size_pos; omega

/-- The fault of an escape that does not have four hexadecimal digits at the cursor. -/
def hexFault (rest : List Char) (p : Position) : Fault :=
  match octetsBehind 4 rest p with
  | some q => ⟨.badEscape, some q⟩
  | none => ⟨.unclosedString, some (p.afterAll rest)⟩

/-- The character that a one-letter escape stands for. -/
def simpleEscape? (c : Char) : Option Char :=
  if c = '"' ∨ c = '\\' ∨ c = '/' then some c
  else if c = 'b' then some '\x08'
  else if c = 'f' then some '\x0c'
  else if c = 'n' then some '\n'
  else if c = 'r' then some '\r'
  else if c = 't' then some '\t'
  else none

def isLeadingSurrogate (n : Nat) : Bool := 0xD800 ≤ n && n ≤ 0xDBFF

def isTrailingSurrogate (n : Nat) : Bool := 0xDC00 ≤ n && n ≤ 0xDFFF

/-- Reads a string from behind its opening quote; `acc` holds the characters so far, last first. -/
def readString (acc : List Char) : List Char → Position → Except Fault (String × Cursor)
  | [], p => .error ⟨.unclosedString, some p⟩
  | '"' :: rest, p => .ok (String.ofList acc.reverse, ⟨rest, p.after '"'⟩)
  | '\\' :: 'u' :: a :: b :: c :: d :: rest, p =>
    let digits := (p.after '\\').after 'u'
    match hex4? a b c d with
    | none => .error (hexFault (a :: b :: c :: d :: rest) digits)
    | some n =>
      let p := digits.afterAll [a, b, c, d]
      if isTrailingSurrogate n then .error ⟨.loneSurrogate, some p⟩
      else if isLeadingSurrogate n then
        match rest with
        | [] => .error ⟨.unclosedString, some p⟩
        | '\\' :: [] => .error ⟨.unclosedString, some (p.after '\\')⟩
        | '\\' :: 'u' :: e :: f :: g :: h :: rest =>
          let digits := (p.after '\\').after 'u'
          match hex4? e f g h with
          | none => .error (hexFault (e :: f :: g :: h :: rest) digits)
          | some m =>
            let p := digits.afterAll [e, f, g, h]
            if isTrailingSurrogate m then
              readString (Char.ofNat (0x10000 + (n - 0xD800) * 0x400 + (m - 0xDC00)) :: acc) rest p
            else .error ⟨.loneSurrogate, some p⟩
        | '\\' :: 'u' :: rest => .error (hexFault rest ((p.after '\\').after 'u'))
        | '\\' :: x :: _ => .error ⟨.unpairedSurrogate, some ((p.after '\\').into x)⟩
        | x :: _ => .error ⟨.unpairedSurrogate, some (p.into x)⟩
      else readString (Char.ofNat n :: acc) rest p
  | '\\' :: 'u' :: rest, p => .error (hexFault rest ((p.after '\\').after 'u'))
  | '\\' :: [], p => .error ⟨.unclosedString, some (p.after '\\')⟩
  | '\\' :: x :: rest, p =>
    match simpleEscape? x with
    | some c => readString (c :: acc) rest ((p.after '\\').after x)
    | none => .error ⟨.badEscape, some ((p.after '\\').into x)⟩
  | x :: rest, p =>
    if x.toNat < 0x20 then .error ⟨.controlCharacter, some (p.into x)⟩
    else readString (x :: acc) rest (p.after x)

/-- Passes over a string from behind its opening quote. -/
def passString : List Char → Position → Except Fault Cursor
  | [], p => .error ⟨.unclosedString, some p⟩
  | '"' :: rest, p => .ok ⟨rest, p.after '"'⟩
  | '\\' :: 'u' :: a :: b :: c :: d :: rest, p =>
    let digits := (p.after '\\').after 'u'
    match hex4? a b c d with
    | none => .error (hexFault (a :: b :: c :: d :: rest) digits)
    | some _ => passString rest (digits.afterAll [a, b, c, d])
  | '\\' :: 'u' :: rest, p => .error (hexFault rest ((p.after '\\').after 'u'))
  | '\\' :: [], p => .error ⟨.unclosedString, some (p.after '\\')⟩
  | '\\' :: x :: rest, p =>
    match simpleEscape? x with
    | some _ => passString rest ((p.after '\\').after x)
    | none => .error ⟨.badEscape, some ((p.after '\\').into x)⟩
  | x :: rest, p =>
    if x.toNat < 0x20 then .error ⟨.controlCharacter, some p⟩
    else passString rest (p.after x)

/-- A node and the cursor behind it, if it could be passed over. -/
abbrev Reading := Node × Option Cursor

/-- The value without parts that was read, and where passing over it leads. -/
def scalarReading (lead : Lead) (front : Position) (value : Except Fault Scalar)
    (passed : Except Fault Cursor) : Reading :=
  (.scalar lead (some front) value (passed.map fun cur => some cur.place), passed.toOption)

/-- A place where no value begins. -/
def noValue (cur : Cursor) : Reading :=
  let fault : Fault := match cur.rest with
    | [] => ⟨.unfinishedValue, some cur.place⟩
    | c :: _ => ⟨.valueExpected, some (cur.place.into c)⟩
  let lead := if cur.rest.isEmpty then .nothing else .other
  scalarReading lead cur.peek (.error fault) (.error fault)

def wordReading (cur : Cursor) (word : List Char) (value : Scalar) : Reading :=
  let passed := scanWord word cur
  scalarReading .other cur.peek (passed.map fun _ => value) passed

def numberReading (cur : Cursor) : Reading :=
  match scanNumeral cur with
  | .error faults => scalarReading .other cur.peek (.error faults.read) (.error faults.pass)
  | .ok (numeral, next) =>
    scalarReading .other cur.peek ((numeral.value next.place).map .number) (.ok next)

/-- A string whose opening quote stands at the cursor. -/
def stringReading (cur : Cursor) : Reading :=
  let inside := cur.place.after '"'
  scalarReading .quote cur.peek ((readString [] (cur.rest.drop 1) inside).map fun (s, _) => .text s)
    (passString (cur.rest.drop 1) inside)

/-- The ending of an array or object with one fault for everyone. -/
def Ending.all (cause : FaultCause) (p : Position) : Ending :=
  .torn ⟨cause, some p⟩ ⟨cause, some p⟩ ⟨cause, some p⟩

/-- The place that a fault at a key names: behind the key and the blanks after it, and behind the
closing bracket if that comes next. -/
def keyPlace (cur : Cursor) : Position :=
  let next := cur.skip
  match next.rest with
  | '\x7d' :: _ => next.place.after '\x7d'
  | _ => next.place

/-- The frame of an array or object that opens at the cursor, `depth` others around it. -/
def frameAt (cur : Cursor) (depth : Nat) (ending : Ending) : Frame :=
  ⟨some cur.place, if depth + 1 < depthLimit then none else some ⟨.tooDeep, some cur.peek⟩, ending⟩

/-- How the items or entries of an array or object go on, and where. -/
inductive Onward where
  /-- Another one begins at the cursor; the fault meets a reader who asks for the bracket. -/
  | more (surplus : Option Fault) (cur : Cursor)
  | done (ending : Ending) (next : Option Cursor)

/-- What follows an item of an array, or its opening bracket if `first`. -/
def onwardItem (first : Bool) (cur : Cursor) : Onward :=
  let cur := cur.skip
  match cur.rest with
  | [] => .done (Ending.all .unclosedList cur.place) none
  | ']' :: rest =>
    let p := cur.place.after ']'
    .done (.closed (some p)) (some ⟨rest, p⟩)
  | c :: rest =>
    if first then .more none cur
    else if c = ',' then
      let next := (Cursor.mk rest (cur.place.after ',')).skip
      let mark := some next.peek
      match next.rest with
      | [] =>
        .done (.torn ⟨.unfinishedValue, mark⟩ ⟨.trailingCharacters, mark⟩ ⟨.unfinishedValue, mark⟩)
          none
      | ']' :: _ =>
        .done (.torn ⟨.trailingComma, mark⟩ ⟨.trailingComma, mark⟩ ⟨.valueExpected, mark⟩) none
      | _ => .more (some ⟨.trailingCharacters, mark⟩) next
    else
      let mark := some cur.peek
      .done (.torn ⟨.listCommaOrEndExpected, mark⟩ ⟨.trailingCharacters, mark⟩
        ⟨.listCommaOrEndExpected, mark⟩) none

/-- What follows an entry of an object, or its opening bracket if `first`. -/
def onwardEntry (first : Bool) (cur : Cursor) : Onward :=
  let cur := cur.skip
  let mark := some cur.peek
  match cur.rest with
  | [] => .done (Ending.all .unclosedObject cur.place) none
  | '\x7d' :: rest =>
    let p := cur.place.after '\x7d'
    .done (.closed (some p)) (some ⟨rest, p⟩)
  | c :: rest =>
    if first then
      if c = '"' then .more none cur else .done (Ending.all .keyNotString cur.peek) none
    else if c = ',' then
      let next := (Cursor.mk rest (cur.place.after ',')).skip
      let mark := some next.peek
      let close : Fault := ⟨.trailingComma, some cur.peek⟩
      match next.rest with
      | [] => .done (.torn ⟨.unfinishedValue, mark⟩ close ⟨.unclosedObject, mark⟩) none
      | '"' :: _ => .more (some close) next
      | '\x7d' :: _ => .done (.torn ⟨.trailingComma, mark⟩ close ⟨.keyNotString, mark⟩) none
      | _ => .done (.torn ⟨.keyNotString, mark⟩ close ⟨.keyNotString, mark⟩) none
    else
      .done (.torn ⟨.objectCommaOrEndExpected, mark⟩ ⟨.trailingCharacters, mark⟩
        ⟨.objectCommaOrEndExpected, mark⟩) none

/-- The cursor behind the colon, or the fault of its absence. -/
def colon (cur : Cursor) : Except Fault Cursor :=
  let cur := cur.skip
  match cur.rest with
  | ':' :: rest => .ok ⟨rest, cur.place.after ':'⟩
  | [] => .error ⟨.unclosedObject, some cur.place⟩
  | _ => .error ⟨.colonExpected, some cur.peek⟩

mutual

/-- The value at the cursor, `depth` arrays and objects around it. Every step of the reading
consumes a character or opens a value, so twice the length of the text bounds it. -/
def readNode : (limit : Nat) → (depth : Nat) → Cursor → Reading
  | 0, _, cur => noValue cur
  | limit + 1, depth, cur =>
    let cur := cur.skip
    match cur.rest with
    | [] => noValue cur
    | c :: rest =>
      let inside : Cursor := ⟨rest, cur.place.after c⟩
      if c = 'n' then wordReading cur "null".toList .null
      else if c = 't' then wordReading cur "true".toList (.bool true)
      else if c = 'f' then wordReading cur "false".toList (.bool false)
      else if c = '"' then stringReading cur
      else if c = '-' ∨ (digit? c).isSome then numberReading cur
      else if c = '[' then
        let (items, ending, next) := readItems limit (depth + 1) true inside
        (.sequence (frameAt cur depth ending) items, next)
      else if c = '\x7b' then
        let (entries, ending, next) := readEntries limit (depth + 1) true inside
        (.mapping (frameAt cur depth ending) entries, next)
      else noValue cur

def readItems : (limit : Nat) → (depth : Nat) → (first : Bool) → Cursor →
    List (Option Fault × Node) × Ending × Option Cursor
  | 0, _, _, cur => ([], Ending.all .unclosedList cur.place, none)
  | limit + 1, depth, first, cur =>
    match onwardItem first cur with
    | .done ending next => ([], ending, next)
    | .more surplus cur =>
      match readNode limit depth cur with
      | (node, none) => ([(surplus, node)], Ending.all .unclosedList cur.place, none)
      | (node, some next) =>
        let (items, ending, next) := readItems limit depth false next
        ((surplus, node) :: items, ending, next)

def readEntries : (limit : Nat) → (depth : Nat) → (first : Bool) → Cursor →
    List (Option Position × Node × Node) × Ending × Option Cursor
  | 0, _, _, cur => ([], Ending.all .unclosedObject cur.place, none)
  | limit + 1, depth, first, cur =>
    match onwardEntry first cur with
    | .done ending next => ([], ending, next)
    | .more _ cur =>
      match stringReading cur with
      | (key, none) =>
        ([(none, key, (noValue cur).1)], Ending.all .unclosedObject cur.place, none)
      | (key, some behind) =>
        let mark := some (keyPlace behind)
        match colon behind with
        | .error fault =>
          ([(mark, key, .scalar .nothing none (.error fault) (.error fault))],
            Ending.all .unclosedObject behind.place, none)
        | .ok cur =>
          match readNode limit depth cur with
          | (value, none) =>
            ([(mark, key, value)], Ending.all .unclosedObject cur.place, none)
          | (value, some next) =>
            let (entries, ending, next) := readEntries limit depth false next
            ((mark, key, value) :: entries, ending, next)

end

/-- The document of a text, and the fault of anything but blanks after it. -/
def readText (text : String) : Node × Option Fault :=
  let cur := Cursor.ofString text
  let (node, next) := readNode (2 * cur.rest.length + 2) 0 cur
  let rest := (next.getD cur).skip
  (node,
    if next.isSome ∧ !rest.rest.isEmpty then some ⟨.trailingCharacters, some rest.peek⟩ else none)

/-- What `decode` makes of a text, provided that nothing follows it. -/
def decodeText (decode : Node → Except Fault α) (text : String) : Except Fault α :=
  let (node, trailing) := readText text
  match decode node, trailing with
  | .error f, _ => .error f
  | .ok _, some f => .error f
  | .ok a, none => .ok a

/-- The value of a text. -/
def parse (text : String) : Except Fault Json :=
  decodeText Node.json text

end StepPipeline.Json

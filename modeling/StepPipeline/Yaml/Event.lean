import StepPipeline.Yaml.Token

/-!
# YAML events

Events spell out the nodes that a row of tokens forms: scalars, aliases, and the beginnings and ends
of collections and documents. Parts that the text leaves out are empty scalars.
-/
namespace StepPipeline.Yaml

inductive Event where
  | documentStart
  | documentEnd
  | streamEnd
  | reference (name : String)
  | scalar (anchor tag : Option String) (text : String) (plain : Bool)
  | sequenceStart (anchor tag : Option String)
  | sequenceEnd
  | mappingStart (anchor tag : Option String)
  | mappingEnd
  deriving DecidableEq, Repr

/-- What is expected next. -/
inductive Expected where
  /-- A document; the first one needs no mark at its beginning. -/
  | document (first : Bool)
  | documentContent
  | documentEnd
  | blockNode
  | blockSequence (first : Bool)
  | indentlessSequence
  | blockMappingKey (first : Bool)
  | blockMappingValue
  | flowSequence (first : Bool)
  | flowPairKey
  | flowPairValue
  | flowPairEnd
  | flowMappingKey (first : Bool)
  | flowMappingValue (empty : Bool)
  | nothing
  deriving DecidableEq, Repr

structure Parser where
  lexer : Lexer
  expected : Expected
  /-- What is expected after the nodes that are open. -/
  after : List Expected
  /-- The tag shorthands of the document. -/
  shorthands : List (String × String)
  deriving Repr

namespace Parser

def ofString (s : String) : Parser := ⟨.ofString s, .document true, [], []⟩

def fail (p : Parser) (text : String) : Except Problem α := p.lexer.fail text

/-- The next token, which stays. -/
def peek (p : Parser) : Except Problem (Token × Parser) := do
  let lexer ← p.lexer.settle (p.lexer.cursor.rest.length + 3)
  match lexer.waiting with
  | token :: _ => return (token, { p with lexer })
  | [] => p.fail "did not find the end of the stream"

/-- The parser without its next token. -/
def skip (p : Parser) : Parser :=
  { p with lexer :=
    { p.lexer with waiting := p.lexer.waiting.drop 1, taken := p.lexer.taken + 1 } }

def expect (p : Parser) (expected : Expected) : Parser := { p with expected }

/-- Expects `later` once the node that comes next is complete. -/
def defer (p : Parser) (later : Expected) : Parser := { p with after := later :: p.after }

/-- Expects what comes after the node that is complete now. -/
def resume (p : Parser) : Parser :=
  match p.after with
  | expected :: after => { p with expected, after }
  | [] => { p with expected := .nothing }

abbrev Step := Except Problem (Event × Parser)

/-- An empty scalar, where the text leaves a node out. -/
def omitted (p : Parser) : Step := .ok (.scalar none none "" true, p)

/-! ## Nodes -/

/-- Takes the anchor and the tag before a node, in either order. -/
def properties (p : Parser) :
    Except Problem (Option String × Option (String × String) × Parser) := do
  match ← p.peek with
  | (.anchor name, p) =>
    match ← p.skip.peek with
    | (.tag handle suffix, p) => return (some name, some (handle, suffix), p.skip)
    | (_, p) => return (some name, none, p)
  | (.tag handle suffix, p) =>
    match ← p.skip.peek with
    | (.anchor name, p) => return (some name, some (handle, suffix), p.skip)
    | (_, p) => return (none, some (handle, suffix), p)
  | (_, p) => return (none, none, p)

/-- The tag that a handle and a suffix stand for. -/
def resolveTag (p : Parser) : Option (String × String) → Except Problem (Option String)
  | none => .ok none
  | some ("", suffix) => .ok (some suffix)
  | some (handle, suffix) =>
    match p.shorthands.lookup handle with
    | some stem => .ok (some (stem ++ suffix))
    | none => p.fail "found undefined tag handle"

/-- A node that has an anchor or a tag, and nothing else. -/
def bare (p : Parser) (block : Bool) (anchor tag : Option String) : Step :=
  if anchor.isSome || tag.isSome then .ok (.scalar anchor tag "" true, p.resume)
  else p.fail ("did not find expected node content while parsing a "
    ++ (if block then "block" else "flow") ++ " node")

/-- A node. Block collections may begin only where `block`; a sequence may go without its own
indentation only where `indentless`. -/
def node (p : Parser) (block indentless : Bool) : Step := do
  match ← p.peek with
  | (.reference name, p) => return (.reference name, p.resume.skip)
  | (_, p) =>
    let (anchor, tag, p) ← p.properties
    let tag ← p.resolveTag tag
    let (token, p) ← p.peek
    match token with
    | .blockEntry =>
      if indentless then return (.sequenceStart anchor tag, p.expect .indentlessSequence)
      else p.bare block anchor tag
    | .scalar text plain =>
      let (tag, plain) := if tag = some "!" then (none, plain) else (tag, plain)
      return (.scalar anchor tag text plain, p.resume.skip)
    | .flowSequenceStart => return (.sequenceStart anchor tag, p.expect (.flowSequence true))
    | .flowMappingStart => return (.mappingStart anchor tag, p.expect (.flowMappingKey true))
    | .blockSequenceStart =>
      if block then return (.sequenceStart anchor tag, p.expect (.blockSequence true))
      else p.bare block anchor tag
    | .blockMappingStart =>
      if block then return (.mappingStart anchor tag, p.expect (.blockMappingKey true))
      else p.bare block anchor tag
    | _ => p.bare block anchor tag
/-- A node, unless one of the given tokens comes first; `later` is expected afterwards. -/
def nodeUnless (p : Parser) (block indentless : Bool) (ends : List Token) (later : Expected) :
    Step := do
  let (token, p) ← p.peek
  if ends.contains token then (p.expect later).omitted
  else (p.defer later).node block indentless

/-! ## Documents -/

/-- Takes the directives before a document. -/
def directives : (limit : Nat) → (version : Bool) → Parser → Except Problem Parser
  | 0, _, p => .ok p
  | limit + 1, version, p => do
    match ← p.peek with
    | (.version major minor, p) =>
      if version then p.fail "found duplicate %YAML directive"
      if major ≠ 1 ∨ (minor ≠ 1 ∧ minor ≠ 2) then p.fail "found incompatible YAML document"
      directives limit true p.skip
    | (.tagShorthand handle stem, p) =>
      if (p.shorthands.lookup handle).isSome then p.fail "found duplicate %TAG directive"
      directives limit version { p with shorthands := p.shorthands ++ [(handle, stem)] }.skip
    | (_, p) => return p

/-- The shorthands that every document has unless it sets others. -/
def defaultShorthands : List (String × String) :=
  [("!", "!"), ("!!", "tag:yaml.org,2002:")]

def readDirectives (p : Parser) : Except Problem Parser := do
  let p ← { p with shorthands := [] }.directives (p.lexer.cursor.rest.length + 2) false
  return { p with shorthands := p.shorthands ++ defaultShorthands }

/-- Takes marks of document ends. -/
def skipDocumentEnds : (limit : Nat) → Parser → Except Problem Parser
  | 0, p => .ok p
  | limit + 1, p => do
    match ← p.peek with
    | (.documentEnd, p) => skipDocumentEnds limit p.skip
    | (_, p) => return p

def document (p : Parser) (first : Bool) : Step := do
  let p ← if first then pure p else p.skipDocumentEnds (p.lexer.cursor.rest.length + 2)
  let explicit (p : Parser) : Step := do
    let (token, p) ← (← p.readDirectives).peek
    if token = .documentStart then
      return (.documentStart, ((p.defer .documentEnd).expect .documentContent).skip)
    else p.fail "did not find expected <document start>"
  let (token, p) ← p.peek
  match token with
  | .streamEnd => return (.streamEnd, (p.expect .nothing).skip)
  | .version .. | .tagShorthand .. | .documentStart => explicit p
  | _ =>
    if first then
      let p := { p with shorthands := defaultShorthands }
      return (.documentStart, (p.defer .documentEnd).expect .blockNode)
    else explicit p

def documentContent (p : Parser) : Step := do
  let (token, p) ← p.peek
  match token with
  | .version .. | .tagShorthand .. | .documentStart | .documentEnd | .streamEnd => p.resume.omitted
  | _ => p.node true false

def documentEnd (p : Parser) : Step := do
  let (token, p) ← p.peek
  let p := if token = .documentEnd then p.skip else p
  return (.documentEnd, p.expect (.document false))

/-! ## Collections -/

/-- The collection without the token that opens it, when it begins. -/
def enter (p : Parser) (first : Bool) : Except Problem Parser := do
  if first then return (← p.peek).2.skip else return p

def blockSequence (p : Parser) (first : Bool) : Step := do
  match ← (← p.enter first).peek with
  | (.blockEntry, p) =>
    p.skip.nodeUnless true false [.blockEntry, .blockEnd] (.blockSequence false)
  | (.blockEnd, p) => return (.sequenceEnd, p.resume.skip)
  | (_, p) => p.fail "did not find expected '-' indicator"

def indentlessSequence (p : Parser) : Step := do
  match ← p.peek with
  | (.blockEntry, p) =>
    p.skip.nodeUnless true false [.blockEntry, .key, .value, .blockEnd] .indentlessSequence
  | (_, p) => return (.sequenceEnd, p.resume)

def blockMappingKey (p : Parser) (first : Bool) : Step := do
  match ← (← p.enter first).peek with
  | (.key, p) => p.skip.nodeUnless true true [.key, .value, .blockEnd] .blockMappingValue
  | (.blockEnd, p) => return (.mappingEnd, p.resume.skip)
  | (_, p) => p.fail "did not find expected key"

def blockMappingValue (p : Parser) : Step := do
  match ← p.peek with
  | (.value, p) => p.skip.nodeUnless true true [.key, .value, .blockEnd] (.blockMappingKey false)
  | (_, p) => (p.expect (.blockMappingKey false)).omitted

/-- Takes the comma between two entries of a flow collection. -/
def separator (p : Parser) (problem : String) : Except Problem Parser := do
  match ← p.peek with
  | (.flowEntry, p) => return p.skip
  | (_, p) => p.fail problem

def flowSequence (p : Parser) (first : Bool) : Step := do
  let (token, p) ← (← p.enter first).peek
  if token = .flowSequenceEnd then return (.sequenceEnd, p.resume.skip)
  else
    let p ← if first then pure p else p.separator "did not find expected ',' or ']'"
    match ← p.peek with
    | (.key, p) => return (.mappingStart none none, (p.expect .flowPairKey).skip)
    | (.flowSequenceEnd, p) => return (.sequenceEnd, p.resume.skip)
    | (_, p) => (p.defer (.flowSequence false)).node false false

/-- The key of a single pair in a flow sequence. Where it is left out, the token in its place goes
with it. -/
def flowPairKey (p : Parser) : Step := do
  let (token, p) ← p.peek
  match token with
  | .value | .flowEntry | .flowSequenceEnd => (p.skip.expect .flowPairValue).omitted
  | _ => (p.defer .flowPairValue).node false false

def flowPairValue (p : Parser) : Step := do
  match ← p.peek with
  | (.value, p) => p.skip.nodeUnless false false [.flowEntry, .flowSequenceEnd] .flowPairEnd
  | (_, p) => (p.expect .flowPairEnd).omitted

def flowPairEnd (p : Parser) : Step := do
  let (_, p) ← p.peek
  return (.mappingEnd, p.expect (.flowSequence false))

def flowMappingKey (p : Parser) (first : Bool) : Step := do
  let (token, p) ← (← p.enter first).peek
  if token = .flowMappingEnd then return (.mappingEnd, p.resume.skip)
  else
    let p ← if first then pure p else p.separator "did not find expected ',' or '\x7d'"
    match ← p.peek with
    | (.key, p) =>
      p.skip.nodeUnless false false [.value, .flowEntry, .flowMappingEnd] (.flowMappingValue false)
    | (.flowMappingEnd, p) => return (.mappingEnd, p.resume.skip)
    | (_, p) => (p.defer (.flowMappingValue true)).node false false

def flowMappingValue (p : Parser) (empty : Bool) : Step := do
  let (token, p) ← p.peek
  if !empty && token = .value then
    p.skip.nodeUnless false false [.flowEntry, .flowMappingEnd] (.flowMappingKey false)
  else (p.expect (.flowMappingKey false)).omitted

/-- The next event. -/
def next (p : Parser) : Step :=
  match p.expected with
  | .document first => p.document first
  | .documentContent => p.documentContent
  | .documentEnd => p.documentEnd
  | .blockNode => p.node true false
  | .blockSequence first => p.blockSequence first
  | .indentlessSequence => p.indentlessSequence
  | .blockMappingKey first => p.blockMappingKey first
  | .blockMappingValue => p.blockMappingValue
  | .flowSequence first => p.flowSequence first
  | .flowPairKey => p.flowPairKey
  | .flowPairValue => p.flowPairValue
  | .flowPairEnd => p.flowPairEnd
  | .flowMappingKey first => p.flowMappingKey first
  | .flowMappingValue empty => p.flowMappingValue empty
  | .nothing => .ok (.streamEnd, p)

end Parser
end StepPipeline.Yaml

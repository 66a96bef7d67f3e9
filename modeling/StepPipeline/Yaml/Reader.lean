import StepPipeline.Document.Node
import StepPipeline.Yaml.Core
import StepPipeline.Yaml.Event

/-!
# Reading YAML text

A text holds one document. Its events are collected first, as far as they are well formed, then read
as a node; a node may be read from a document whose text breaks off behind it. Aliases stand for
copies of the nodes they name.
-/
namespace StepPipeline.Yaml

open Document (Node Scalar)

/-- The events of the first document of a text. -/
structure Stream where
  /-- The nodes' events, without the marks of the document. -/
  events : List Event
  /-- What is wrong behind the events. -/
  problem : Option String
  /-- Whether another document follows. -/
  followed : Bool
  deriving Repr

/-- The number of collections that may be open at once. -/
def depthLimit : Nat := 128

/-! ## Collecting events -/

/-- The names of anchors and their numbers; a number is that of the anchors before. -/
abbrev Anchors := List (String × Nat)

def Event.anchor? : Event → Option String
  | .scalar anchor .. | .sequenceStart anchor _ | .mappingStart anchor _ => anchor
  | _ => none

/-- Gives the number of the known anchors to a name. -/
def Anchors.insert (anchors : Anchors) (name : String) : Anchors :=
  (name, anchors.length) :: anchors.filter (·.1 ≠ name)

/-- An event with the anchor it refers to by number. -/
structure Placed where
  event : Event
  /-- The number of the anchor that the event sets, or that an alias names. -/
  number : Option Nat
  deriving Repr

/-- Collects events up to the end of the document. -/
def collect : (limit : Nat) → Anchors → (acc : List Placed) → Parser →
    List Placed × Option String × Parser
  | 0, _, acc, p => (acc.reverse, some "document is too long", p)
  | limit + 1, anchors, acc, p =>
    match p.next with
    | .error problem => (acc.reverse, some problem.message, p)
    | .ok (event, p) =>
      match event with
      | .documentStart => collect limit anchors acc p
      | .documentEnd | .streamEnd => (acc.reverse, none, p)
      | .reference name =>
        match anchors.lookup name with
        | some number => collect limit anchors (⟨event, some number⟩ :: acc) p
        | none => (acc.reverse, some "unknown anchor", p)
      | event =>
        match event.anchor? with
        | some name =>
          collect limit (anchors.insert name) (⟨event, some anchors.length⟩ :: acc) p
        | none => collect limit anchors (⟨event, none⟩ :: acc) p

/-- Whether a document follows, or anything but the end of the text. -/
def isFollowed (p : Parser) : Bool :=
  match p.next with
  | .ok (.streamEnd, _) => false
  | _ => true

/-! ## Reading nodes -/

/-- The events of a document, and where each anchor's node begins. -/
structure Script where
  events : Array Event
  /-- For each alias, the number of its anchor; for each anchor, its number. -/
  numbers : Array (Option Nat)
  problem : String

def Script.of (placed : List Placed) (problem : Option String) : Script :=
  ⟨(placed.map (·.event)).toArray, (placed.map (·.number)).toArray, problem.getD "EndOfStream"⟩

/-- The place of the last node whose anchor has the number of the alias at `i`. -/
def Script.target (s : Script) (i : Nat) : Option Nat :=
  match s.numbers[i]? with
  | some (some number) =>
    (List.range s.events.size).foldl
      (fun found j =>
        if s.numbers[j]? = some (some number) ∧ (s.events[j]?).any (·.anchor?.isSome) then some j
        else found)
      none
  | _ => none

/-- A tag of the document's own, which no value has. -/
def isLocal (tag : Option String) : Bool :=
  tag.any fun t => t.toList.head? = some '!'

def localTag : String := "untagged and internally tagged enums do not support enum input"

def scalarNode (tag : Option String) (text : String) (plain : Bool) : Except String Node :=
  let value := match tag with
    | some tag => taggedScalar tag text
    | none => if plain then plainScalar text else .ok (.text text)
  value.map .plain

mutual

/-- Reads the node at event `i` inside `depth` collections, after `jumps` aliases. Returns the place
behind it and the number of aliases so far. -/
def readNode (s : Script) : (limit : Nat) → (depth i jumps : Nat) → Except String (Node × Nat × Nat)
  | 0, _, _, _ => .error "recursion limit exceeded"
  | limit + 1, depth, i, jumps =>
    match s.events[i]? with
    | some (.reference _) =>
      if s.events.size * 100 < jumps + 1 then .error "repetition limit exceeded"
      else match s.target i with
        | none => .error "unresolved alias"
        | some j => do
          let (node, _, jumps) ← readNode s limit depth j (jumps + 1)
          return (node, i + 1, jumps)
    | some (.scalar _ tag text plain) =>
      if isLocal tag then .error localTag
      else (scalarNode tag text plain).map fun node => (node, i + 1, jumps)
    | some (.sequenceStart _ tag) =>
      if isLocal tag then .error localTag
      else if depthLimit ≤ depth then .error "recursion limit exceeded"
      else do
        let (items, next) ← readItems s limit (depth + 1) (i + 1) jumps
        return (.sequence .plain (items.map fun item => (none, item)), next)
    | some (.mappingStart _ tag) =>
      if isLocal tag then .error localTag
      else if depthLimit ≤ depth then .error "recursion limit exceeded"
      else do
        let (entries, next) ← readEntries s limit (depth + 1) (i + 1) jumps
        return (.mapping .plain (entries.map fun (key, value) => (none, key, value)), next)
    | _ => .error s.problem

def readItems (s : Script) : (limit : Nat) → (depth i jumps : Nat) →
    Except String (List Node × Nat × Nat)
  | 0, _, _, _ => .error "recursion limit exceeded"
  | limit + 1, depth, i, jumps =>
    match s.events[i]? with
    | some .sequenceEnd => .ok ([], i + 1, jumps)
    | none => .error s.problem
    | some _ => do
      let (item, i, jumps) ← readNode s limit depth i jumps
      let (items, next) ← readItems s limit depth i jumps
      return (item :: items, next)

def readEntries (s : Script) : (limit : Nat) → (depth i jumps : Nat) →
    Except String (List (Node × Node) × Nat × Nat)
  | 0, _, _, _ => .error "recursion limit exceeded"
  | limit + 1, depth, i, jumps =>
    match s.events[i]? with
    | some .mappingEnd => .ok ([], i + 1, jumps)
    | none => .error s.problem
    | some _ => do
      let (key, i, jumps) ← readNode s limit depth i jumps
      let (value, i, jumps) ← readNode s limit depth i jumps
      let (entries, next) ← readEntries s limit depth i jumps
      return ((key, value) :: entries, next)

end

/-! ## Texts -/

/-- Chains of readings are no longer than this: at each depth one pass over the events, with an
alias before it. -/
def readingLimit (s : Script) : Nat :=
  (depthLimit + 2) * (s.events.size + 4)

/-- What `decode` makes of the one document of a text. A fault of the decoder comes before any fault
of the text behind the document's node. -/
def decodeText (decode : Node → Except String α) (text : String) : Except String α := do
  if !text.toList.all isAllowed then .error "control characters are not allowed"
  let parser := Parser.ofString text
  let (placed, problem, rest) := collect (8 * text.length + 16) [] [] parser
  let script := Script.of placed problem
  let node ←
    if placed.isEmpty && problem.isNone then pure (Node.plain .null)
    else do
      let (node, _) ← readNode script (readingLimit script) 0 0 0
      pure node
  let a ← decode node
  if let some problem := problem then .error problem
  if isFollowed rest then
    .error "deserializing from YAML containing more than one document is not supported"
  return a

end StepPipeline.Yaml

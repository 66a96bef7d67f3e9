import StepPipeline.Document.Fault
import StepPipeline.Json.Basic

/-!
# Document nodes

A `Node` is a document as far as it could be read. Where the text breaks off, the node holds the
fault instead of a value, so a decoder that walks the node meets faults of the text and mismatches
of its own in the order of the text, and reports the first.

A field that no decoder wants is passed over. Passing over asks less of the text than reading it:
numbers may have any size, nesting any depth, and strings may hold unpaired surrogates. Nodes
therefore keep a reader's fault and a passer's fault apart.

Values and documents of other notations are nodes without faults and without positions.
-/
namespace StepPipeline.Document

/-- What a value without parts begins with. -/
inductive Lead where
  | quote
  | other
  | nothing
  deriving DecidableEq, Repr

/-- How an array or object ends. -/
inductive Ending where
  /-- By its bracket; `after` is the place behind it. -/
  | closed (after : Option Position)
  /-- By a fault: the one that meets a reader who asks for more, a reader who asks for the bracket,
  and a passer. -/
  | torn (more close pass : Fault)
  deriving Repr

/-- The outside of an array or object: the place before it, the fault that keeps a reader from
entering it, and its ending. -/
structure Frame where
  before : Option Position
  refused : Option Fault
  ending : Ending
  deriving Repr

inductive Node where
  /-- A value without parts: what it begins with, the place that a fault at its beginning names,
  the value as read, and the place behind it as passed over. -/
  | scalar (lead : Lead) (front : Option Position) (value : Except Fault Scalar)
      (passed : Except Fault (Option Position))
  /-- An array; each item with the fault that meets a reader who asks for the bracket instead. -/
  | sequence (frame : Frame) (items : List (Option Fault × Node))
  /-- An object; each entry with the place that a fault at its key names. -/
  | mapping (frame : Frame) (entries : List (Option Position × Node × Node))

/-- The frame of an array or object without positions or faults. -/
def Frame.plain : Frame := ⟨none, none, .closed none⟩

namespace Frame

/-- Enters an array or object. -/
def enter (frame : Frame) : Except Fault Unit :=
  match frame.refused with
  | some f => .error f
  | none => .ok ()

/-- Asks for more after the last item or entry, and is content with the bracket. -/
def finish (frame : Frame) : Except Fault Unit :=
  match frame.ending with
  | .closed _ => .ok ()
  | .torn more _ _ => .error more

/-- Passes over the end. -/
def leave (frame : Frame) : Except Fault Unit :=
  match frame.ending with
  | .closed _ => .ok ()
  | .torn _ _ pass => .error pass

/-- The place behind the bracket. -/
def after (frame : Frame) : Option Position :=
  match frame.ending with
  | .closed p => p
  | .torn .. => none

end Frame

namespace Node

/-- A value without parts, positions or faults. -/
def plain (s : Scalar) : Node :=
  .scalar (match s with | .text _ => .quote | _ => .other) none (.ok s) (.ok none)

/-- The place behind a value without parts. -/
def behind : Except Fault (Option Position) → Option Position
  | .ok p => p
  | .error _ => none

/-- The fault of a node that should have been `expected`. -/
def mismatch (expected : String) : Node → Fault
  | scalar _ _ (.error f) _ => f
  | scalar _ _ (.ok s) passed => ⟨.unexpected (.scalar s) expected, behind passed⟩
  | sequence frame _ => ⟨.unexpected .sequence expected, frame.before⟩
  | mapping frame _ => ⟨.unexpected .map expected, frame.before⟩

/-- The text that a node must be. -/
def text (node : Node) : Except Fault String :=
  match node with
  | scalar _ _ (.ok (.text s)) _ => .ok s
  | _ => .error (node.mismatch "a string")

mutual

/-- The value of a node, its fields in order. A double that is no number is null. -/
def json : Node → Except Fault Json
  | scalar _ _ value _ =>
    match value with
    | .error f => .error f
    | .ok .null => .ok .null
    | .ok (.bool b) => .ok (.bool b)
    | .ok (.text s) => .ok (.string s)
    | .ok (.number (.whole n)) => .ok (.number (.whole n))
    | .ok (.number (.double x)) => .ok (if x.isFinite then .number (.double x) else .null)
  | sequence frame items => do
    frame.enter
    let values ← jsonItems items
    frame.finish
    return .array values
  | mapping frame entries => do
    frame.enter
    let fields ← jsonFields entries
    frame.finish
    return .object (Fields.sorted fields)

def jsonItems : List (Option Fault × Node) → Except Fault (List Json)
  | [] => .ok []
  | (_, item) :: rest => do
    let v ← json item
    return v :: (← jsonItems rest)

def jsonFields : List (Option Position × Node × Node) → Except Fault (List (String × Json))
  | [] => .ok []
  | (_, key, value) :: rest => do
    let k ← key.text
    let v ← json value
    return (k, v) :: (← jsonFields rest)

end

mutual

/-- Reads the node to its end, whatever its keys are. -/
def check : Node → Except Fault Unit
  | scalar _ _ value _ => value.map fun _ => ()
  | sequence frame items => do
    frame.enter
    checkItems items
    frame.finish
  | mapping frame entries => do
    frame.enter
    checkEntries entries
    frame.finish

def checkItems : List (Option Fault × Node) → Except Fault Unit
  | [] => .ok ()
  | (_, item) :: rest => do
    check item
    checkItems rest

def checkEntries : List (Option Position × Node × Node) → Except Fault Unit
  | [] => .ok ()
  | (_, key, value) :: rest => do
    check key
    check value
    checkEntries rest

end

mutual

/-- Passes over the node. -/
def pass : Node → Except Fault Unit
  | scalar _ _ _ passed => passed.map fun _ => ()
  | sequence frame items => do
    passItems items
    frame.leave
  | mapping frame entries => do
    passEntries entries
    frame.leave

def passItems : List (Option Fault × Node) → Except Fault Unit
  | [] => .ok ()
  | (_, item) :: rest => do
    pass item
    passItems rest

def passEntries : List (Option Position × Node × Node) → Except Fault Unit
  | [] => .ok ()
  | (_, key, value) :: rest => do
    pass key
    pass value
    passEntries rest

end

mutual

/-- A value as a node. -/
def ofJson : Json → Node
  | .null => plain .null
  | .bool b => plain (.bool b)
  | .number n => plain (.number n)
  | .string s => plain (.text s)
  | .array items => .sequence .plain (ofItems items)
  | .object fields => .mapping .plain (ofFields fields)

def ofItems : List Json → List (Option Fault × Node)
  | [] => []
  | v :: rest => (none, ofJson v) :: ofItems rest

def ofFields : List (String × Json) → List (Option Position × Node × Node)
  | [] => []
  | (k, v) :: rest => (none, plain (.text k), ofJson v) :: ofFields rest

end

end Node
end StepPipeline.Document

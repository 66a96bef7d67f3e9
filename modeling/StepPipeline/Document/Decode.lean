import StepPipeline.Document.Node

/-!
# Decoding documents

A decoder turns a node into a value of a type, or reports the first fault it meets on the way.
Decoders walk a node in the order of its text.

A record may be written as an object, whose unknown fields are passed over, or as an array of its
fields in order.
-/
namespace StepPipeline.Document

abbrev Decoder (α : Type) := Node → Except Fault α

namespace Decoder

/-- A natural number that fits into a word. -/
def count : Decoder Nat
  | .scalar _ _ (.ok (.number (.whole n))) passed =>
    if 0 ≤ n then .ok n.toNat
    else .error ⟨.unaccepted (.scalar (.number (.whole n))) "usize", Node.behind passed⟩
  | node => .error (node.mismatch "usize")

/-- `null`, or what `decode` reads. -/
def optional (decode : Decoder α) : Decoder (Option α)
  | .scalar _ _ (.ok .null) _ => .ok none
  | node => (decode node).map some

/-- A text in a notation of its own. -/
def notated (expected : String) (read : String → Except String α) : Decoder α
  | .scalar _ _ (.ok (.text s)) passed =>
    match read s with
    | .ok a => .ok a
    | .error problem => .error ⟨.malformed problem, Node.behind passed⟩
  | node => .error (node.mismatch expected)

def items (decode : Decoder α) : List (Option Fault × Node) → Except Fault (List α)
  | [] => .ok []
  | (_, item) :: rest => do
    let a ← decode item
    return a :: (← items decode rest)

def list (decode : Decoder α) : Decoder (List α)
  | .sequence frame entries => do
    frame.enter
    let as ← items decode entries
    frame.finish
    return as
  | node => .error (node.mismatch "a sequence")

/-- An object of any fields, sorted. -/
def fields : Decoder Fields
  | .mapping frame entries => do
    frame.enter
    let fields ← Node.jsonFields entries
    frame.finish
    return Fields.sorted fields
  | node => .error (node.mismatch "a map")

/-- An object of any fields, as written. -/
def fieldsAsWritten : Decoder Fields
  | .mapping frame entries => do
    frame.enter
    let fields ← Node.jsonFields entries
    frame.finish
    return fields
  | node => .error (node.mismatch "a map")

/-- The choice that a text names. -/
def named (known : List (String × α)) (name : String) (passed : Except Fault (Option Position)) :
    Except Fault α :=
  match known.lookup name with
  | some a => .ok a
  | none => .error ⟨.unknownVariant name (known.map (·.1)), Node.behind passed⟩

/-- The choice named by the one field of an object, whose value is `null`. -/
def choiceEntry (known : List (String × α)) (frame : Frame) :
    List (Option Position × Node × Node) → Except Fault α
  | [] =>
    match frame.ending with
    | .closed after => .error ⟨.valueExpected, after⟩
    | .torn more _ _ => .error more
  | (_, key, value) :: rest => do
    let a ← match key with
      | .scalar _ _ (.ok (.text name)) passed => named known name passed
      | key => .error (key.mismatch "variant identifier")
    match value, rest with
    | .scalar _ _ (.ok .null) passed, [] =>
      match frame.ending with
      | .closed _ => return a
      | .torn more _ _ =>
        if more.cause = .unclosedObject then .error more
        else .error ⟨.valueExpected, Node.behind passed⟩
    | .scalar _ _ (.ok .null) passed, _ => .error ⟨.valueExpected, Node.behind passed⟩
    | value, _ => .error (value.mismatch "unit")

/-- One of the known choices: its name, or an object with that name and `null`. -/
def choice (known : List (String × α)) : Decoder α
  | .scalar .quote _ value passed =>
    match value with
    | .ok (.text name) => named known name passed
    | .ok other => .error ⟨.unexpected (.scalar other) "variant identifier", Node.behind passed⟩
    | .error f => .error f
  | .scalar .other front _ _ => .error ⟨.valueExpected, front⟩
  | .scalar .nothing _ value _ =>
    match value with
    | .error f => .error f
    | .ok _ => .error ⟨.unfinishedValue, none⟩
  | .sequence frame _ =>
    .error ⟨.valueExpected, frame.before.map fun p => ⟨p.line, p.column + 1⟩⟩
  | .mapping frame entries => do
    frame.enter
    choiceEntry known frame entries

end Decoder

/-- What the absence of a field means. -/
inductive Presence where
  /-- The field must be there. -/
  | required
  /-- An object may leave the field out, an array may not. -/
  | optional
  /-- The field has a default. -/
  | defaulted
  deriving DecidableEq, Repr

/-- A field of a record of type `α`; reading it changes the record. -/
structure Field (α : Type) where
  name : String
  otherNames : List String
  presence : Presence
  read : Node → Except Fault (α → α)

/-- A field that is set to what `decode` reads. -/
def Field.of (name : String) (presence : Presence) (decode : Decoder β) (set : β → α → α) :
    Field α :=
  ⟨name, [], presence, fun node => (decode node).map set⟩

/-- How a record is written. -/
structure Record (α : Type) where
  title : String
  fields : List (Field α)
  /-- The record before any field is read. -/
  start : α

namespace Record

/-- The position of the field that a key names, by a name of the field or by its number. -/
def fieldAt? (r : Record α) : Node → Except Fault (Option Nat)
  | .scalar _ _ (.ok (.text name)) _ =>
    .ok (r.fields.findIdx? fun f => f.name = name || f.otherNames.contains name)
  | .scalar lead front (.ok (.number (.whole n))) passed =>
    if 0 ≤ n then .ok (if n.toNat < r.fields.length then some n.toNat else none)
    else
      let key : Node := .scalar lead front (.ok (.number (.whole n))) passed
      .error (key.mismatch "field identifier")
  | key => .error (key.mismatch "field identifier")

/-- Reads the entries of an object. `seen` are the positions of the fields read so far. -/
def readEntries (r : Record α) (seen : List Nat) (a : α) :
    List (Option Position × Node × Node) → Except Fault (List Nat × α)
  | [] => .ok (seen, a)
  | (place, key, value) :: rest => do
    let index ← r.fieldAt? key
    match index.bind fun i => (r.fields[i]?).map fun f => (i, f) with
    | none =>
      value.pass
      readEntries r seen a rest
    | some (i, f) =>
      if seen.contains i then .error ⟨.duplicateField f.name, place⟩
      else
        let set ← f.read value
        readEntries r (i :: seen) (set a) rest

/-- The first required field at or after position `i` that was not seen. -/
def firstMissing (seen : List Nat) : (i : Nat) → List (Field α) → Option String
  | _, [] => none
  | i, f :: rest =>
    if f.presence = .required ∧ !seen.contains i then some f.name
    else firstMissing seen (i + 1) rest

/-- The title with the number of fields. -/
def sized (r : Record α) : String :=
  r.title ++ " with " ++ toString r.fields.length
    ++ (if r.fields.length = 1 then " element" else " elements")

/-- Reads the items of an array for the fields from position `i` on. -/
def readItems (r : Record α) (frame : Frame) (total : Nat) (a : α) :
    (i : Nat) → List (Field α) → List (Option Fault × Node) → Except Fault α
  | _, [], [] =>
    match frame.ending with
    | .closed _ => .ok a
    | .torn _ close _ => .error close
  | _, [], (surplus, _) :: _ =>
    .error (surplus.getD ⟨.badLength total "fewer elements in array", none⟩)
  | i, f :: fields, [] => do
    frame.finish
    if f.presence = .defaulted then readItems r frame total a (i + 1) fields []
    else .error ⟨.badLength i r.sized, frame.after⟩
  | i, f :: fields, (_, item) :: rest => do
    let set ← f.read item
    readItems r frame total (set a) (i + 1) fields rest

def decode (r : Record α) : Decoder α
  | .mapping frame entries => do
    frame.enter
    let (seen, a) ← r.readEntries [] r.start entries
    frame.finish
    match firstMissing seen 0 r.fields with
    | some name => .error ⟨.missingField name, frame.after⟩
    | none => return a
  | .sequence frame items => do
    frame.enter
    r.readItems frame items.length r.start 0 r.fields items
  | node => .error (node.mismatch r.title)

end Record
end StepPipeline.Document

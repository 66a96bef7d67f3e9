import StepPipeline.Document.Decode
import StepPipeline.Failure.Basic

/-!
# Shared state

The outputs of the steps that have run, by alias, in the order in which they were merged. An alias
has at most one output and keeps it. Readers get typed accessors that keep "nothing there" apart
from "there, but of the wrong shape".
-/
namespace StepPipeline

theorem Fields.keys_put (key : String) (value : Json) (fields : Fields) :
    (fields.put key value).map (·.1)
      = if key ∈ fields.map (·.1) then fields.map (·.1) else fields.map (·.1) ++ [key] := by
  induction fields with
  | nil => simp [put]
  | cons f rest ih =>
    obtain ⟨k, v⟩ := f
    by_cases h : key = k
    · simp [put, h]
    · simp only [put, h, if_false, List.map_cons, ih, List.mem_cons, false_or]
      split <;> simp_all

theorem Fields.get?_eq_none_iff {fields : Fields} {key : String} :
    fields.get? key = none ↔ key ∉ fields.map (·.1) := by
  induction fields with
  | nil => simp [get?]
  | cons f rest ih =>
    obtain ⟨k, v⟩ := f
    by_cases h : key = k
    · simp [get?, h]
    · have hb : (key == k) = false := by simpa using h
      simp only [get?] at ih
      simp [get?, List.lookup_cons, hb, ih, h]

/-- The outputs by alias; no alias has two. -/
structure State where
  entries : Fields
  distinct : (entries.map (·.1)).Nodup := by simp

namespace State

def empty : State := { entries := [] }

/-- The output recorded for an alias. -/
def get? (s : State) (aliasName : String) : Option Json :=
  s.entries.get? aliasName

def contains (s : State) (aliasName : String) : Bool :=
  (s.get? aliasName).isSome

/-- The aliases in the order of their outputs. -/
def aliases (s : State) : List String :=
  s.entries.map (·.1)

/-- How many aliases have an output. -/
def size (s : State) : Nat :=
  s.entries.length

/-- Records an output under an alias that has none. -/
def merge (s : State) (aliasName : String) (output : Json) : Except Failure State :=
  if h : s.get? aliasName = none then
    .ok ⟨s.entries ++ [(aliasName, output)], by
      have := Fields.get?_eq_none_iff.1 h
      have hd := s.distinct
      rw [List.map_append, List.nodup_append]
      refine ⟨hd, by simp, ?_⟩
      intro a ha b hb
      simp only [List.map_cons, List.map_nil, List.mem_singleton] at hb
      rintro rfl
      exact this (hb ▸ ha)⟩
  else .error (.of (.aliasExists aliasName))

/-- Sets the output of an alias; a new alias comes last. -/
def put (s : State) (aliasName : String) (output : Json) : State :=
  ⟨s.entries.put aliasName output, by
    rw [Fields.keys_put]
    have hd := s.distinct
    split
    · exact hd
    · next h =>
      rw [List.nodup_append]
      refine ⟨hd, by simp, ?_⟩
      intro a ha b hb
      simp only [List.mem_singleton] at hb
      rintro rfl
      exact h (hb ▸ ha)⟩

/-- The state that fields write; of two with one alias the later output counts. -/
def ofFields (fields : Fields) : State :=
  fields.foldl (fun s (aliasName, output) => s.put aliasName output) empty

def toJson (s : State) : Json :=
  .object s.entries

def decode : Document.Decoder State := fun node =>
  (Document.Decoder.fieldsAsWritten node).map ofFields

/-- The kind of a value, as messages name it. -/
def describe : Json → String
  | .null => "null"
  | .bool _ => "a boolean"
  | .number _ => "a number"
  | .string _ => "a string"
  | .array _ => "an array"
  | .object _ => "an object"

/-- The fields of the output of an alias, if it has one. -/
def outputFields (s : State) (aliasName : String) : Except Failure (Option Fields) :=
  match s.get? aliasName with
  | none => .ok none
  | some (.object fields) => .ok (some fields)
  | some other => .error (.of (.typeMismatch aliasName none "an object" (describe other)))

/-- A field of the output of an alias, if both are there. -/
def field (s : State) (aliasName key : String) : Except Failure (Option Json) :=
  (s.outputFields aliasName).map fun fields => fields.bind (·.get? key)

/-- A text in the output of an alias, if both are there. -/
def text (s : State) (aliasName key : String) : Except Failure (Option String) := do
  match ← s.field aliasName key with
  | none => return none
  | some (.string text) => return some text
  | some other => .error (.of (.typeMismatch aliasName (some key) "a string" (describe other)))

end State
end StepPipeline

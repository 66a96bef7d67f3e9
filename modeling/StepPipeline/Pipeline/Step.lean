import StepPipeline.Document.Decode
import StepPipeline.Failure.Basic

/-!
# Pipeline steps and their aliases

A step names its type and brings a configuration. Its alias is the key of its output in the shared
state; a step without one, or with an empty one, is named by a common stem and its position.
-/
namespace StepPipeline

structure Step where
  aliasName : Option String
  type : String
  /-- The configuration, an object with sorted fields. -/
  config : Fields
  deriving Repr, Inhabited, BEq

namespace Step

/-- A step without alias and configuration. -/
def ofType (type : String) : Step := ⟨none, type, []⟩

/-- The step with another configuration; a value that is no object changes nothing. -/
def withConfig (step : Step) : Json → Step
  | .object fields => { step with config := fields }
  | _ => step

def toJson (step : Step) : Json :=
  .object (Json.optional "alias" (step.aliasName.map .string) ++ [("type", .string step.type)]
    ++ Json.optional "config" (if step.config.isEmpty then none else some (.object step.config)))

def record : Document.Record Step where
  title := "struct PipelineStep"
  start := .ofType ""
  fields := [
    ⟨"alias", ["as"], .defaulted, fun node =>
      ((Document.Decoder.optional Document.Node.text) node).map fun aliasName s =>
        { s with aliasName }⟩,
    .of "type" .required Document.Node.text fun type s => { s with type },
    .of "config" .defaulted .fields fun config s => { s with config }]

def decode : Document.Decoder Step := record.decode

def decodeList : Document.Decoder (List Step) := .list decode

/-- The alias of the step at position `i`. -/
def aliasAt (stem : String) (i : Nat) (step : Step) : String :=
  match step.aliasName with
  | some aliasName => if aliasName = "" then stem ++ "-" ++ toString i else aliasName
  | none => stem ++ "-" ++ toString i

end Step

/-- The first name that occurred before. -/
def firstRepeated (seen : List String) : List String → Option String
  | [] => none
  | name :: rest => if name ∈ seen then some name else firstRepeated (name :: seen) rest

/-- The alias of every step; no two steps may share one. -/
def resolveAliases (steps : List Step) (stem : String) : Except Failure (List String) :=
  let names := steps.mapIdx (Step.aliasAt stem)
  match firstRepeated [] names with
  | some name =>
    .error (.of (.invalidArgument "steps" ("Duplicate step alias '" ++ name ++ "'") none none))
  | none => .ok names

end StepPipeline

import StepPipeline.Pipeline.Registry

/-!
# Plans

A plan says of every step of a pipeline whether it could be started, without starting any.
-/
namespace StepPipeline

open Document (Decoder Record Node)

inductive Readiness where
  | ready
  /-- No runner is registered for the step type. -/
  | missing
  /-- The configuration violates the schema of the step type. -/
  | invalid
  deriving DecidableEq, Repr, Inhabited

namespace Readiness

def name : Readiness → String
  | ready => "ready"
  | missing => "missing"
  | invalid => "invalid"

def decode : Decoder Readiness :=
  .choice [("ready", ready), ("missing", missing), ("invalid", invalid)]

end Readiness

structure PlanEntry where
  aliasName : String
  type : String
  status : Readiness
  error : Option String
  details : Option Json
  deriving Repr, Inhabited

namespace PlanEntry

def toJson (e : PlanEntry) : Json :=
  .object ([("alias", .string e.aliasName), ("type", .string e.type),
      ("status", .string e.status.name)]
    ++ Json.optional "error" (e.error.map .string) ++ Json.optional "details" e.details)

def record : Record PlanEntry where
  title := "struct PipelinePlanStep"
  start := default
  fields := [
    .of "alias" .required Node.text fun aliasName e => { e with aliasName },
    .of "type" .required Node.text fun type e => { e with type },
    .of "status" .required Readiness.decode fun status e => { e with status },
    .of "error" .optional (.optional Node.text) fun error e => { e with error },
    .of "details" .optional (.optional Node.json) fun details e => { e with details }]

/-- The entry of a step. -/
def ofStep (registry : Registry ω) (aliasName : String) (step : Step) : PlanEntry :=
  let (status, failure) := match registry.lookup step.type with
    | .error f => (Readiness.missing, some f)
    | .ok entry =>
      match entry.validate step.type (.object step.config) with
      | .ok () => (.ready, none)
      | .error f => (.invalid, some f)
  ⟨aliasName, step.type, status, failure.map (·.message), failure.map (·.details)⟩

end PlanEntry

structure Plan where
  steps : List PlanEntry
  deriving Repr, Inhabited

namespace Plan

def isReady (p : Plan) : Bool :=
  p.steps.all fun entry => entry.status = .ready

def toJson (p : Plan) : Json :=
  .object [("steps", .array (p.steps.map PlanEntry.toJson))]

def record : Record Plan where
  title := "struct PipelinePlan"
  start := ⟨[]⟩
  fields := [.of "steps" .required (.list PlanEntry.record.decode) fun steps _ => ⟨steps⟩]

def decode : Decoder Plan := record.decode

end Plan

/-- The plan of a pipeline; fails only if the aliases do. -/
def plan (steps : List Step) (registry : Registry ω) (aliasStem : String) :
    Except Failure Plan := do
  let aliases ← resolveAliases steps aliasStem
  return ⟨List.zipWith (PlanEntry.ofStep registry) aliases steps⟩

end StepPipeline

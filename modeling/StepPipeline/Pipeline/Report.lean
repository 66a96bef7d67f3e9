import StepPipeline.Pipeline.State
import StepPipeline.Pipeline.Step
import StepPipeline.Failure.Help
import StepPipeline.Stamp.Uuid
import StepPipeline.Stamp.Instant

/-!
# Reports on runs

What a run leaves behind: a result for every step that was started, a summary, and the shared
state as it stood at the end. A record is a report with the identity and the times of its run.
-/
namespace StepPipeline

open Document (Decoder Record Field Node)

/-- How a step ended, and how a run did. -/
inductive Status where
  | succeeded
  | errored
  deriving DecidableEq, Repr, Inhabited

namespace Status

def name : Status → String
  | succeeded => "succeeded"
  | errored => "errored"

def toJson (s : Status) : Json := .string s.name

def decode : Decoder Status :=
  .choice [("succeeded", succeeded), ("errored", errored)]

end Status

/-- A list of hints, each an object with a message. -/
def decodeHints : Decoder (List String) :=
  .list (Record.decode ⟨"struct Hint",
    [.of "message" .required Node.text fun message _ => message], ""⟩)

/-- The result of one step. -/
structure StepReport where
  aliasName : String
  type : String
  status : Status
  output : Option Json
  error : Option String
  errorCode : Option String
  hints : List String
  deriving Repr, Inhabited, BEq

namespace StepReport

def succeeded (aliasName type : String) (output : Option Json) : StepReport :=
  ⟨aliasName, type, .succeeded, output, none, none, []⟩

/-- The report on a step that failed; the message names the step. -/
def errored (aliasName type : String) (f : Failure) : StepReport :=
  let f := f.within ("step '" ++ aliasName ++ "' (" ++ type ++ ")")
  ⟨aliasName, type, .errored, none, some f.message, some f.code.name, f.hints⟩

def toJson (r : StepReport) : Json :=
  .object ([("alias", .string r.aliasName), ("type", .string r.type), ("status", r.status.toJson)]
    ++ Json.optional "output" r.output
    ++ Json.optional "error" (r.error.map .string)
    ++ Json.optional "error_code" (r.errorCode.map .string)
    ++ Json.unlessEmpty "hints" (r.hints.map .hint))

def record : Record StepReport where
  title := "struct PipelineStepResult"
  start := ⟨"", "", .succeeded, none, none, none, []⟩
  fields := [
    .of "alias" .required Node.text fun aliasName r => { r with aliasName },
    .of "type" .required Node.text fun type r => { r with type },
    .of "status" .required Status.decode fun status r => { r with status },
    .of "output" .optional (.optional Node.json) fun output r => { r with output },
    .of "error" .optional (.optional Node.text) fun error r => { r with error },
    .of "error_code" .optional (.optional Node.text) fun errorCode r => { r with errorCode },
    .of "hints" .defaulted decodeHints fun hints r => { r with hints }]

end StepReport

structure Summary where
  totalSteps : Nat
  succeeded : Nat
  errored : Nat
  /-- Steps after the one that halted the run; they have no result. -/
  notRun : Nat
  nextActions : List String
  deriving DecidableEq, Repr, Inhabited

namespace Summary

def toJson (s : Summary) : Json :=
  .object ([("total_steps", .nat s.totalSteps), ("succeeded", .nat s.succeeded),
    ("errored", .nat s.errored), ("not_run", .nat s.notRun)]
    ++ Json.unlessEmpty "next_actions" (s.nextActions.map .string))

def record : Record Summary where
  title := "struct PipelineRunSummary"
  start := ⟨0, 0, 0, 0, []⟩
  fields := [
    .of "total_steps" .required .count fun totalSteps s => { s with totalSteps },
    .of "succeeded" .required .count fun succeeded s => { s with succeeded },
    .of "errored" .required .count fun errored s => { s with errored },
    .of "not_run" .required .count fun notRun s => { s with notRun },
    .of "next_actions" .defaulted (.list Node.text) fun nextActions s => { s with nextActions }]

end Summary

structure RunReport where
  status : Status
  steps : List StepReport
  summary : Summary
  state : State

namespace RunReport

def succeeded (r : RunReport) : Bool :=
  r.status = .succeeded

/-- The step that halted the run, if any. -/
def failedStep (r : RunReport) : Option StepReport :=
  r.steps.find? fun step => step.status = .errored

def fields (r : RunReport) : Fields :=
  [("status", r.status.toJson), ("steps", .array (r.steps.map StepReport.toJson)),
    ("summary", r.summary.toJson), ("state", r.state.toJson)]

def toJson (r : RunReport) : Json := .object r.fields

end RunReport

/-- A report with the identity of its run and the times of its start and end. -/
structure RunRecord where
  id : Uuid
  report : RunReport
  startedAt : Instant
  finishedAt : Instant

namespace RunRecord

def toJson (r : RunRecord) : Json :=
  .object (("run_id", .string r.id.toString) :: r.report.fields
    ++ [("started_at", .string r.startedAt.toString),
      ("finished_at", .string r.finishedAt.toString)])

def record : Record RunRecord where
  title := "struct PipelineRunResult"
  start := ⟨default, ⟨.succeeded, [], default, .empty⟩, default, default⟩
  fields := [
    .of "run_id" .required Uuid.decode fun id r => { r with id },
    .of "status" .required Status.decode
      fun status r => { r with report := { r.report with status } },
    .of "steps" .required (.list StepReport.record.decode)
      fun steps r => { r with report := { r.report with steps } },
    .of "summary" .required Summary.record.decode
      fun summary r => { r with report := { r.report with summary } },
    .of "state" .required State.decode
      fun state r => { r with report := { r.report with state } },
    .of "started_at" .required Instant.decode fun startedAt r => { r with startedAt },
    .of "finished_at" .required Instant.decode fun finishedAt r => { r with finishedAt }]

def decode : Decoder RunRecord := record.decode

end RunRecord
end StepPipeline

import StepPipeline.Pipeline.Registry

/-!
# Running a pipeline

The steps of a pipeline run in order against one working directory and a fresh shared state, up to
the first that does not succeed. A step starts only if the run is not cancelled, its type is
registered and its configuration meets the schema; a step that ends while the run is being
cancelled does not count.
-/
namespace StepPipeline

open Cancellable

/-- What all steps of a run share. -/
structure RunContext where
  workDir : String
  aliasStem : String

/-- Carries out one step. -/
def executeStep [Cancellable ω] (registry : Registry ω) (workDir : String) (step : Step)
    (aliasName : String) (state : State) (w : ω) : Except Failure StepResult × ω :=
  if cancelled w then (.error (.of (.cancelled "step start")), w)
  else match registry.lookup step.type with
    | .error f => (.error f, w)
    | .ok entry =>
      let config := Json.object step.config
      match entry.validate step.type config with
      | .error f => (.error f, w)
      | .ok () =>
        match entry.runner ⟨aliasName, step.type, workDir, state, config⟩ w with
        | (.error f, w) => (.error f, w)
        | (.ok result, w) =>
          if cancelled w then (.error (.of (.cancelled "step execution")), w)
          else (.ok result, w)

/-- The shared state after a step: a step that succeeded with an output leaves it there. -/
def absorb (state : State) (aliasName : String) (result : StepResult) : Except Failure State :=
  match result.status, result.output with
  | .succeeded, some output => state.merge aliasName output
  | _, _ => .ok state

/-- The report on a step, and the shared state after it. -/
def concludeStep (state : State) (aliasName type : String) (outcome : Except Failure StepResult) :
    StepReport × State :=
  match outcome with
  | .error f => (.errored aliasName type f, state)
  | .ok result =>
    match absorb state aliasName result with
    | .error f => (.errored aliasName type f, state)
    | .ok next =>
      match result.status with
      | .succeeded => (.succeeded aliasName type result.output, next)
      | .errored =>
        (.errored aliasName type (.of (.unexpected "step reported Errored without an error")), next)

/-- Runs steps, each with its alias, up to the first that does not succeed. -/
def runSteps [Cancellable ω] (registry : Registry ω) (workDir : String) :
    List (Step × String) → State → ω → List StepReport × State × ω
  | [], state, w => ([], state, w)
  | (step, aliasName) :: rest, state, w =>
    let (outcome, w) := executeStep registry workDir step aliasName state (passes w)
    let (report, state) := concludeStep state aliasName step.type outcome
    match report.status with
    | .errored => ([report], state, w)
    | .succeeded =>
      let (reports, state, w) := runSteps registry workDir rest state w
      (report :: reports, state, w)

def Status.ofReports (reports : List StepReport) : Status :=
  if reports.any (·.status = .errored) then .errored else .succeeded

/-- What to do after a run. -/
def nextActions (reports : List StepReport) : List String :=
  match Status.ofReports reports with
  | .succeeded => []
  | .errored =>
    if reports.any (·.errorCode = some Code.runCancelled.name) then
      ["Run was cancelled; re-run the pipeline to finish the remaining steps"]
    else
      ["Fix the failing step and re-run; steps that already succeeded must be idempotent"]

def Summary.ofReports (total : Nat) (reports : List StepReport) : Summary where
  totalSteps := total
  succeeded := (reports.filter (·.status = .succeeded)).length
  errored := (reports.filter (·.status = .errored)).length
  notRun := total - reports.length
  nextActions := StepPipeline.nextActions reports

/-- Runs a pipeline. Fails only if the aliases do; any other failure is in the report. -/
def run [Cancellable ω] (steps : List Step) (registry : Registry ω) (ctx : RunContext) (w : ω) :
    Except Failure RunReport × ω :=
  match resolveAliases steps ctx.aliasStem with
  | .error f => (.error f, w)
  | .ok aliases =>
    let (reports, state, w) := runSteps registry ctx.workDir (steps.zip aliases) .empty w
    (.ok ⟨.ofReports reports, reports, .ofReports steps.length reports, state⟩, w)

end StepPipeline

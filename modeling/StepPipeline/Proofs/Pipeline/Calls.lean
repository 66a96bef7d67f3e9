import StepPipeline.Proofs.Pipeline.History

/-!
# The calls of a run

Reports say how steps ended, not whose runner was called: a runner may be called and leave nothing
behind. To see the calls, every runner of a registry is replaced by one that does the same and notes
that it was called (`Registry.spied`), in a world that keeps the notes beside what it was.

**Calls of a step (`stepCalls`).** None if the run is cancelled, the type is not registered or the
schema refuses the configuration; else one, of the runner registered for the type.

**Results.**
* `executeStep_spied`: carried out with spied runners, a step ends as it does without them, and its
  calls are noted.
* `run_spied`: so does a run; its notes are the calls of its executions, in order.
-/
namespace StepPipeline

open Cancellable

variable {ω : Type}

/-! ## Spied runners -/

/-- A call of the runner registered under a name. -/
structure Call where
  runner : String
  context : StepContext

/-- The alias of the step that a runner was called for, and the name of the runner. -/
def Call.names (c : Call) : String × String := (c.context.aliasName, c.runner)

/-- A world with the calls that have been made in it. -/
structure Spied (ω : Type) where
  world : ω
  calls : List Call

instance [Cancellable ω] : Cancellable (Spied ω) where
  cancelled s := cancelled s.world
  passes s := ⟨passes s.world, s.calls⟩
  stays s := stays s.world

def Registration.spied (entry : Registration ω) : Registration (Spied ω) where
  name := entry.name
  runner context s :=
    let (result, w) := entry.runner context s.world
    (result, ⟨w, s.calls ++ [⟨entry.name, context⟩]⟩)
  document := entry.document
  validator := entry.validator

def Registry.spied (r : Registry ω) : Registry (Spied ω) :=
  ⟨r.entries.map Registration.spied⟩

/-- The calls of runners that a run makes, in order. -/
def runnerCalls [Cancellable ω] (steps : List Step) (registry : Registry ω) (ctx : RunContext)
    (w : ω) : List Call :=
  (run steps registry.spied ctx ⟨w, []⟩).2.calls

theorem lookup_spied (registry : Registry ω) (stepType : String) :
    registry.spied.lookup stepType = (registry.lookup stepType).map Registration.spied := by
  have hget : registry.spied.get? stepType = (registry.get? stepType).map Registration.spied := by
    unfold Registry.get? Registry.spied
    rw [List.find?_map]
    rfl
  have htypes : registry.spied.stepTypes = registry.stepTypes := by
    unfold Registry.stepTypes Registry.spied
    rw [List.map_map]
    rfl
  unfold Registry.lookup
  rw [hget, htypes]
  cases registry.get? stepType <;> rfl

theorem lookup_type {registry : Registry ω} {stepType : String} {entry : Registration ω}
    (h : registry.lookup stepType = .ok entry) : entry.name = stepType := by
  unfold Registry.lookup at h
  split at h
  · rename_i found hg
    cases h
    simpa using List.find?_some hg
  · cases h

theorem runner_spied {entry : Registration ω} {context : StepContext} {w w' : ω}
    {result : Except Failure StepResult} (h : entry.runner context w = (result, w'))
    (calls : List Call) :
    entry.spied.runner context ⟨w, calls⟩ =
      (result, ⟨w', calls ++ [⟨entry.name, context⟩]⟩) := by
  simp only [Registration.spied, h]

/-! ## Spying changes nothing -/

section
variable [Cancellable ω]

/-- The calls that carrying out one step makes. -/
def stepCalls (registry : Registry ω) (workDir : String) (step : Step) (aliasName : String)
    (state : State) (w : ω) : List Call :=
  if cancelled w then []
  else match registry.lookup step.type with
    | .error _ => []
    | .ok entry =>
      match entry.validate step.type (.object step.config) with
      | .error _ => []
      | .ok () => [⟨step.type, contextOf workDir step aliasName state⟩]

theorem executeStep_spied {registry : Registry ω} {workDir : String} {step : Step}
    {aliasName : String} {state : State} {w w' : ω} {outcome : Except Failure StepResult}
    (h : executeStep registry workDir step aliasName state w = (outcome, w')) (calls : List Call) :
    executeStep registry.spied workDir step aliasName state ⟨w, calls⟩ =
      (outcome, ⟨w', calls ++ stepCalls registry workDir step aliasName state w⟩) := by
  have hcancelled (v : ω) (noted : List Call) : cancelled (Spied.mk v noted) = cancelled v := rfl
  have hvalidate (entry : Registration ω) : entry.spied.validate = entry.validate := rfl
  unfold executeStep stepCalls
  rw [lookup_spied]
  cases executeStep_ends h with
  | cancelled hc => simp [hcancelled, hc]
  | missing hc hl => simp [hcancelled, hc, hl, Except.map]
  | invalid hc hl hv => simp [hcancelled, hc, hl, hv, hvalidate, Except.map]
  | failed hc hl hv hr =>
    have hspied := runner_spied hr calls
    rw [lookup_type hl] at hspied
    unfold contextOf at hspied ⊢
    simp [hcancelled, hc, hl, hv, hvalidate, hspied, Except.map]
  | overtaken hc hl hv hr hc' =>
    have hspied := runner_spied hr calls
    rw [lookup_type hl] at hspied
    unfold contextOf at hspied ⊢
    simp [hcancelled, hc, hc', hl, hv, hvalidate, hspied, Except.map]
  | done hc hl hv hr hc' =>
    have hspied := runner_spied hr calls
    rw [lookup_type hl] at hspied
    unfold contextOf at hspied ⊢
    simp [hcancelled, hc, hc', hl, hv, hvalidate, hspied, Except.map]

/-- The calls of an execution. -/
def Execution.calls (registry : Registry ω) (workDir : String) (a : Execution ω) : List Call :=
  stepCalls registry workDir a.step a.aliasName a.state a.start

theorem runSteps_spied (registry : Registry ω) (workDir : String) (steps : List (Step × String))
    (state : State) (w : ω) (calls : List Call) :
    runSteps registry.spied workDir steps state ⟨w, calls⟩ =
      ((runSteps registry workDir steps state w).1, (runSteps registry workDir steps state w).2.1,
        ⟨(runSteps registry workDir steps state w).2.2,
          calls ++ (history registry workDir steps state w).flatMap
            (Execution.calls registry workDir)⟩) := by
  induction steps generalizing state w calls with
  | nil => simp [runSteps, history]
  | cons pair rest ih =>
    obtain ⟨step, aliasName⟩ := pair
    rcases he : executeStep registry workDir step aliasName state (passes w) with ⟨outcome, w'⟩
    have hpasses : passes (Spied.mk w calls) = ⟨passes w, calls⟩ := rfl
    rw [history_cons _ _ _ _ _ rfl, runSteps, runSteps, hpasses, executeStep_spied he]
    simp only [execution, he, Execution.report, Execution.stateAfter]
    cases hs : (concludeStep state aliasName step.type outcome).1.status with
    | errored => simp [Execution.calls]
    | succeeded => simp [ih, Execution.calls]

theorem run_spied (steps : List Step) (registry : Registry ω) (ctx : RunContext) (w : ω)
    (calls : List Call) :
    run steps registry.spied ctx ⟨w, calls⟩ =
      ((run steps registry ctx w).1,
        ⟨(run steps registry ctx w).2,
          calls ++ (executions steps registry ctx w).flatMap
            (Execution.calls registry ctx.workDir)⟩) := by
  unfold run executions
  cases resolveAliases steps ctx.aliasStem with
  | error f => simp
  | ok aliases => simp only [runSteps_spied]

theorem runnerCalls_eq (steps : List Step) (registry : Registry ω) (ctx : RunContext) (w : ω) :
    runnerCalls steps registry ctx w =
      (executions steps registry ctx w).flatMap (Execution.calls registry ctx.workDir) := by
  unfold runnerCalls
  rw [run_spied, List.nil_append]

end
end StepPipeline

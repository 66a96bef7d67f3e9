import StepPipeline.Proofs.Command.Answers
import StepPipeline.Proofs.Pipeline.Cancellation

/-!
# Runs that halted

A run that gets as far as its first step ends with data, whatever stops it then: the report tells of
the failure, and the command chooses the exit code by looking whether the run has succeeded. So the
failure of a step never becomes the failure of the command, and its code decides nothing about the
exit code. The code of a cancelled run would make the command exit with 130, if it came so far.

**Displays of halted runs (`ShownHalted`).** What is seen of a run that a failure has stopped.

**Results.**
* `exit_ne_cancelled`: no command line ends with the exit code of a cancelled run.
* `run_cancelled_within`: a run that is cancelled, before a step or during it, ends with a report.
* `halted_runs_exit_alike`: the exit code of a halted run is 1, cancelled or not; only the data tells
  the two apart.
-/
namespace StepPipeline

open Cancellable

/-- A code is the one that its name names. -/
theorem Code.ofName?_name (code : Code) : Code.ofName? code.name = some code := by
  cases code <;> rfl

theorem Code.name_inj {code code' : Code} : code.name = code'.name ↔ code = code' := by
  refine ⟨fun h => ?_, congrArg _⟩
  rw [← Option.some_inj, ← ofName?_name code, ← ofName?_name code', h]

namespace RunReport.StopsAt

variable {r : RunReport} {i : Nat} {aliasName : String} {f : Failure}

theorem getLast? (h : r.StopsAt i aliasName f) : r.steps.getLast? = r.steps[i]? := by
  rw [List.getLast?_eq_getElem?, h.last, Nat.add_sub_cancel]

theorem errored (h : r.StopsAt i aliasName f) : ∃ s ∈ r.steps, s.status = .errored := by
  obtain ⟨s, hs, -, he, -⟩ := h.told
  exact ⟨s, List.mem_of_getElem? hs, he⟩

theorem errorCode (h : r.StopsAt i aliasName f) :
    r.steps[i]?.bind (·.errorCode) = some f.code.name := by
  obtain ⟨s, hs, -, -, htells⟩ := h.told
  rw [hs]
  exact htells.errorCode

section
variable {steps : List Step} {aliases : List String} (hw : r.WellFormed steps aliases)
include hw

theorem status (h : r.StopsAt i aliasName f) : r.status = .errored := by
  obtain ⟨s, hs, -, he, -⟩ := h.told
  exact hw.status.mpr ⟨s, h.getLast?.trans hs, he⟩

/-- What to do next depends on whether the failure is a cancellation. -/
theorem nextActions (h : r.StopsAt i aliasName f) : r.summary.nextActions =
    if f.code = .runCancelled then
      ["Run was cancelled; re-run the pipeline to finish the remaining steps"]
    else ["Fix the failing step and re-run; steps that already succeeded must be idempotent"] := by
  rw [hw.advice (h.status hw), h.getLast?, h.errorCode]
  simp only [Option.some_inj, Code.name_inj]

end

end RunReport.StopsAt

section
variable {ω : Type} [Cancellable ω] {registry : Registry ω}

/-- A run that is cancelled by the end of a step stops there with the failure of the step. That is
the cancellation, unless the runner of the step has failed by itself. -/
theorem run_cancelled_within {steps : List Step} {ctx : RunContext} {w : ω} {i : Nat}
    {a : Execution ω} (ha : (executions steps registry ctx w)[i]? = some a)
    (hc : cancelled a.finish = true) :
    ∃ r f, run steps registry ctx w = (.ok r, a.finish) ∧ r.StopsAt i a.aliasName f ∧
      (f.code = .runCancelled ∨ cancelled a.start = false ∧
        ∃ entry, registry.lookup a.step.type = .ok entry ∧
          entry.runner (contextOf ctx.workDir a.step a.aliasName a.state) a.start =
            (.error f, a.finish)) := by
  obtain ⟨r, f, hf, hrun, hstop⟩ := run_of_cancelled ha hc
  refine ⟨r, f, hrun, hstop, ?_⟩
  have hends := executeStep_ends (executions_executes (List.mem_of_getElem? ha))
  rw [hf] at hends
  generalize a.finish = finish at hends hc ⊢
  cases hends with
  | cancelled _ => exact Or.inl rfl
  | missing hc' _ => rw [hc] at hc'; cases hc'
  | invalid hc' _ _ => rw [hc] at hc'; cases hc'
  | failed hc' hl _ hr => exact Or.inr ⟨hc', _, hl, hr⟩
  | overtaken _ _ _ _ _ => exact Or.inl rfl

end

namespace Command

variable {ω : Type} [Host ω]

/-- No command line ends with the exit code of a cancelled run. -/
theorem exit_ne_cancelled (s : Surroundings) (writeReport : RunReport → Json) (args : List String)
    (w : ω) : (answer s writeReport args w).1.exit ≠ exitOctet Code.runCancelled.exitCode := by
  unfold answer
  split
  next stop _ =>
    show stop.display.exit ≠ _
    cases stop <;> decide
  next invocation _ =>
    have hexit : (display writeReport (execute s invocation w).1).exit ∈ [0, 1, 2, 4] :=
      exit_mem (execute_course s invocation w)
    intro heq
    rw [heq] at hexit
    exact absurd hexit (by decide)

/-- What is seen of a run that was stopped by the failure `f` of its step `i`. -/
structure ShownHalted (writeReport : RunReport → Json) (r : RunReport) (i : Nat) (f : Failure)
    (shown : Display) : Prop where
  /-- The failure does not count for the exit code, -/
  exit : shown.exit = 1
  /-- nor is it shown as the error of the command. -/
  data : (Data.report r).Counted → Json.parse shown.stdout =
    .ok (.object [("data", (writeReport r).canonical), ("success", .bool true)])
  /-- It is told in the result of the step, -/
  told : r.steps[i]?.bind (·.errorCode) = some f.code.name
  /-- and from what is to be done next it can be seen whether the run was cancelled. -/
  next : r.summary.nextActions =
    if f.code = .runCancelled then
      ["Run was cancelled; re-run the pipeline to finish the remaining steps"]
    else ["Fix the failing step and re-run; steps that already succeeded must be idempotent"]

theorem shownHalted_of_course {s : Surroundings} {w after : ω} {invocation : Invocation}
    {r : RunReport} {exit : Int} (h : Course s w invocation (.ok (.report r, exit)) after)
    {i : Nat} {aliasName : String} {f : Failure} (hstop : r.StopsAt i aliasName f) (id : Uuid)
    (startedAt finishedAt : Instant) :
    ShownHalted (writeRecord id startedAt finishedAt) r i f
      (display (writeRecord id startedAt finishedAt) (.ok (.report r, exit))) := by
  have hanswered := answered_of_course h id startedAt finishedAt
  refine ⟨hanswered.halted r exit rfl hstop.errored, hanswered.data _ exit rfl, hstop.errorCode, ?_⟩
  cases h with
  | ran _ _ _ hrun =>
    obtain ⟨aliases, -, hw⟩ := wellFormed_of_run (congrArg Prod.fst hrun)
    exact hstop.nextActions hw

/-- **Halted runs.** Whatever the pipeline, the directory and the moment of a cancellation are:

* the command fails for no cancellation;
* whatever a step has failed with, the command that halted there exits with 1, and shows its report
  as data;
* so does a run that is cancelled by the end of a step, be it that the step finds it cancelled or
  that it is cancelled meanwhile. -/
theorem halted_runs_exit_alike {args : List String} {config : Option String} {file workDir : String}
    {stem : Option String} (hp : parse args = .ok ⟨config, .run file workDir stem⟩)
    (s : Surroundings) (w : ω) (id : Uuid) (startedAt finishedAt : Instant) :
    (∀ f, (execute s ⟨config, .run file workDir stem⟩ w).1 = .error f → f.code ≠ .runCancelled) ∧
    (∀ r exit, (execute s ⟨config, .run file workDir stem⟩ w).1 = .ok (.report r, exit) →
      ∀ i aliasName f, r.StopsAt i aliasName f →
        ShownHalted (writeRecord id startedAt finishedAt) r i f
          (answer s (writeRecord id startedAt finishedAt) args w).1) ∧
    ∀ settings steps, configured s (Filed.files w) config = .ok settings →
      loadSteps (Filed.files w) (s.expand file) = .ok steps →
      (Filed.files w).isDirectory (s.expand workDir) = true →
      ∀ i a, (executions steps (builtIns settings)
          ⟨s.expand workDir, stem.getD settings.aliasStem⟩ w)[i]? = some a →
        cancelled a.finish = true →
        ∃ r f, execute s ⟨config, .run file workDir stem⟩ w = (.ok (.report r, 1), a.finish) ∧
          r.StopsAt i a.aliasName f ∧
          (f.code = .runCancelled ∨ cancelled a.start = false ∧
            ∃ entry, (builtIns settings).lookup a.step.type = .ok entry ∧
              entry.runner (contextOf (s.expand workDir) a.step a.aliasName a.state) a.start =
                (.error f, a.finish)) := by
  refine ⟨fun f hf => ?_, fun r exit hr i aliasName f hstop => ?_, ?_⟩
  · have hcode := (among_of_refused (execute_error_iff.mp hf)).code
    intro heq
    rw [heq] at hcode
    exact absurd hcode (by decide)
  · have hcourse := execute_course s ⟨config, .run file workDir stem⟩ w
    rw [answer_eq hp, hr]
    rw [hr] at hcourse
    exact shownHalted_of_course hcourse hstop id startedAt finishedAt
  · intro settings steps hs hl hd i a ha hc
    obtain ⟨r, f, hrun, hstop, hcause⟩ := run_cancelled_within ha hc
    refine ⟨r, f, ?_, hstop, hcause⟩
    have hstatus : r.succeeded = false := by
      obtain ⟨aliases, -, hw⟩ := wellFormed_of_run (congrArg Prod.fst hrun)
      rw [RunReport.succeeded, hstop.status hw]
      rfl
    rw [execute_run, prepared_ok hs hl, Action.andThen_ok (checkDirectory_ok hd),
      Action.andThen_ok hrun, hstatus]
    rfl

/-! ## A run that was called off -/

/-- A root directory with the file of a pipeline, whose run is cancelled before it starts. -/
structure CalledOff where
  desk : Desk

instance : Host CalledOff where
  cancelled _ := true
  files w := w.desk.files
  start _ w := (.interrupted, w)

/-- A pipeline of two commits. -/
def calledOff : CalledOff :=
  ⟨⟨[⟨none, "git-commit", [("path", .string ".")]⟩, ⟨none, "git-commit", [("path", .string ".")]⟩]⟩⟩

theorem loadSteps_calledOff :
    loadSteps (Filed.files calledOff) (Desk.around.expand "/flow.json") =
      .ok calledOff.desk.steps := by
  have hplain : ∀ step ∈ calledOff.desk.steps, (Json.object step.config).Plain := by
    simp only [calledOff, List.forall_mem_cons]
    exact ⟨⟨⟨trivial, trivial⟩, rfl⟩, ⟨⟨trivial, trivial⟩, rfl⟩, nofun⟩
  exact Desk.loadSteps_flow hplain (by decide)

/-- The run comes to its first step, and goes no further: it has the code of a cancellation in its
result, and the exit code of any failed step. -/
theorem halted_runs_exit_alike_calledOff : ∃ r f,
    execute Desk.around ⟨none, .run "/flow.json" "/" none⟩ calledOff =
      (.ok (.report r, 1), calledOff) ∧
    r.StopsAt 0 "step-0" f ∧
    r.steps[0]?.bind (·.errorCode) = some "run.cancelled" ∧
    Code.runCancelled.exitCode = 130 ∧
    (answer Desk.around (writeRecord default default default)
      ["run", "--work-dir", "/", "/flow.json"] calledOff).1.exit = 1 := by
  obtain ⟨-, hshown, hmoment⟩ := @halted_runs_exit_alike CalledOff _
    ["run", "--work-dir", "/", "/flow.json"] none "/flow.json" "/" none rfl Desk.around calledOff
    default default default
  have ha : (executions calledOff.desk.steps (builtIns .builtIn) ⟨"/", "step"⟩ calledOff)[0]? =
      some (execution (builtIns .builtIn) "/" ⟨none, "git-commit", [("path", .string ".")]⟩
        "step-0" .empty calledOff) := by
    rfl
  obtain ⟨r, f, hr, hstop, hcause⟩ := hmoment .builtIn _ rfl loadSteps_calledOff
    calledOff.desk.isDirectory_root 0 _ ha rfl
  have hcode : f.code = .runCancelled := by
    rcases hcause with hcode | ⟨hlive, -⟩
    · exact hcode
    · cases hlive
  have hseen := hshown r 1 (congrArg Prod.fst hr) 0 _ f hstop
  exact ⟨r, f, hr, hstop, by rw [hseen.told, hcode]; rfl, rfl, hseen.exit⟩

end Command
end StepPipeline

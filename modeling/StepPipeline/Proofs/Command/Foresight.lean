import StepPipeline.Proofs.Command.Answers

/-!
# Validating foretells running

The commands that run and that validate a pipeline read the same files and then go different ways.
Up to there they can fail, and they fail alike, but for the working directory, which only a run has.
What is left to a run of a pipeline that is ready is what its steps do.

**Results.**
* `refused_run_iff`: the two commands are refused alike.
* `report_of_planned`: a pipeline that has a plan has a report, of the same steps.
* `code_of_ready`: a step that is ready fails for the run, for its path, for git or for the system.
* `validate_foretells_run`: so what validating a pipeline comes to says what its run can come to,
  whatever git answers.
-/
namespace StepPipeline.Command

open StepPipeline.Action (Shadows)

variable {ω ω' : Type} [Host ω] [Host ω'] {s : Surroundings} {config : Option String}
  {file workDir : String} {stem : Option String} {settings : Settings}

/-! ## Refusals -/

/-- With a directory to work in, a run is refused exactly if its pipeline is. -/
theorem refused_run_iff {fs : FileSystem} {f : Failure}
    (hd : fs.isDirectory (s.expand workDir) = true) :
    Refused s fs ⟨config, .run file workDir stem⟩ f ↔
      Refused s fs ⟨config, .validate file stem⟩ f := by
  constructor
  · intro h
    cases h with
    | settings hr h => exact .settings nofun h
    | pipeline hr hs h =>
      cases hr
      exact .pipeline rfl hs h
    | directory hs hl h =>
      rw [hd] at h
      cases h
    | aliases hr hs hl _ h =>
      cases hr
      exact .aliases rfl hs hl nofun h
  · intro h
    cases h with
    | settings hr h => exact .settings nofun h
    | pipeline hr hs h =>
      cases hr
      exact .pipeline rfl hs h
    | aliases hr hs hl _ h =>
      cases hr
      refine .aliases rfl hs hl ?_ h
      rintro _ _ _ ⟨⟩
      exact hd

/-! ## Steps that are ready -/

/-- What is planned does not depend on the world in which it would be carried out. -/
theorem plan_builtIns (steps : List Step) (stem : String) :
    plan steps (builtIns settings : Registry ω) stem =
      plan steps (builtIns settings : Registry ω') stem := by
  have hentry : PlanEntry.ofStep (builtIns settings : Registry ω) =
      PlanEntry.ofStep (builtIns settings : Registry ω') := by
    funext aliasName step
    unfold PlanEntry.ofStep
    rw [lookup_builtIns, lookup_builtIns]
    by_cases ht : step.type = commitStepType
    · rw [if_pos ht, if_pos ht]
      rfl
    · rw [if_neg ht, if_neg ht]
  unfold plan
  rw [hentry]

/-- A step that is ready, and finds nothing but commits, fails for the run, for its path, for git or
for the system only. -/
theorem code_of_ready {step : Step} {aliasName dir : String} {state : State} {w w' : ω}
    {f : Failure} (hsorted : step.Sorted) (hstate : state.All IsCommit)
    (hready : Finding (builtIns settings : Registry ω) step .ready none)
    (h : executeStep (builtIns settings) dir step aliasName state w = (.error f, w')) :
    f.code ∈ Repository.commitCodes := by
  have hcancelled : Code.runCancelled ∈ Repository.commitCodes := by decide
  cases hready with
  | @ready entry hl hv =>
    cases executeStep_ends h with
    | cancelled => exact hcancelled
    | missing _ hl' =>
      rw [hl] at hl'
      cases hl'
    | invalid _ hl' hv' =>
      rw [hl] at hl'
      cases hl'
      rw [hv] at hv'
      cases hv'
    | overtaken => exact hcancelled
    | failed _ hl' _ hr =>
      rw [hl] at hl'
      cases hl'
      rw [lookup_builtIns] at hl
      split at hl
      · cases hl
        obtain ⟨c, hd⟩ := Repository.decodes_of_valid hsorted (Schema.validate_ok_iff.mp hv)
        have hm := commitMessage_of_commits hstate c
        obtain ⟨added, hkept, -⟩ := @Repository.commitStep_kept ω _ _ settings.identity
          (contextOf dir step aliasName state) c (hd _) hm w []
        exact hkept.failure f (congrArg Prod.fst hr)
      · cases hl

section
variable {steps : List Step} (hsorted : ∀ step ∈ steps, step.Sorted) {ctx : RunContext} {w : ω}
  {p : Plan} {r : RunReport} (hr : (run steps (builtIns settings) ctx w).1 = .ok r)
  (hp : plan steps (builtIns settings : Registry ω) ctx.aliasStem = .ok p)
include hr hp

/-- The results are those of the first entries. -/
theorem names_of_plan :
    r.steps.map (fun result => (result.aliasName, result.type)) <+:
      p.steps.map PlanEntry.names := by
  obtain ⟨aliases, ha, hw⟩ := wellFormed_of_run hr
  rw [plan_eq, ha] at hp
  cases hp
  rw [names_entriesOf]
  exact hw.names

include hsorted

/-- If all steps are ready, no result has the code of a step that is not. -/
theorem errorCode_of_ready (hready : p.isReady = true) :
    ∀ result ∈ r.steps, ∀ code, result.errorCode = some code →
      ∃ c ∈ Repository.commitCodes, code = c.name := by
  intro result hm code hcode
  have hregistry : builtInRegistry (Repository.load settings.identity) =
      .ok (builtIns settings : Registry ω) := builtInRegistry_builtIns settings
  rcases Repository.result_cases hregistry hsorted hr hm with ⟨hok, -⟩ | ⟨a, ha, f, hout, rfl⟩
  · obtain ⟨aliases, -, hw⟩ := wellFormed_of_run hr
    rw [(hw.sound result hm hok).errorCode] at hcode
    cases hcode
  · cases hcode
    have hstate := (Repository.executions_bound hregistry hsorted ctx w a ha).found
    have hstep := step_mem_of_executions ha
    have hexecute := executions_executes ha
    rw [hout] at hexecute
    obtain ⟨aliases, haliases, hh, -⟩ := run_ok hr
    rw [plan_eq, haliases] at hp
    cases hp
    rw [hh] at ha
    exact ⟨f.code, code_of_ready (hsorted _ hstep) hstate (ready_of_isReady hready ha) hexecute, rfl⟩

/-- If all steps are ready, none is found not to be when it is carried out. -/
theorem errorCode_not_mem_of_ready (hready : p.isReady = true) :
    ∀ result ∈ r.steps, result.errorCode ∉ [some "step.not_found",
      some "config.schema_violation", some "config.decode_failed"] := by
  intro result hm hmem
  have hcodes : ∀ c ∈ Repository.commitCodes, some c.name ∉ [some "step.not_found",
      some "config.schema_violation", some "config.decode_failed"] := by decide
  cases hcode : result.errorCode with
  | none =>
    rw [hcode] at hmem
    simp at hmem
  | some code =>
    obtain ⟨c, hc, rfl⟩ := errorCode_of_ready hsorted hr hp hready result hm code hcode
    exact hcodes c hc (hcode ▸ hmem)

end

/-! ## The two commands -/

/-- Outcomes that fail alike are printed alike where they fail. -/
theorem stdout_eq_failure_iff {writeReport : RunReport → Json}
    {outcome outcome' : Except Failure Outcome}
    (h : ∀ f, outcome = .error f ↔ outcome' = .error f) (f : Failure) :
    (display writeReport outcome).stdout = (display writeReport (.error f)).stdout ↔
      (display writeReport outcome').stdout = (display writeReport (.error f)).stdout := by
  cases outcome with
  | error g => rw [(h g).mp rfl]
  | ok shown =>
    cases outcome' with
    | error g => cases (h g).mpr rfl
    | ok shown' => exact iff_of_false (stdout_ne_failure _ _ f) (stdout_ne_failure _ _ f)

/-- A pipeline that has a plan has, with the same files and a directory to work in, a report: both
are of the same steps. -/
theorem report_of_planned {v : ω} {w : ω'} (hfiles : Filed.files v = Filed.files w)
    (hd : (Filed.files w).isDirectory (s.expand workDir) = true) {p : Plan} {exit : Int}
    (hp : (execute s ⟨config, .validate file stem⟩ v).1 = .ok (.plan p, exit)) :
    ∃ settings steps ctx r exit', (∀ step ∈ steps, step.Sorted) ∧
      plan steps (builtIns settings : Registry ω') ctx.aliasStem = .ok p ∧
      (run steps (builtIns settings) ctx w).1 = .ok r ∧
      (execute s ⟨config, .run file workDir stem⟩ w).1 = .ok (.report r, exit') := by
  have hvalidated := execute_course s ⟨config, .validate file stem⟩ v
  rw [hp] at hvalidated
  generalize (execute s ⟨config, .validate file stem⟩ v).2 = after at hvalidated
  cases hvalidated with
  | @planned _ settings steps _ _ _ hs hl hplan =>
    rw [hfiles] at hs hl
    have hran := execute_course s ⟨config, .run file workDir stem⟩ w
    cases hrun : (execute s ⟨config, .run file workDir stem⟩ w).1 with
    | error f =>
      have hrefused := (refused_run_iff hd).mp (execute_error_iff.mp hrun)
      rw [← hfiles, ← execute_error_iff, hp] at hrefused
      cases hrefused
    | ok outcome =>
      rw [hrun] at hran
      generalize (execute s ⟨config, .run file workDir stem⟩ w).2 = after at hran
      cases hran with
      | @ran _ _ _ _ _ _ r _ hs' hl' _ hr =>
        rw [hs] at hs'
        cases hs'
        rw [hl] at hl'
        cases hl'
        rw [@plan_builtIns ω ω'] at hplan
        exact ⟨settings, steps, ⟨s.expand workDir, stem.getD settings.aliasStem⟩, r, _,
          sorted_of_loadSteps hl, hplan, by rw [hr], rfl⟩

/-- **Foresight.** A pipeline is validated and, with the same files and a directory to work in, run.
The run fails exactly if validating the pipeline does, with the same failure, and this is what both
print. If the pipeline is found to be ready, the run has a report; its results are those of the first
entries of the plan, and none of them is about a type, a configuration that violates its schema or
one that cannot be read. -/
theorem validate_foretells_run {validateArgs runArgs : List String}
    (hv : parse validateArgs = .ok ⟨config, .validate file stem⟩)
    (hr : parse runArgs = .ok ⟨config, .run file workDir stem⟩) {v : ω} {w : ω'}
    (hfiles : Filed.files v = Filed.files w)
    (hd : (Filed.files w).isDirectory (s.expand workDir) = true) (writeReport : RunReport → Json) :
    (∀ f, (execute s ⟨config, .run file workDir stem⟩ w).1 = .error f ↔
        (execute s ⟨config, .validate file stem⟩ v).1 = .error f) ∧
      (∀ f, (answer s writeReport runArgs w).1.stdout = (display writeReport (.error f)).stdout ↔
        (answer s writeReport validateArgs v).1.stdout =
          (display writeReport (.error f)).stdout) ∧
      ((answer s writeReport validateArgs v).1.exit = 0 → ∃ p r exit,
        (execute s ⟨config, .validate file stem⟩ v).1 = .ok (.plan p, 0) ∧
          (execute s ⟨config, .run file workDir stem⟩ w).1 = .ok (.report r, exit) ∧
          r.steps.map (fun result => (result.aliasName, result.type)) <+:
            p.steps.map PlanEntry.names ∧
          ∀ result ∈ r.steps, result.errorCode ∉ [some "step.not_found",
            some "config.schema_violation", some "config.decode_failed"]) := by
  have hfail : ∀ f, (execute s ⟨config, .run file workDir stem⟩ w).1 = .error f ↔
      (execute s ⟨config, .validate file stem⟩ v).1 = .error f := by
    intro f
    rw [execute_error_iff, execute_error_iff, refused_run_iff hd, hfiles]
  rw [answer_eq hr, answer_eq hv]
  refine ⟨hfail, stdout_eq_failure_iff hfail, fun hzero => ?_⟩
  have hvalidated := execute_course s ⟨config, .validate file stem⟩ v
  obtain ⟨data, exit, hout, hfinished⟩ := (exit_eq_zero_iff hvalidated).mp hzero
  rw [hout] at hvalidated
  generalize (execute s ⟨config, .validate file stem⟩ v).2 = after at hvalidated
  cases hvalidated with
  | @planned _ _ _ _ _ p =>
    have hready : p.isReady = true := finished_plan_iff.mp hfinished
    obtain ⟨_, _, _, r, exit, hsorted, hplan, hreport, hrun⟩ := report_of_planned hfiles hd hout
    refine ⟨p, r, exit, ?_, hrun, names_of_plan hreport hplan,
      errorCode_not_mem_of_ready hsorted hreport hplan hready⟩
    rw [hout, hready]
    rfl

/-- A pipeline with one commit. -/
def commitDesk : Desk := ⟨[⟨none, "git-commit", [("path", .string ".")]⟩]⟩

theorem execute_commit : ∃ p,
    (execute Desk.around ⟨none, .validate "/flow.json" none⟩ commitDesk).1 = .ok (.plan p, 0) ∧
      p.steps.map PlanEntry.names = [("step-0", "git-commit")] := by
  have hplain : ∀ step ∈ commitDesk.steps, (Json.object step.config).Plain :=
    List.forall_mem_singleton.mpr ⟨⟨trivial, trivial⟩, rfl⟩
  have hsettings : configured Desk.around (Filed.files commitDesk) none = .ok .builtIn := rfl
  have hload := Desk.loadSteps_flow hplain (by decide)
  rw [execute_validate, prepared_ok hsettings hload]
  exact ⟨_, rfl, rfl⟩

/-- The pipeline is ready, so its run ends with a report: there is no git to be started here, and
that is all that the one result can tell of. -/
theorem validate_foretells_run_commit :
    ∃ r exit, (execute Desk.around ⟨none, .run "/flow.json" "/" none⟩ commitDesk).1 =
        .ok (.report r, exit) ∧
      r.steps.map (fun result => (result.aliasName, result.type)) <+: [("step-0", "git-commit")] ∧
      ∀ result ∈ r.steps, result.errorCode ∉ [some "step.not_found",
        some "config.schema_violation", some "config.decode_failed"] := by
  obtain ⟨p, hp, hnames⟩ := execute_commit
  have hv : parse ["validate", "/flow.json"] = .ok ⟨none, .validate "/flow.json" none⟩ := rfl
  have hr : parse ["run", "-w", "/", "/flow.json"] = .ok ⟨none, .run "/flow.json" "/" none⟩ := rfl
  have hzero : (answer Desk.around RunReport.toJson ["validate", "/flow.json"] commitDesk).1.exit =
      0 := by
    rw [answer_eq hv, hp]
    rfl
  obtain ⟨-, -, hready⟩ := @validate_foretells_run Desk Desk _ _ Desk.around _ _ _ _ _ _ hv hr
    commitDesk commitDesk rfl commitDesk.isDirectory_root RunReport.toJson
  obtain ⟨p', r, exit, hp', hrun, hprefix, hcodes⟩ := hready hzero
  rw [hp] at hp'
  cases hp'
  exact ⟨r, exit, hrun, hnames ▸ hprefix, hcodes⟩

end StepPipeline.Command

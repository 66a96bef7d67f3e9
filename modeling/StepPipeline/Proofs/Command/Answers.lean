import StepPipeline.Proofs.Command.Courses
import StepPipeline.Proofs.Command.Printing
import StepPipeline.Proofs.Pipeline.DefinitionFiles

/-!
# Outcome, envelope and exit code agree

Whoever calls the program sees what it prints and its exit code. Both are made of the outcome of the
command, the one by the envelope and the other by the command itself, which chooses the code when it
has data to show, or else by the failure.

**Finished commands (`Finished`).** All that was asked for has been done: every step of the pipeline
has succeeded, or is ready.

**Answers (`Answered`).** What is seen of an outcome.

**Results.**
* `within_data`: the data of a command can be read from what is printed.
* `exit_eq_zero_iff`: the exit code is 0 exactly for a command that has finished.
* `answer_agrees`: envelope and exit code agree, whatever the command, the files and git are, and
  nothing is started for a command that cannot be carried out.
-/
namespace StepPipeline.Command

variable {ω : Type} [Host ω] {s : Surroundings} {w after : ω} {invocation : Invocation}

/-- The command that ended with the data has done all that was asked of it. -/
def Finished (s : Surroundings) (fs : FileSystem) : Request → Data → Prop
  | .run file _ _, .report r => ∃ steps, loadSteps fs (s.expand file) = .ok steps ∧
      r.steps.map (fun result => (result.type, result.status)) =
        steps.map fun step => (step.type, .succeeded)
  | .validate _ _, .plan p => ∀ e ∈ p.steps, e.status = .ready
  | .steps _, .stepTypes _ => True
  | .errors _, .codes _ => True
  | .errors _, .code _ => True
  | _, _ => False

/-- What an invocation names cannot be used: its settings, its pipeline file, its working directory
or its aliases. -/
inductive Rejected (s : Surroundings) (fs : FileSystem) : Invocation → Prop where
  | settings {config : Option String} {request : Request} {f : Failure}
    (hr : ∀ code, request ≠ .errors code) (h : configured s fs config = .error f) :
    Rejected s fs ⟨config, request⟩
  | pipeline {config : Option String} {request : Request} {file : String} {stem : Option String}
    {f : Failure} (hr : request.pipeline? = some (file, stem))
    (h : loadSteps fs (s.expand file) = .error f) : Rejected s fs ⟨config, request⟩
  | directory {config : Option String} {file workDir : String} {stem : Option String}
    (h : fs.isDirectory (s.expand workDir) = false) :
    Rejected s fs ⟨config, .run file workDir stem⟩
  | aliases {config : Option String} {request : Request} {settings : Settings} {steps : List Step}
    {file : String} {stem : Option String} {f : Failure}
    (hr : request.pipeline? = some (file, stem)) (hs : configured s fs config = .ok settings)
    (hl : loadSteps fs (s.expand file) = .ok steps)
    (h : resolveAliases steps (stem.getD settings.aliasStem) = .error f) :
    Rejected s fs ⟨config, request⟩

theorem refused_of_rejected {fs : FileSystem} (h : Rejected s fs invocation) :
    ∃ f, Refused s fs invocation f := by
  cases h with
  | settings hr h => exact ⟨_, .settings hr h⟩
  | @pipeline config request file stem f hr h =>
    rcases refused_or_ready s fs config hr with hrefused | ⟨_, _, _, -, hl, -⟩
    · exact hrefused
    · rw [h] at hl
      cases hl
  | @directory config file workDir stem h =>
    rcases @refused_or_ready s fs config (.run file workDir stem) _ _ rfl with
      hrefused | ⟨_, _, _, -, -, -, hd⟩
    · exact hrefused
    · have hd := hd _ _ _ rfl
      rw [h] at hd
      cases hd
  | @aliases config request settings steps file stem f hr hs hl h =>
    rcases refused_or_ready s fs config hr with hrefused | ⟨_, _, _, hs', hl', ha, -⟩
    · exact hrefused
    · rw [hs] at hs'
      cases hs'
      rw [hl] at hl'
      cases hl'
      rw [h] at ha
      cases ha

/-! ## Data -/

/-- The report of a run as the record that is printed of it. -/
def writeRecord (id : Uuid) (startedAt finishedAt : Instant) (r : RunReport) : Json :=
  RunRecord.toJson ⟨id, r, startedAt, finishedAt⟩

theorem within_of_isCommit {n : Nat} {v : Json} (h : IsCommit v) : v.Within (n + 1) := by
  obtain ⟨id, rfl⟩ := h
  exact Json.within_object (List.forall_mem_singleton.mpr (Json.within_string id))

theorem within_report {settings : Settings} {steps : List Step} {ctx : RunContext} {r : RunReport}
    (hsorted : ∀ step ∈ steps, step.Sorted)
    (h : run steps (builtIns settings) ctx w = (.ok r, after))
    (hc : r.summary.totalSteps < twoTo 64) (id : Uuid) (startedAt finishedAt : Instant) :
    (writeRecord id startedAt finishedAt r).Within 5 := by
  have hr : (run steps (builtIns settings) ctx w).1 = .ok r := by rw [h]
  have houtputs : ∀ s ∈ r.steps, ∀ v ∈ s.output, IsCommit v := by
    intro s hs
    rcases Repository.result_cases (builtInRegistry_builtIns settings) hsorted hr hs with
      ⟨-, hv⟩ | ⟨a, -, f, -, rfl⟩
    · exact hv
    · exact nofun
  have hentries := entries_all_of_run hr houtputs
  have htotal : r.summary.totalSteps = steps.length := by
    obtain ⟨aliases, -, hw⟩ := wellFormed_of_run hr
    exact hw.total
  exact RunRecord.within_toJson (fun s hs v hv => within_of_isCommit (houtputs s hs v hv))
    (fun f hf => within_of_isCommit (hentries f hf)) (bounded_of_run hr) (htotal ▸ hc)

/-- The data of a command is low, and its numbers are small. -/
theorem within_data {data : Data} {exit : Int}
    (h : Course s w invocation (.ok (data, exit)) after) (hc : data.Counted) (id : Uuid)
    (startedAt finishedAt : Instant) :
    (data.toJson (writeRecord id startedAt finishedAt)).Within 7 := by
  cases h with
  | ran hs hl hd hr =>
    exact (within_report (sorted_of_loadSteps hl) hr (hc _ rfl) id startedAt finishedAt).mono
      (by decide)
  | planned hs hl hp => exact (within_plan hp).mono (by decide)
  | listed hs h =>
    refine Json.within_array (List.forall_mem_singleton.mpr (Json.within_object ?_))
    simp only [List.forall_mem_cons]
    exact ⟨Json.within_string _, within_commitSchema, nofun⟩
  | codes =>
    refine Json.within_array fun v hv => ?_
    obtain ⟨code, -, rfl⟩ := List.mem_map.mp hv
    exact code.within_summaryJson.mono (by decide)
  | code h => exact (Code.within_helpJson _).mono (by decide)

/-! ## Exit codes -/

theorem toNat_exitOctet (code : Code) : (exitOctet code.exitCode).toNat = code.exitCode := by
  cases code <;> rfl

theorem exitCode_ne_zero (code : Code) : code.exitCode ≠ 0 := by
  cases code <;> decide

/-- A command that may not have finished exits with 0 only if it has. -/
theorem exitOctet_ite_eq_zero {finished : Bool} {exit : Int} (h : exitOctet exit ≠ 0) :
    exitOctet (if finished then 0 else exit) = 0 ↔ finished = true := by
  cases finished with
  | false => simpa using h
  | true => exact ⟨fun _ => rfl, fun _ => rfl⟩

theorem finished_report_iff {settings : Settings} {steps : List Step} {ctx : RunContext}
    {r : RunReport} {fs : FileSystem} {file workDir : String} {stem : Option String}
    (hl : loadSteps fs (s.expand file) = .ok steps)
    (h : run steps (builtIns settings) ctx w = (.ok r, after)) :
    Finished s fs (.run file workDir stem) (.report r) ↔ r.succeeded = true := by
  obtain ⟨aliases, ha, hw⟩ := wellFormed_of_run (r := r) (by rw [h])
  have hiff := hw.succeeded_iff (length_of_resolveAliases ha)
  rw [RunReport.succeeded, decide_eq_true_iff, hiff]
  constructor
  · rintro ⟨steps', hl', hall⟩
    rw [hl] at hl'
    cases hl'
    exact hall
  · intro hall
    exact ⟨steps, hl, hall⟩

theorem finished_plan_iff {fs : FileSystem} {file : String} {stem : Option String} {p : Plan} :
    Finished s fs (.validate file stem) (.plan p) ↔ p.isReady = true := by
  simp [Finished, Plan.isReady]

variable {writeReport : RunReport → Json} {outcome : Except Failure Outcome}

/-- The exit code is 0 exactly for a command that has finished. -/
theorem exit_eq_zero_iff (h : Course s w invocation outcome after) :
    (display writeReport outcome).exit = 0 ↔
      ∃ data exit, outcome = .ok (data, exit) ∧
        Finished s (Filed.files w) invocation.request data := by
  have hdata : ∀ {data : Data} {exit : Int} {P : Data → Prop},
      (∃ d e, (.ok (data, exit) : Except Failure Outcome) = .ok (d, e) ∧ P d) ↔ P data := by
    intro data exit P
    constructor
    · rintro ⟨_, _, ⟨⟩, h⟩
      exact h
    · intro h
      exact ⟨data, exit, rfl, h⟩
  cases h with
  | @refused _ f h =>
    refine ⟨fun hzero => ?_, nofun⟩
    have hcode := toNat_exitOctet f.code
    have hexit : exitOctet f.code.exitCode = 0 := hzero
    rw [hexit] at hcode
    exact absurd hcode.symm (exitCode_ne_zero f.code)
  | ran hs hl hd hr =>
    rw [hdata, finished_report_iff hl hr]
    exact exitOctet_ite_eq_zero (by decide)
  | planned hs hl hp =>
    rw [hdata, finished_plan_iff]
    exact exitOctet_ite_eq_zero (by decide)
  | listed => exact iff_of_true rfl ⟨_, _, rfl, trivial⟩
  | codes => exact iff_of_true rfl ⟨_, _, rfl, trivial⟩
  | code => exact iff_of_true rfl ⟨_, _, rfl, trivial⟩

theorem exit_mem (h : Course s w invocation outcome after) :
    (display writeReport outcome).exit ∈ [0, 1, 2, 4] := by
  cases h with
  | @refused _ f h =>
    have hcodes : ∀ code ∈ refusalCodes, exitOctet code.exitCode ∈ [0, 1, 2, 4] := by decide
    exact hcodes f.code (among_of_refused h).code
  | @ran _ _ _ _ _ _ r =>
    show exitOctet (if r.succeeded then 0 else 1) ∈ _
    cases r.succeeded <;> decide
  | @planned _ _ _ _ _ p =>
    show exitOctet (if p.isReady then 0 else 2) ∈ _
    cases p.isReady <;> decide
  | listed => exact List.mem_cons_self
  | codes => exact List.mem_cons_self
  | code => exact List.mem_cons_self

/-- What is seen of the outcome of an invocation. -/
structure Answered (s : Surroundings) (writeReport : RunReport → Json) (invocation : Invocation)
    (fs : FileSystem) (outcome : Except Failure Outcome) (shown : Display) : Prop where
  /-- One envelope is printed, and nothing else. -/
  envelope : (envelopeOf writeReport outcome).toJson.LaidOut shown.stdout
  /-- Data is read from it, if there is any, and no error. -/
  data : ∀ data exit, outcome = .ok (data, exit) → data.Counted →
    Json.parse shown.stdout =
      .ok (.object [("data", (data.toJson writeReport).canonical), ("success", .bool true)])
  /-- Otherwise the error is read from it with its code, and no data. -/
  error : ∀ f, outcome = .error f →
    Json.parse shown.stdout =
      .ok (.object [("error", f.toJson.canonical), ("success", .bool false)]) ∧
    f.toJson.canonical.field? "code" = some (.string f.code.name)
  zero : shown.exit = 0 ↔ ∃ data exit, outcome = .ok (data, exit) ∧
    Finished s fs invocation.request data
  /-- A run that halted exits with 1, whatever its step failed with. -/
  halted : ∀ r exit, outcome = .ok (.report r, exit) → (∃ x ∈ r.steps, x.status = .errored) →
    shown.exit = 1
  unready : ∀ p exit, outcome = .ok (.plan p, exit) → (∃ e ∈ p.steps, e.status ≠ .ready) →
    shown.exit = 2
  failed : ∀ f, outcome = .error f → shown.exit.toNat = f.code.exitCode ∧ f.code.exitCode ≠ 0
  exits : shown.exit ∈ [0, 1, 2, 4]

/-- Every course is answered in agreement with its outcome. -/
theorem answered_of_course (h : Course s w invocation outcome after) (id : Uuid)
    (startedAt finishedAt : Instant) :
    Answered s (writeRecord id startedAt finishedAt) invocation (Filed.files w) outcome
      (display (writeRecord id startedAt finishedAt) outcome) where
  envelope := laidOut_display outcome
  data := by
    rintro data exit rfl hc
    exact parse_success (within_data h hc id startedAt finishedAt) (by decide)
  error := by
    rintro f rfl
    cases h with
    | refused h => exact ⟨parse_failure (among_of_refused h).named, f.field?_code⟩
  zero := exit_eq_zero_iff h
  halted := by
    rintro r exit rfl ⟨x, hx, he⟩
    cases h with
    | @ran _ settings steps _ workDir stem _ _ hs hl hd hr =>
      have hrun : (run steps (builtIns settings) ⟨s.expand workDir, stem.getD settings.aliasStem⟩
          w).1 = .ok r := by rw [hr]
      have hstatus : r.status = .errored := by
        obtain ⟨-, -, -, rfl⟩ := run_ok hrun
        exact Status.ofReports_eq_errored.mpr ⟨x, hx, he⟩
      show exitOctet (if r.succeeded then 0 else 1) = 1
      rw [RunReport.succeeded, hstatus]
      rfl
  unready := by
    rintro p exit rfl ⟨e, he, hne⟩
    cases h with
    | planned hs hl hp =>
      have hunready : p.isReady = false :=
        List.all_eq_false.mpr ⟨e, he, by simpa using hne⟩
      show exitOctet (if p.isReady then 0 else 2) = 2
      rw [hunready]
      rfl
  failed := by
    rintro f rfl
    exact ⟨toNat_exitOctet f.code, exitCode_ne_zero f.code⟩
  exits := exit_mem h

theorem answer_eq {args : List String} (hp : parse args = .ok invocation) (s : Surroundings)
    (writeReport : RunReport → Json) (w : ω) :
    (answer s writeReport args w).1 = display writeReport (execute s invocation w).1 := by
  unfold answer
  rw [hp]

/-- **Answers.** Whatever the command line, the files, the environment and git are: a command that
is asked for prints one envelope, and this and the exit code agree with what it has come to. No
program is started for a command that fails, as every command does whose settings, pipeline file,
working directory or aliases are rejected. -/
theorem answer_agrees {args : List String} (hp : parse args = .ok invocation) (s : Surroundings)
    (w : ω) (id : Uuid) (startedAt finishedAt : Instant) :
    Answered s (writeRecord id startedAt finishedAt) invocation (Filed.files w)
        (execute s invocation w).1 (answer s (writeRecord id startedAt finishedAt) args w).1 ∧
      (Rejected s (Filed.files w) invocation → ∃ f, (execute s invocation w).1 = .error f) ∧
      ∀ f, (execute s invocation w).1 = .error f → ∀ notes : List (Started ω),
        execute s invocation (⟨w, notes⟩ : Noted ω (Started ω)) = (.error f, ⟨w, notes⟩) := by
  refine ⟨?_, fun h => ?_, fun f hf notes => ?_⟩
  · rw [answer_eq hp]
    exact answered_of_course (execute_course s invocation w) id startedAt finishedAt
  · obtain ⟨f, hf⟩ := refused_of_rejected h
    exact ⟨f, execute_error_iff.mpr hf⟩
  · have hrefused : Refused s (Filed.files w) invocation f := execute_error_iff.mp hf
    exact execute_of_refused hrefused

/-! ## A root directory with a pipeline -/

/-- A root directory with the file of a pipeline, and no program that could be started. -/
structure Desk where
  steps : List Step

namespace Desk

def document (d : Desk) : Json := .array (d.steps.map Step.toJson)

def files (d : Desk) : FileSystem :=
  ⟨.directory [("flow.json", .file (Utf8.encode d.document.compact))], []⟩

instance : Host Desk where
  cancelled _ := false
  files := Desk.files
  start _ d := (.refused "no programs can be started here", d)

/-- Nothing is known of the user. -/
def around : Surroundings := ⟨none, fun _ => none⟩

theorem get_flow (d : Desk) :
    d.files.get "/flow.json" = .ok (.file (Utf8.encode d.document.compact)) := by
  unfold FileSystem.get
  rw [FileSystem.resolve_absolute _ "/flow.json" ["flow.json"] (by decide)]
  simp [Desk.files, FileTree.walk, FileTree.at?, FileTree.child?, bind, Except.bind, pure,
    Except.pure]

theorem loadSteps_flow {d : Desk} (hplain : ∀ step ∈ d.steps, (Json.object step.config).Plain)
    (hheight : d.document.height < Json.depthLimit) :
    loadSteps (Filed.files d) (around.expand "/flow.json") = .ok d.steps := by
  have hwritten : Written d.steps (d.steps.map Step.toJson) := by
    rw [Written, List.forall₂_map_right_iff]
    exact List.forall₂_same.mpr fun _ _ => Or.inl rfl
  have hwhole : d.document.Whole :=
    Json.whole_array (whole_written hwritten fun step hs => (hplain step hs).1)
  exact loadSteps_defines (namedWith_flow (by decide)) (namedWith_flow (by decide)) d.get_flow
    hwritten hplain .bare (Json.readFrom_compact hwhole hheight)

theorem resolve_root (d : Desk) : d.files.resolve "/" = .ok [] := by
  rw [FileSystem.resolve_absolute _ "/" ["."] (by decide)]
  simp [Desk.files, FileTree.walk, FileTree.at?]

theorem isDirectory_root (d : Desk) : (Filed.files d).isDirectory (around.expand "/") = true :=
  FileSystem.isDirectory_of_resolve d.resolve_root rfl

end Desk

/-- A pipeline of one step, of a type that nobody has heard of. -/
def ghostDesk : Desk := ⟨[⟨none, "ghost", []⟩]⟩

theorem execute_ghost : ∃ r,
    (execute Desk.around ⟨none, .run "/flow.json" "/" none⟩ ghostDesk).1 = .ok (.report r, 1) ∧
      r.steps.map (fun result => (result.status, result.errorCode)) =
        [(.errored, some "step.not_found")] ∧
      r.summary.totalSteps = 1 := by
  have hplain : ∀ step ∈ ghostDesk.steps, (Json.object step.config).Plain :=
    List.forall_mem_singleton.mpr ⟨trivial, rfl⟩
  have hsettings : configured Desk.around (Filed.files ghostDesk) none = .ok .builtIn := rfl
  have hload := Desk.loadSteps_flow hplain (by decide)
  rw [execute_run, prepared_ok hsettings hload,
    Action.andThen_ok (checkDirectory_ok ghostDesk.isDirectory_root)]
  exact ⟨_, rfl, rfl, rfl⟩

/-- The run of such a step ends with data and exit code 1, although its error has the code of one
that makes a command exit with 4. -/
theorem answer_agrees_ghost :
    ∃ data, (answer Desk.around (writeRecord default default default)
        ["run", "--work-dir", "/", "/flow.json"] ghostDesk).1.exit = 1 ∧
      Json.parse (answer Desk.around (writeRecord default default default)
        ["run", "--work-dir", "/", "/flow.json"] ghostDesk).1.stdout =
          .ok (.object [("data", data), ("success", .bool true)]) := by
  obtain ⟨r, hr, hsteps, htotal⟩ := execute_ghost
  have h := (@answer_agrees Desk _ _ ["run", "--work-dir", "/", "/flow.json"] rfl Desk.around
    ghostDesk default default default).1
  have herrored : ∃ x ∈ r.steps, x.status = .errored := by
    obtain ⟨x, hx, hstatus⟩ := List.mem_map.mp (hsteps ▸ List.mem_cons_self)
    exact ⟨x, hx, congrArg Prod.fst hstatus⟩
  refine ⟨_, h.halted r 1 hr herrored, h.data (.report r) 1 hr ?_⟩
  rintro _ ⟨⟩
  rw [htotal]
  decide

end StepPipeline.Command

import StepPipeline.Command.Execute
import StepPipeline.Proofs.Commit.Outcomes
import StepPipeline.Proofs.Pipeline.Definitions
import StepPipeline.Proofs.Pipeline.Preflight

/-!
# The course of a command

Before a command does its own work it reads what it needs: the settings, and the steps of its
pipeline file. Whether it gets that far can be told from the files alone, and so can the failure that
it ends with if it does not. Only a run changes the world, and only once nothing is left to refuse.

**Refusals (`Refused`).** Why a command ends with a failure: the settings, the pipeline file, the
working directory, the aliases, or the name that it is asked about.

**Courses (`Course`).** All that carrying out an invocation can come to.

**Results.**
* `among_of_refused`: the failures that end a command have named causes and few codes.
* `execute_of_refused`: a command that is refused changes nothing.
* `execute_course`: every command takes one of the courses.
* `execute_error_iff`: so a command fails exactly if it is refused.
* `sorted_of_loadSteps`: the steps of a pipeline file are sorted.
-/
namespace StepPipeline

open Document (Node Decoder bind_ok mapError_ok)

/-! ## Failures of a sequence -/

section
variable {ε ε' α β : Type}

theorem error_of_mapError {x : Except ε α} {g : ε → ε'} {f : ε'} (h : x.mapError g = .error f) :
    ∃ e, x = .error e ∧ g e = f := by
  cases x with
  | error e =>
    cases h
    exact ⟨e, rfl, rfl⟩
  | ok a => cases h

theorem error_of_bind {x : Except ε α} {next : α → Except ε β} {f : ε}
    (h : (x >>= next) = .error f) : x = .error f ∨ ∃ a, x = .ok a ∧ next a = .error f := by
  cases x with
  | error e =>
    cases h
    exact Or.inl rfl
  | ok a => exact Or.inr ⟨a, rfl, h⟩

end

/-! ## What is read -/

/-- A failure of a named cause, with one of the codes. -/
structure Failure.Among (codes : List Code) (f : Failure) : Prop where
  named : f.cause.Named
  code : f.code ∈ codes

theorem Failure.Among.mono {codes more : List Code} {f : Failure} (h : f.Among codes)
    (hm : codes ⊆ more) : f.Among more :=
  ⟨h.named, hm h.code⟩

/-- The codes of failures to read a file. -/
def readingCodes : List Code := [.ioError, .configInvalidJson]

section
variable {fs : FileSystem} {f : Failure}

theorem among_of_readFile {path : String} (h : Settings.readFile fs path = .error f) :
    f.Among readingCodes := by
  obtain ⟨e, -, rfl⟩ := error_of_mapError h
  exact ⟨trivial, List.mem_cons_self⟩

theorem among_of_read {path : String} (h : Settings.read fs path = .error f) :
    f.Among readingCodes := by
  rcases error_of_bind h with h | ⟨text, -, h⟩
  · exact among_of_readFile h
  · obtain ⟨fault, -, rfl⟩ := error_of_mapError h
    exact ⟨trivial, List.mem_cons_of_mem _ List.mem_cons_self⟩

theorem among_of_load {path home : Option String} {lookup : String → Option String}
    (h : Settings.load fs path home lookup = .error f) : f.Among readingCodes := by
  cases path with
  | none => cases h
  | some path =>
    rcases error_of_bind h with h | ⟨settings, -, h⟩
    · exact among_of_read h
    · cases h

theorem among_of_loadSteps {path : String} (h : loadSteps fs path = .error f) :
    f.Among readingCodes := by
  rcases error_of_bind h with h | ⟨text, -, h⟩
  · exact among_of_readFile h
  · obtain ⟨problem, -, rfl⟩ := error_of_mapError h
    exact ⟨trivial, List.mem_cons_of_mem _ List.mem_cons_self⟩

end

/-! ## Steps of a file -/

/-- What is decoded from a JSON text is decoded from the node that is read. -/
theorem decode_readText {α : Type} {decode : Decoder α} {text : String} {a : α}
    (h : Json.decodeText decode text = .ok a) : decode (Json.readText text).1 = .ok a := by
  unfold Json.decodeText at h
  dsimp only at h
  split at h
  · cases h
  · cases h
  · rename_i hd _
    cases h
    exact hd

theorem node_of_jsonText {α : Type} {decode : Decoder α} {text : String} {a : α}
    (h : Json.decodeText decode text = .ok a) : ∃ node, decode node = .ok a :=
  ⟨_, decode_readText h⟩

/-- What is decoded from a YAML text is decoded from some node. -/
theorem node_of_yamlText {α : Type} {decode : Node → Except String α} {text : String} {a : α}
    (h : Yaml.decodeText decode text = .ok a) : ∃ node, decode node = .ok a := by
  unfold Yaml.decodeText at h
  dsimp only at h
  split at h
  · cases h
  split at h
  -- An empty text stands for `null`; any other has a node to be read first.
  rotate_left
  obtain ⟨_, -, h⟩ := bind_ok h
  all_goals
    obtain ⟨node, -, h⟩ := bind_ok h
    obtain ⟨read, hread, h⟩ := bind_ok h
    refine ⟨node, ?_⟩
    split at h
    · cases h
    · split at h
      · cases h
      · cases h
        exact hread

/-- The steps of a pipeline file are sorted, in whichever language it is written. -/
theorem sorted_of_loadSteps {fs : FileSystem} {path : String} {steps : List Step}
    (h : loadSteps fs path = .ok steps) : ∀ step ∈ steps, step.Sorted := by
  obtain ⟨text, -, h⟩ := bind_ok h
  replace h := mapError_ok h
  unfold readDefinition at h
  split at h
  · obtain ⟨node, hnode⟩ := node_of_yamlText h
    exact sorted_of_definition (mapError_ok hnode)
  · obtain ⟨node, hnode⟩ := node_of_jsonText (mapError_ok h)
    exact sorted_of_definition hnode

namespace Command

/-! ## Refusals -/

/-- The pipeline file that a request names, and the stem of the aliases. -/
def Request.pipeline? : Request → Option (String × Option String)
  | .run file _ stem => some (file, stem)
  | .validate file stem => some (file, stem)
  | .steps _ => none
  | .errors _ => none

/-- The settings that an invocation asks for, as the files have them. -/
def configured (s : Surroundings) (fs : FileSystem) (config : Option String) :
    Except Failure Settings :=
  Settings.load fs (config.map s.expand) s.home s.lookup

/-- The failure of a run that is to work in something other than a directory. -/
def noDirectory (path : String) : Failure :=
  .of (.invalidArgument "work_dir" ("'" ++ path ++ "' is not a directory") none none)

/-- Why an invocation ends with a failure. -/
inductive Refused (s : Surroundings) (fs : FileSystem) : Invocation → Failure → Prop where
  | settings {config : Option String} {request : Request} {f : Failure}
    (hr : ∀ code, request ≠ .errors code) (h : configured s fs config = .error f) :
    Refused s fs ⟨config, request⟩ f
  | pipeline {config : Option String} {request : Request} {settings : Settings} {file : String}
    {stem : Option String} {f : Failure} (hr : request.pipeline? = some (file, stem))
    (hs : configured s fs config = .ok settings) (h : loadSteps fs (s.expand file) = .error f) :
    Refused s fs ⟨config, request⟩ f
  | directory {config : Option String} {settings : Settings} {steps : List Step}
    {file workDir : String} {stem : Option String} (hs : configured s fs config = .ok settings)
    (hl : loadSteps fs (s.expand file) = .ok steps)
    (h : fs.isDirectory (s.expand workDir) = false) :
    Refused s fs ⟨config, .run file workDir stem⟩ (noDirectory (s.expand workDir))
  | aliases {config : Option String} {request : Request} {settings : Settings} {steps : List Step}
    {file : String} {stem : Option String} {f : Failure}
    (hr : request.pipeline? = some (file, stem)) (hs : configured s fs config = .ok settings)
    (hl : loadSteps fs (s.expand file) = .ok steps)
    (hd : ∀ file workDir stem, request = .run file workDir stem →
      fs.isDirectory (s.expand workDir) = true)
    (h : resolveAliases steps (stem.getD settings.aliasStem) = .error f) :
    Refused s fs ⟨config, request⟩ f
  | type {config : Option String} {settings : Settings} {type : String}
    (hs : configured s fs config = .ok settings) (h : type ≠ commitStepType) :
    Refused s fs ⟨config, .steps (some type)⟩ (.of (.stepNotFound type [commitStepType]))
  | code {config : Option String} {name : String} (h : Code.ofName? name = none) :
    Refused s fs ⟨config, .errors (some name)⟩ (unknownCode name)

/-- The codes of the failures that end a command. -/
def refusalCodes : List Code := readingCodes ++ [.invalidArgument, .stepNotFound]

theorem among_of_refused {s : Surroundings} {fs : FileSystem} {invocation : Invocation}
    {f : Failure} (h : Refused s fs invocation f) : f.Among refusalCodes := by
  have hargument : Code.invalidArgument ∈ refusalCodes := by decide
  have htype : Code.stepNotFound ∈ refusalCodes := by decide
  cases h with
  | settings _ h => exact (among_of_load h).mono (List.subset_append_left _ _)
  | pipeline _ _ h => exact (among_of_loadSteps h).mono (List.subset_append_left _ _)
  | directory => exact ⟨trivial, hargument⟩
  | aliases _ _ _ _ h =>
    obtain ⟨problem, rfl⟩ := resolveAliases_error h
    exact ⟨trivial, hargument⟩
  | type => exact ⟨trivial, htype⟩
  | code => exact ⟨trivial, hargument⟩

/-! ## Courses -/

section
variable {ω : Type} [Host ω]

/-- The registry of the built-in step types. -/
def builtIns (settings : Settings) : Registry ω :=
  ⟨[⟨commitStepType, commitStep (Repository.load settings.identity), commitSchemaDocument,
    commitRules.validator⟩]⟩

/-- All that carrying out an invocation can come to, and the world that it leaves. -/
inductive Course (s : Surroundings) (w : ω) : Invocation → Except Failure Outcome → ω → Prop where
  | refused {invocation : Invocation} {f : Failure} (h : Refused s (Filed.files w) invocation f) :
    Course s w invocation (.error f) w
  | ran {config : Option String} {settings : Settings} {steps : List Step} {file workDir : String}
    {stem : Option String} {r : RunReport} {after : ω}
    (hs : configured s (Filed.files w) config = .ok settings)
    (hl : loadSteps (Filed.files w) (s.expand file) = .ok steps)
    (hd : (Filed.files w).isDirectory (s.expand workDir) = true)
    (h : run steps (builtIns settings) ⟨s.expand workDir, stem.getD settings.aliasStem⟩ w =
      (.ok r, after)) :
    Course s w ⟨config, .run file workDir stem⟩ (.ok (.report r, if r.succeeded then 0 else 1)) after
  | planned {config : Option String} {settings : Settings} {steps : List Step} {file : String}
    {stem : Option String} {p : Plan} (hs : configured s (Filed.files w) config = .ok settings)
    (hl : loadSteps (Filed.files w) (s.expand file) = .ok steps)
    (h : plan steps (builtIns settings : Registry ω) (stem.getD settings.aliasStem) = .ok p) :
    Course s w ⟨config, .validate file stem⟩ (.ok (.plan p, if p.isReady then 0 else 2)) w
  | listed {config type : Option String} {settings : Settings}
    (hs : configured s (Filed.files w) config = .ok settings)
    (h : ∀ name, type = some name → name = commitStepType) :
    Course s w ⟨config, .steps type⟩ (.ok (.stepTypes [(commitStepType, commitSchemaDocument)], 0)) w
  | codes {config : Option String} :
    Course s w ⟨config, .errors none⟩ (.ok (.codes Code.all, 0)) w
  | code {config : Option String} {name : String} {code : Code}
    (h : Code.ofName? name = some code) :
    Course s w ⟨config, .errors (some name)⟩ (.ok (.code code, 0)) w

variable {s : Surroundings} {config : Option String} {w : ω}

theorem builtInRegistry_builtIns (settings : Settings) :
    builtInRegistry (Repository.load settings.identity) = .ok (builtIns settings : Registry ω) :=
  rfl

theorem lookup_builtIns (settings : Settings) (type : String) :
    (builtIns settings : Registry ω).lookup type = if type = commitStepType then
        .ok ⟨commitStepType, commitStep (Repository.load settings.identity), commitSchemaDocument,
          commitRules.validator⟩
      else .error (.of (.stepNotFound type [commitStepType])) :=
  Repository.lookup_builtIn (builtInRegistry_builtIns settings) type

theorem settings_eq (s : Surroundings) (config : Option String) (w : ω) :
    settings s config w = (configured s (Filed.files w) config, w) :=
  rfl

theorem pipeline_eq (s : Surroundings) (file : String) (w : ω) :
    pipeline s file w = (loadSteps (Filed.files w) (s.expand file), w) :=
  rfl

theorem registry_eq (settings : Settings) (w : ω) :
    registry settings w = (.ok (builtIns settings), w) :=
  rfl

/-! ### The commands on a pipeline -/

section
variable {file : String} {next : Settings → List Step → Registry ω → Action ω Outcome}

/-- The start that the commands on a pipeline have in common. -/
def prepared (s : Surroundings) (config : Option String) (file : String)
    (next : Settings → List Step → Registry ω → Action ω Outcome) : Action ω Outcome := do
  let settings ← settings s config
  let steps ← pipeline s file
  let r ← registry settings
  next settings steps r

theorem prepared_unsettled {f : Failure} (h : configured s (Filed.files w) config = .error f) :
    prepared s config file next w = (.error f, w) :=
  Action.andThen_error (by rw [settings_eq, h])

theorem prepared_unread {settings : Settings} {f : Failure}
    (hs : configured s (Filed.files w) config = .ok settings)
    (h : loadSteps (Filed.files w) (s.expand file) = .error f) :
    prepared s config file next w = (.error f, w) := by
  unfold prepared
  rw [Action.andThen_ok (by rw [settings_eq, hs])]
  exact Action.andThen_error (by rw [pipeline_eq, h])

theorem prepared_ok {settings : Settings} {steps : List Step}
    (hs : configured s (Filed.files w) config = .ok settings)
    (hl : loadSteps (Filed.files w) (s.expand file) = .ok steps) :
    prepared s config file next w = next settings steps (builtIns settings) w := by
  unfold prepared
  rw [Action.andThen_ok (by rw [settings_eq, hs]), Action.andThen_ok (by rw [pipeline_eq, hl]),
    Action.andThen_ok (registry_eq settings w)]

theorem execute_validate (s : Surroundings) (config : Option String) (file : String)
    (stem : Option String) :
    (execute s ⟨config, .validate file stem⟩ : Action ω Outcome) =
      prepared s config file fun settings steps r => do
        let p ← Action.ofExcept (plan steps r (stem.getD settings.aliasStem))
        return (.plan p, if p.isReady then 0 else 2) :=
  rfl

theorem execute_run (s : Surroundings) (config : Option String) (file workDir : String)
    (stem : Option String) :
    (execute s ⟨config, .run file workDir stem⟩ : Action ω Outcome) =
      prepared s config file fun settings steps r => do
        checkDirectory (s.expand workDir)
        let report ← run steps r ⟨s.expand workDir, stem.getD settings.aliasStem⟩
        return (.report report, if report.succeeded then 0 else 1) :=
  rfl

end

/-! ### What an invocation comes to -/

theorem checkDirectory_ok {path : String} (h : (Filed.files w).isDirectory path = true) :
    checkDirectory path w = (.ok (), w) := by
  rw [checkDirectory, Action.look, if_pos h]

theorem checkDirectory_error {path : String} (h : (Filed.files w).isDirectory path = false) :
    checkDirectory path w = (.error (noDirectory path), w) := by
  rw [checkDirectory, Action.look, if_neg (by rw [h]; exact Bool.false_ne_true)]
  rfl

theorem listTypes_known (settings : Settings) {type : Option String}
    (h : ∀ name, type = some name → name = commitStepType) :
    listTypes (builtIns settings : Registry ω) type =
      .ok (.stepTypes [(commitStepType, commitSchemaDocument)], 0) := by
  cases type with
  | none => rfl
  | some name =>
    rw [h name rfl, listTypes, lookup_builtIns, if_pos rfl]
    rfl

theorem listTypes_unknown {settings : Settings} {type : String} (h : type ≠ commitStepType) :
    listTypes (builtIns settings : Registry ω) (some type) =
      .error (.of (.stepNotFound type [commitStepType])) := by
  rw [listTypes, lookup_builtIns, if_neg h]
  rfl

theorem execute_steps {type : Option String} {settings : Settings}
    (hs : configured s (Filed.files w) config = .ok settings) :
    execute s ⟨config, .steps type⟩ w = (listTypes (builtIns settings : Registry ω) type, w) := by
  refine (Action.andThen_ok (by rw [settings_eq, hs])).trans ?_
  exact Action.andThen_ok (registry_eq settings w)

/-- A command that is refused changes nothing. -/
theorem execute_of_refused {invocation : Invocation} {f : Failure}
    (h : Refused s (Filed.files w) invocation f) : execute s invocation w = (.error f, w) := by
  cases h with
  | @settings config request f hr h =>
    cases request with
    | run => exact prepared_unsettled h
    | validate => exact prepared_unsettled h
    | steps => exact Action.andThen_error (by rw [settings_eq, h])
    | errors code => exact absurd rfl (hr code)
  | @pipeline config request settings file stem f hr hs h =>
    cases request with
    | run =>
      cases hr
      exact prepared_unread hs h
    | validate =>
      cases hr
      exact prepared_unread hs h
    | steps => cases hr
    | errors => cases hr
  | directory hs hl h =>
    rw [execute_run, prepared_ok hs hl]
    exact Action.andThen_error (checkDirectory_error h)
  | @aliases config request settings steps file stem f hr hs hl hd h =>
    cases request with
    | run file workDir stem =>
      cases hr
      rw [execute_run, prepared_ok hs hl, Action.andThen_ok (checkDirectory_ok (hd _ _ _ rfl))]
      refine Action.andThen_error ?_
      unfold run
      rw [h]
    | validate file stem =>
      cases hr
      rw [execute_validate, prepared_ok hs hl]
      refine Action.andThen_error ?_
      rw [plan_eq, h]
      rfl
    | steps => cases hr
    | errors => cases hr
  | type hs h => rw [execute_steps hs, listTypes_unknown h]
  | code h =>
    show Action.ofExcept _ w = _
    rw [explain, h]
    rfl

theorem course_of_refused {invocation : Invocation} {f : Failure}
    (h : Refused s (Filed.files w) invocation f) :
    Course s w invocation (execute s invocation w).1 (execute s invocation w).2 := by
  rw [execute_of_refused h]
  exact .refused h

/-- A command on a pipeline is refused, or has all that it needs. -/
theorem refused_or_ready (s : Surroundings) (fs : FileSystem) (config : Option String)
    {request : Request} {file : String} {stem : Option String}
    (hr : request.pipeline? = some (file, stem)) :
    (∃ f, Refused s fs ⟨config, request⟩ f) ∨
      ∃ settings steps aliases, configured s fs config = .ok settings ∧
        loadSteps fs (s.expand file) = .ok steps ∧
        resolveAliases steps (stem.getD settings.aliasStem) = .ok aliases ∧
        ∀ file workDir stem, request = .run file workDir stem →
          fs.isDirectory (s.expand workDir) = true := by
  cases hs : configured s fs config with
  | error f =>
    refine Or.inl ⟨f, .settings ?_ hs⟩
    rintro code rfl
    cases hr
  | ok settings =>
  cases hl : loadSteps fs (s.expand file) with
  | error f => exact Or.inl ⟨f, .pipeline hr hs hl⟩
  | ok steps =>
  by_cases hd : ∃ file workDir stem, request = .run file workDir stem ∧
      fs.isDirectory (s.expand workDir) = false
  · obtain ⟨file, workDir, stem, rfl, hd⟩ := hd
    cases hr
    exact Or.inl ⟨_, .directory hs hl hd⟩
  have hd' : ∀ file workDir stem, request = .run file workDir stem →
      fs.isDirectory (s.expand workDir) = true := fun file workDir stem h =>
    Bool.of_not_eq_false fun hf => hd ⟨file, workDir, stem, h, hf⟩
  cases ha : resolveAliases steps (stem.getD settings.aliasStem) with
  | error f => exact Or.inl ⟨f, .aliases hr hs hl hd' ha⟩
  | ok aliases => exact Or.inr ⟨settings, steps, aliases, rfl, rfl, ha, hd'⟩

/-- **Courses.** Every command takes one of the courses. -/
theorem execute_course (s : Surroundings) (invocation : Invocation) (w : ω) :
    Course s w invocation (execute s invocation w).1 (execute s invocation w).2 := by
  obtain ⟨config, request⟩ := invocation
  cases request with
  | run file workDir stem =>
    rcases @refused_or_ready s (Filed.files w) config (.run file workDir stem) _ _ rfl with
      ⟨f, h⟩ | ⟨settings, steps, aliases, hs, hl, ha, hd⟩
    · exact course_of_refused h
    have hrun := run_eq steps (builtIns settings)
      ⟨s.expand workDir, stem.getD settings.aliasStem⟩ w
    rw [ha] at hrun
    rw [execute_run, prepared_ok hs hl, Action.andThen_ok (checkDirectory_ok (hd _ _ _ rfl)),
      Action.andThen_ok hrun]
    exact .ran hs hl (hd _ _ _ rfl) hrun
  | validate file stem =>
    rcases @refused_or_ready s (Filed.files w) config (.validate file stem) _ _ rfl with
      ⟨f, h⟩ | ⟨settings, steps, aliases, hs, hl, ha, -⟩
    · exact course_of_refused h
    have hplan := plan_eq steps (builtIns settings : Registry ω) (stem.getD settings.aliasStem)
    rw [ha] at hplan
    rw [execute_validate, prepared_ok hs hl, hplan]
    exact .planned hs hl hplan
  | steps type =>
    cases hs : configured s (Filed.files w) config with
    | error f => exact course_of_refused (.settings nofun hs)
    | ok settings =>
    by_cases ht : ∃ name, type = some name ∧ name ≠ commitStepType
    · obtain ⟨name, rfl, hne⟩ := ht
      exact course_of_refused (.type hs hne)
    · have hname : ∀ name, type = some name → name = commitStepType := fun name h =>
        Classical.byContradiction fun hne => ht ⟨name, h, hne⟩
      rw [execute_steps hs, listTypes_known settings hname]
      exact .listed hs hname
  | errors code =>
    cases code with
    | none => exact .codes
    | some name =>
      cases hc : Code.ofName? name with
      | none => exact course_of_refused (.code hc)
      | some code =>
        have he : execute s ⟨config, .errors (some name)⟩ w = (.ok (.code code, 0), w) := by
          show Action.ofExcept _ w = _
          rw [explain, hc]
          rfl
        rw [he]
        exact .code hc

/-- A command fails exactly if it is refused. -/
theorem execute_error_iff {invocation : Invocation} {f : Failure} :
    (execute s invocation w).1 = .error f ↔ Refused s (Filed.files w) invocation f := by
  constructor
  · intro h
    have hcourse := execute_course s invocation w
    rw [h] at hcourse
    generalize (execute s invocation w).2 = after at hcourse
    cases hcourse with
    | refused h => exact h
  · intro h
    rw [execute_of_refused h]

end
end Command
end StepPipeline

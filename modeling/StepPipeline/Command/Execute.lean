import StepPipeline.Command.Arguments
import StepPipeline.Commit.Repository
import StepPipeline.Commit.Step
import StepPipeline.Failure.Envelope
import StepPipeline.Pipeline.Plan
import StepPipeline.Pipeline.Run
import StepPipeline.Pipeline.Source

/-!
# Carrying out commands

Every command ends with data and an exit code, or with a failure. A run that halted exits with 1,
and a plan that is not ready with 2. The user can always interrupt a run: that this could not be
arranged for is left out.
-/
namespace StepPipeline.Command

/-- The data of a command. -/
inductive Data where
  | report (r : RunReport)
  | plan (p : Plan)
  | stepTypes (types : List (String × Json))
  | codes (all : List Code)
  | code (c : Code)

/-- The data as a document; `writeReport` writes the report on a run. -/
def Data.toJson (writeReport : RunReport → Json) : Data → Json
  | report r => writeReport r
  | plan p => p.toJson
  | stepTypes types => .array (types.map fun (name, schema) =>
      .object [("type", .string name), ("schema", schema)])
  | codes all => .array (all.map Code.summaryJson)
  | code c => c.helpJson

/-- What commands take from their surroundings. -/
structure Surroundings where
  home : Option String
  lookup : String → Option String

def Surroundings.expand (s : Surroundings) (path : String) : String :=
  Path.expandHome s.home path

abbrev Outcome := Data × Int

/-- The failure of a command line that names an unknown code. -/
def unknownCode (name : String) : Failure :=
  (Failure.of (.invalidArgument "code" ("Unknown error code '" ++ name ++ "'") (some name)
    none)).advise "Run 'promoter errors' to list every code"

def explain : Option String → Except Failure Outcome
  | none => .ok (.codes Code.all, 0)
  | some name =>
    match Code.ofName? name with
    | some code => .ok (.code code, 0)
    | none => .error (unknownCode name)

/-- The settings that an invocation asks for. -/
def settings [Filed ω] (s : Surroundings) (config : Option String) : Action ω Settings :=
  .look fun w => Settings.load (Filed.files w) (config.map s.expand) s.home s.lookup

/-- The steps of a pipeline file. -/
def pipeline [Filed ω] (s : Surroundings) (file : String) : Action ω (List Step) :=
  .look fun w => loadSteps (Filed.files w) (s.expand file)

/-- The registry of the built-in step types, with the default identity of the settings. -/
def registry [Host ω] (settings : Settings) : Action ω (Registry ω) :=
  .ofExcept (builtInRegistry (Repository.load settings.identity))

def listTypes [Host ω] (r : Registry ω) : Option String → Except Failure Outcome
  | none => .ok (.stepTypes (r.entries.map fun entry => (entry.name, entry.document)), 0)
  | some type => (r.lookup type).map fun entry => (.stepTypes [(type, entry.document)], 0)

def checkDirectory [Filed ω] (path : String) : Action ω Unit := .look fun w =>
  if (Filed.files w).isDirectory path then .ok ()
  else .error (.of (.invalidArgument "work_dir" ("'" ++ path ++ "' is not a directory") none none))

/-- Carries out an invocation. -/
def execute [Host ω] (s : Surroundings) (invocation : Invocation) : Action ω Outcome := do
  match invocation.request with
  | .errors code => Action.ofExcept (explain code)
  | .steps type => do
    let settings ← settings s invocation.config
    let r : Registry ω ← registry settings
    Action.ofExcept (listTypes r type)
  | .validate file stem => do
    let settings ← settings s invocation.config
    let steps ← pipeline s file
    let r : Registry ω ← registry settings
    let p ← Action.ofExcept (plan steps r (stem.getD settings.aliasStem))
    return (.plan p, if p.isReady then 0 else 2)
  | .run file workDir stem => do
    let settings ← settings s invocation.config
    let steps ← pipeline s file
    let r : Registry ω ← registry settings
    let workDir := s.expand workDir
    checkDirectory workDir
    let report ← StepPipeline.run steps r ⟨workDir, stem.getD settings.aliasStem⟩
    return (.report report, if report.succeeded then 0 else 1)

/-- What a command prints, and its exit code. -/
structure Display where
  stdout : String
  exit : UInt8
  deriving DecidableEq, Repr

def versionText : String := "promoter 0.1.0\n"

def helpText : String :=
  "Usage: promoter [--config FILE] run|validate|steps|errors [ARGUMENTS]\n"

/-- What is printed for a command line that asks for no command. -/
def Stop.display : Stop → Display
  | version => ⟨versionText, 0⟩
  | help => ⟨helpText, 0⟩
  | invalid => ⟨"", 2⟩

/-- What is printed for the outcome of a command. -/
def display (writeReport : RunReport → Json) (outcome : Except Failure Outcome) : Display :=
  let (envelope, exit) := Envelope.ofOutcome (outcome.map fun (data, exit) =>
    (data.toJson writeReport, exit))
  ⟨envelope.pretty ++ "\n", exitOctet exit⟩

/-- Carries out a command line. -/
def answer [Host ω] (s : Surroundings) (writeReport : RunReport → Json) (args : List String)
    (w : ω) : Display × ω :=
  match parse args with
  | .error stop => (stop.display, w)
  | .ok invocation =>
    let (outcome, w) := execute s invocation w
    (display writeReport outcome, w)

end StepPipeline.Command

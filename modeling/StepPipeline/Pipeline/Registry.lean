import StepPipeline.Pipeline.Action
import StepPipeline.Pipeline.Report
import StepPipeline.Schema.Fault

/-!
# Runners and their registry

A runner carries out the steps of one type, by actions on a world `ω`. A registry holds each runner
with the schema that the configurations of its steps must meet, in the order of the type names.
-/
namespace StepPipeline

/-- What one step may see. -/
structure StepContext where
  aliasName : String
  type : String
  workDir : String
  /-- The outputs of the steps before. -/
  state : State
  /-- The configuration, which meets the schema of the step type. -/
  config : Json

/-- What a runner hands back. -/
structure StepResult where
  status : Status
  output : Option Json

def StepResult.succeeded (output : Option Json) : StepResult := ⟨.succeeded, output⟩

abbrev Runner (ω : Type) := StepContext → Action ω StepResult

/-- Reads the configuration of a step as a typed value. -/
def decodeConfig (decode : Document.Decoder α) (stepType : String) (config : Json) :
    Except Failure α :=
  (decode (.ofJson config)).mapError fun fault => .of (.decodeFailed stepType fault.message)

/-- A registered runner. -/
structure Registration (ω : Type) where
  name : String
  runner : Runner ω
  /-- The schema as it was registered. -/
  document : Json
  /-- What the schema asks of a configuration. -/
  validator : Validator

/-- The registered runners, sorted by name. -/
structure Registry (ω : Type) where
  entries : List (Registration ω)

namespace Registry

def empty : Registry ω := ⟨[]⟩

def get? (r : Registry ω) (stepType : String) : Option (Registration ω) :=
  r.entries.find? fun entry => entry.name = stepType

/-- The registered type names. -/
def stepTypes (r : Registry ω) : List String :=
  r.entries.map (·.name)

/-- Puts an entry before the first one with a greater name. -/
def insert (entry : Registration ω) : List (Registration ω) → List (Registration ω)
  | [] => [entry]
  | e :: rest => if entry.name < e.name then entry :: e :: rest else e :: insert entry rest

/-- Registers a runner under a name that is not taken, with a document that can be read. -/
def registerBy (read : Reading) (r : Registry ω) (name : String) (runner : Runner ω)
    (document : Json) : Except Failure (Registry ω) :=
  match r.get? name with
  | some _ => .error (.of (.stepAlreadyRegistered name))
  | none => do
    let validator ← read.compile name document
    return ⟨insert ⟨name, runner, document, validator⟩ r.entries⟩

def register (r : Registry ω) (name : String) (runner : Runner ω) (document : Json) :
    Except Failure (Registry ω) :=
  registerBy .own r name runner document

def lookup (r : Registry ω) (stepType : String) : Except Failure (Registration ω) :=
  match r.get? stepType with
  | some entry => .ok entry
  | none => .error (.of (.stepNotFound stepType r.stepTypes))

/-- Makes a registry the one of the process; the first one stays. Returns the installed registry
and what is installed afterwards. -/
def install (r : Registry ω) :
    Option (Registry ω) → Except Failure (Registry ω) × Option (Registry ω)
  | none => (.ok r, some r)
  | some first =>
    (.error (.of (.unexpected "step registry is already installed")), some first)

end Registry

/-- Fails if the configuration violates the schema of the entry. -/
def Registration.validate (entry : Registration ω) (stepType : String) (config : Json) :
    Except Failure Unit :=
  Schema.validate entry.validator stepType config

end StepPipeline

import StepPipeline.Json.Reader
import StepPipeline.Pipeline.Step
import StepPipeline.SettingsFile
import StepPipeline.Yaml.Reader

/-!
# Pipeline definitions and their files

A pipeline definition is a list of steps, or an object with such a list under `steps`. A definition
is read to its end before it is decoded, so faults of the text come before any mismatch. A pipeline
file holds a definition, in YAML if its extension says so and in JSON otherwise.
-/
namespace StepPipeline

open Document (Decoder Record Node Fault)

/-- The fault of a document that is no pipeline definition. -/
def noDefinition : Fault :=
  ⟨.malformed "data did not match any variant of untagged enum PipelineDefinition", none⟩

def wrappedSteps : Record (List Step) where
  title := "struct variant PipelineDefinition::Wrapped"
  start := []
  fields := [.of "steps" .required Step.decodeList fun steps _ => steps]

/-- The steps of a definition that has been read to its end. -/
def definedSteps (node : Node) : Except Fault (List Step) :=
  let steps := match node with
    | .mapping .. => wrappedSteps.decode node
    | node => Step.decodeList node
  match steps with
  | .ok steps => .ok steps
  | .error _ => .error noDefinition

def decodeDefinition : Decoder (List Step) := fun node => do
  node.check
  definedSteps node

/-! ## Files -/

def isYaml (path : String) : Bool :=
  match Path.extension? path with
  | some extension => extension = "yaml" || extension = "yml"
  | none => false

/-- The steps that a text defines, or what is wrong with it. -/
def readDefinition (yaml : Bool) (text : String) : Except String (List Step) :=
  if yaml then
    Yaml.decodeText (fun node => (decodeDefinition node).mapError (·.message)) text
  else (Json.decodeText decodeDefinition text).mapError (·.message)

/-- The steps of a pipeline file. -/
def loadSteps (fs : FileSystem) (path : String) : Except Failure (List Step) := do
  let text ← Settings.readFile fs path
  (readDefinition (isYaml path) text).mapError fun error => .of (.invalidJson path error)

end StepPipeline

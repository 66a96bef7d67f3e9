import StepPipeline.Failure.Code

/-!
# Help on failure codes

What each code means, what its details hold, and what to do about it.
-/
namespace StepPipeline

/-- The help on a code. -/
structure Help where
  summary : String
  /-- The parts of the details and their types, sorted by name. -/
  details : List (String × String)
  hint : String

def Code.help : Code → Help
  | configInvalidJson =>
    ⟨"Configuration or pipeline file could not be parsed",
      [("error", "string"), ("path", "string")],
      "Fix the JSON/YAML syntax in the referenced file"⟩
  | configInvalidValue =>
    ⟨"Configuration value is invalid",
      [("key", "string"), ("problem", "string"), ("value", "string?")],
      "Correct the config value to match the expected type/format"⟩
  | configSchemaViolation =>
    ⟨"Step configuration does not match the step type's schema",
      [("stepType", "string"), ("violations", "\x7binstancePath,message\x7d[]")],
      "Run 'promoter steps' to see the schema for each step type"⟩
  | configDecodeFailed =>
    ⟨"Step configuration could not be converted into the step's typed config",
      [("error", "string"), ("stepType", "string")],
      "Check field types in the step config against the step's schema"⟩
  | invalidArgument =>
    ⟨"Invalid argument or pipeline definition",
      [("field", "string"), ("id", "string?"), ("problem", "string"), ("tried", "string[]?")],
      "Verify the argument value and try again"⟩
  | stepNotFound =>
    ⟨"No runner is registered for the step type",
      [("registered", "string[]"), ("stepType", "string")],
      "Run 'promoter steps' and verify the step type name"⟩
  | stepAlreadyRegistered =>
    ⟨"A step type name was registered twice",
      [("stepType", "string")],
      "Give each step runner a unique name"⟩
  | stateAliasExists =>
    ⟨"A step alias already has output in the shared state",
      [("alias", "string")],
      "Give every step in a pipeline a unique alias"⟩
  | stateTypeMismatch =>
    ⟨"A previous step's output has an unexpected shape",
      [("alias", "string"), ("expected", "string"), ("field", "string?"), ("found", "string")],
      "Check the output of the referenced step"⟩
  | pathEscape =>
    ⟨"A configured path resolves outside the working directory",
      [("path", "string"), ("root", "string")],
      "Use a relative path that stays inside the working directory"⟩
  | runCancelled =>
    ⟨"The pipeline run was cancelled",
      [("context", "string")],
      "Re-run the pipeline; completed steps are safe to run again"⟩
  | gitCommandFailed =>
    ⟨"A git operation on the working tree failed",
      [("error", "string"), ("operation", "string"), ("path", "string?")],
      "Inspect error.details for the underlying git output"⟩
  | ioError =>
    ⟨"Filesystem or process IO failed",
      [("context", "string?"), ("error", "string")],
      "Check file permissions and that required binaries are installed"⟩
  | jsonError =>
    ⟨"Internal JSON serialization failed",
      [("context", "string?"), ("error", "string")],
      "Report a bug with the failing command"⟩
  | unexpected =>
    ⟨"Unexpected internal error",
      [("error", "string")],
      "Report a bug with the failing command"⟩

/-- A hint as a document. -/
def Json.hint (message : String) : Json :=
  .object [("message", .string message)]

namespace Code

/-- The line of a code in the list of all codes. -/
def summaryJson (code : Code) : Json :=
  .object [("code", .string code.name), ("summary", .string code.help.summary)]

/-- The whole help on a code. -/
def helpJson (code : Code) : Json :=
  .object [("code", .string code.name), ("summary", .string code.help.summary),
    ("detailsSchema", .object (code.help.details.map fun (name, type) => (name, .string type))),
    ("hints", .array [.hint code.help.hint])]

end Code
end StepPipeline

import StepPipeline.Failure.Code

/-!
# Failures

A failure is a cause, the operations during which it arose, and advice collected on the way. Code,
message, details, hints and whether a retry can help all follow from these.
-/
namespace StepPipeline

/-- A place in a configuration that its schema does not allow. -/
structure Violation where
  /-- A pointer into the configuration, empty at the root. -/
  instancePath : String
  message : String
  deriving DecidableEq, Repr

inductive Cause where
  | invalidArgument (field problem : String) (id : Option String) (tried : Option (List String))
  | invalidJson (path error : String)
  | invalidValue (key : String) (value : Option String) (problem : String)
  | schemaViolation (stepType : String) (violations : List Violation)
  | decodeFailed (stepType error : String)
  | stepNotFound (stepType : String) (registered : List String)
  | stepAlreadyRegistered (stepType : String)
  | aliasExists (aliasName : String)
  | typeMismatch (aliasName : String) (field : Option String) (expected found : String)
  | pathEscape (root path : String)
  | cancelled (during : String)
  | gitFailed (operation : String) (path : Option String) (error : String)
  | io (error : String) (during : Option String)
  | json (error : String) (during : Option String)
  | unexpected (error : String)
  /-- Any other cause, all of which is told by whoever fails. -/
  | other (code : Code) (message : String) (details : Json) (hints : List String)
      (retryable : Option Bool)
  deriving Repr

/-- The cause is one of those that have a name. -/
def Cause.Named : Cause → Prop
  | other .. => False
  | _ => True

/-- A violation in the summary of all violations. -/
def Violation.summary (v : Violation) : String :=
  if v.instancePath = "" then v.message else v.instancePath ++ ": " ++ v.message

def Violation.toJson (v : Violation) : Json :=
  .object [("instancePath", .string v.instancePath), ("message", .string v.message)]

namespace Cause

def code : Cause → Code
  | invalidArgument .. => .invalidArgument
  | invalidJson .. => .configInvalidJson
  | invalidValue .. => .configInvalidValue
  | schemaViolation .. => .configSchemaViolation
  | decodeFailed .. => .configDecodeFailed
  | stepNotFound .. => .stepNotFound
  | stepAlreadyRegistered _ => .stepAlreadyRegistered
  | aliasExists _ => .stateAliasExists
  | typeMismatch .. => .stateTypeMismatch
  | pathEscape .. => .pathEscape
  | cancelled _ => .runCancelled
  | gitFailed .. => .gitCommandFailed
  | io .. => .ioError
  | json .. => .jsonError
  | unexpected _ => .unexpected
  | other code .. => code

def message : Cause → String
  | invalidArgument _ problem _ _ => "Invalid argument: " ++ problem
  | invalidJson path error => "Invalid configuration in " ++ path ++ ": " ++ error
  | invalidValue _ _ problem => "Invalid configuration value: " ++ problem
  | schemaViolation stepType violations =>
    "invalid " ++ stepType ++ " config: " ++ "; ".intercalate (violations.map Violation.summary)
  | decodeFailed stepType error =>
    "could not convert config into " ++ stepType ++ " config: " ++ error
  | stepNotFound stepType _ => "no runner registered for step type '" ++ stepType ++ "'"
  | stepAlreadyRegistered stepType => "step type '" ++ stepType ++ "' is already registered"
  | aliasExists aliasName => "shared state already holds output for alias '" ++ aliasName ++ "'"
  | typeMismatch aliasName (some field) expected found =>
    "field '" ++ field ++ "' in output from step with alias '" ++ aliasName ++ "' is " ++ found
      ++ ", expected " ++ expected
  | typeMismatch aliasName none expected found =>
    "output from step with alias '" ++ aliasName ++ "' is " ++ found ++ ", expected " ++ expected
  | pathEscape root path => "path '" ++ path ++ "' escapes sandbox root '" ++ root ++ "'"
  | cancelled during => "run cancelled during " ++ during
  | gitFailed operation _ error => operation ++ " failed: " ++ error
  | io error (some during) => "IO error (" ++ during ++ "): " ++ error
  | io error none => "IO error: " ++ error
  | json error _ => "JSON error: " ++ error
  | unexpected error => "Unexpected error: " ++ error
  | other _ message .. => message

/-- The parts of the cause, sorted by name; parts that are absent are left out. Another cause has
the details that are told. -/
def details : Cause → Json
  | invalidArgument field problem id tried =>
    .object ([("field", .string field)] ++ Json.optional "id" (id.map .string)
      ++ [("problem", .string problem)] ++ Json.optional "tried" (tried.map .strings))
  | invalidJson path error => .object [("error", .string error), ("path", .string path)]
  | invalidValue key value problem =>
    .object ([("key", .string key), ("problem", .string problem)]
      ++ Json.optional "value" (value.map .string))
  | schemaViolation stepType violations =>
    .object [("stepType", .string stepType),
      ("violations", .array (violations.map Violation.toJson))]
  | decodeFailed stepType error =>
    .object [("error", .string error), ("stepType", .string stepType)]
  | stepNotFound stepType registered =>
    .object [("registered", .strings registered), ("stepType", .string stepType)]
  | stepAlreadyRegistered stepType => .object [("stepType", .string stepType)]
  | aliasExists aliasName => .object [("alias", .string aliasName)]
  | typeMismatch aliasName field expected found =>
    .object ([("alias", .string aliasName), ("expected", .string expected)]
      ++ Json.optional "field" (field.map .string) ++ [("found", .string found)])
  | pathEscape root path => .object [("path", .string path), ("root", .string root)]
  | cancelled during => .object [("context", .string during)]
  | gitFailed operation path error =>
    .object ([("error", .string error), ("operation", .string operation)]
      ++ Json.optional "path" (path.map .string))
  | io error during | json error during =>
    .object (Json.optional "context" (during.map .string) ++ [("error", .string error)])
  | unexpected error => .object [("error", .string error)]
  | other _ _ details .. => details

/-- The hints that the cause itself gives. -/
def hints : Cause → List String
  | stepNotFound .. => ["Run 'promoter steps' to see registered step types"]
  | pathEscape .. => ["Configured paths must stay inside the pipeline working directory"]
  | other _ _ _ hints _ => hints
  | _ => []

/-- Whether a retry can help, where that is known. -/
def retryable : Cause → Option Bool
  | schemaViolation .. | decodeFailed .. | typeMismatch .. | pathEscape .. => some false
  | other _ _ _ _ retryable => retryable
  | _ => none

end Cause

structure Failure where
  cause : Cause
  /-- The operations that failed, the outermost first. -/
  during : List String
  /-- Hints beyond those of the cause. -/
  advice : List String
  deriving Repr

namespace Failure

def of (cause : Cause) : Failure := ⟨cause, [], []⟩

def code (f : Failure) : Code := f.cause.code

/-- The operations and the message of the cause, divided by colons. -/
def message (f : Failure) : String :=
  f.during.foldr (fun operation text => operation ++ ": " ++ text) f.cause.message

def details (f : Failure) : Json := f.cause.details

def hints (f : Failure) : List String := f.cause.hints ++ f.advice

def retryable (f : Failure) : Option Bool := f.cause.retryable

/-- The failure as one of an operation. -/
def within (f : Failure) (operation : String) : Failure :=
  { f with during := operation :: f.during }

/-- The failure with one more hint. -/
def advise (f : Failure) (hint : String) : Failure :=
  { f with advice := f.advice ++ [hint] }

@[simp] theorem message_within (f : Failure) (operation : String) :
    (f.within operation).message = operation ++ ": " ++ f.message := rfl

@[simp] theorem hints_advise (f : Failure) (hint : String) :
    (f.advise hint).hints = f.hints ++ [hint] := by
  simp [hints, advise]

end Failure
end StepPipeline

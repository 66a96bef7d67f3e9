import StepPipeline.Json.Basic

/-!
# Failure codes

Every failure has a code. The code names the failure to programs, and fixes its kind and the exit
code of the command that ends with it.
-/
namespace StepPipeline

inductive Code where
  | configInvalidJson
  | configInvalidValue
  | configSchemaViolation
  | configDecodeFailed
  | invalidArgument
  | stepNotFound
  | stepAlreadyRegistered
  | stateAliasExists
  | stateTypeMismatch
  | pathEscape
  | runCancelled
  | gitCommandFailed
  | ioError
  | jsonError
  | unexpected
  deriving DecidableEq, Repr, Inhabited

/-- Classes of failures that a controller can act on. -/
inductive Kind where
  | configurationInvalid
  | pathEscape
  | typeMismatch
  | underlyingOperationFailed
  | engine
  deriving DecidableEq, Repr

def Kind.name : Kind → String
  | configurationInvalid => "configuration_invalid"
  | pathEscape => "path_escape"
  | typeMismatch => "type_mismatch"
  | underlyingOperationFailed => "underlying_operation_failed"
  | engine => "engine"

namespace Code

/-- The codes in the order in which they are listed. -/
def all : List Code :=
  [configInvalidJson, configInvalidValue, configSchemaViolation, configDecodeFailed,
    invalidArgument, stepNotFound, stepAlreadyRegistered, stateAliasExists, stateTypeMismatch,
    pathEscape, runCancelled, gitCommandFailed, ioError, jsonError, unexpected]

def name : Code → String
  | configInvalidJson => "config.invalid_json"
  | configInvalidValue => "config.invalid_value"
  | configSchemaViolation => "config.schema_violation"
  | configDecodeFailed => "config.decode_failed"
  | invalidArgument => "validation.invalid_argument"
  | stepNotFound => "step.not_found"
  | stepAlreadyRegistered => "step.already_registered"
  | stateAliasExists => "state.alias_exists"
  | stateTypeMismatch => "state.type_mismatch"
  | pathEscape => "sandbox.path_escape"
  | runCancelled => "run.cancelled"
  | gitCommandFailed => "git.command_failed"
  | ioError => "internal.io_error"
  | jsonError => "internal.json_error"
  | unexpected => "internal.unexpected"

/-- The code with a name. -/
def ofName? (name : String) : Option Code :=
  all.find? fun code => code.name = name

def kind : Code → Kind
  | configSchemaViolation | configDecodeFailed => .configurationInvalid
  | pathEscape => .pathEscape
  | stateTypeMismatch => .typeMismatch
  | gitCommandFailed | ioError => .underlyingOperationFailed
  | _ => .engine

/-- The exit code of a command that fails with the code: 2 for bad input, 3 for a path outside the
working directory, 4 for step types, 5 for shared state, 20 for git, 130 for a cancelled run, and 1
for anything internal. -/
def exitCode : Code → Nat
  | configInvalidJson | configInvalidValue | configSchemaViolation | configDecodeFailed
  | invalidArgument => 2
  | pathEscape => 3
  | stepNotFound | stepAlreadyRegistered => 4
  | stateAliasExists | stateTypeMismatch => 5
  | gitCommandFailed => 20
  | runCancelled => 130
  | ioError | jsonError | unexpected => 1

theorem mem_all (code : Code) : code ∈ all := by
  cases code <;> decide

end Code
end StepPipeline

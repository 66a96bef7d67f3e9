import StepPipeline.Failure.Basic
import StepPipeline.Json.Basic

/-!
# Scripted failures

A document can describe a failure: its cause by name and parts, and what was added on the way. Such
failures are for rehearsals only; the program itself has no part in them.
-/
namespace StepPipeline.Rehearsal

/-- The text of a field, empty if there is none. -/
def textOf (spec : Json) (key : String) : String :=
  match spec.field? key with
  | some (.string s) => s
  | _ => ""

/-- The text of a field, if there is one. -/
def textOf? (spec : Json) (key : String) : Option String :=
  match spec.field? key with
  | some (.string s) => some s
  | _ => none

/-- The items of a field, none if there is no list. -/
def listOf (spec : Json) (key : String) : List Json :=
  match spec.field? key with
  | some (.array items) => items
  | _ => []

/-- Whether a field is set. -/
def flagOf (spec : Json) (key : String) : Bool :=
  match spec.field? key with
  | some (.bool b) => b
  | _ => false

def textOfItem : Json → String
  | .string s => s
  | _ => ""

def textsOf (spec : Json) (key : String) : List String :=
  (listOf spec key).map textOfItem

/-- The cause that a document describes. -/
def causeOf (spec : Json) : Cause :=
  let text := textOf spec
  let text? := textOf? spec
  match text "ctor" with
  | "validation_invalid_argument" =>
    .invalidArgument (text "field") (text "problem") (text? "id")
      (match spec.field? "tried" with
        | some (.array items) => some (items.map textOfItem)
        | _ => none)
  | "config_invalid_json" => .invalidJson (text "path") (text "error")
  | "config_invalid_value" => .invalidValue (text "key") (text? "value") (text "problem")
  | "config_schema_violation" =>
    .schemaViolation (text "step_type") ((listOf spec "violations").map fun v =>
      ⟨textOf v "instancePath", textOf v "message"⟩)
  | "config_decode_failed" => .decodeFailed (text "step_type") (text "error")
  | "step_not_found" => .stepNotFound (text "step_type") (textsOf spec "registered")
  | "step_already_registered" => .stepAlreadyRegistered (text "step_type")
  | "state_alias_exists" => .aliasExists (text "alias")
  | "state_type_mismatch" =>
    .typeMismatch (text "alias") (text? "field") (text "expected") (text "found")
  | "sandbox_path_escape" => .pathEscape (text "root") (text "path")
  | "run_cancelled" => .cancelled (text "context")
  | "git_command_failed" => .gitFailed (text "operation") (text? "path") (text "error")
  | "internal_io" => .io (text "error") (text? "context")
  | "internal_json" => .json (text "error") (text? "context")
  | _ => .unexpected (text "error")

/-- The failure that a document describes. -/
def failureOf (spec : Json) : Failure :=
  (listOf spec "chain").foldl
    (fun f link =>
      match textOf? link "context", textOf? link "hint" with
      | some operation, _ => f.within operation
      | none, some hint => f.advise hint
      | none, none => f)
    (.of (causeOf spec))

end StepPipeline.Rehearsal

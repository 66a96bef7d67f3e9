import StepPipeline.Schema.Basic

/-!
# The schema of the commit step
-/
namespace StepPipeline

/-- The name of the commit step's type. -/
def commitStepType : String := "git-commit"

/-- The schema document of the commit step. -/
def commitSchemaDocument : Json :=
  .object [
    ("$schema", .string "https://json-schema.org/draft/2020-12/schema"),
    ("additionalProperties", .bool false),
    ("properties", .object [
      ("author", .object [
        ("additionalProperties", .bool false),
        ("description",
          .string "Author override. Unset fields fall back to the default identity."),
        ("properties", .object [
          ("email", .object [("format", .string "email"), ("type", .string "string")]),
          ("name", .object [("type", .string "string")])]),
        ("type", .string "object")]),
      ("message", .object [
        ("description", .string "Commit message. Takes precedence over messageFromSteps."),
        ("minLength", .int 1),
        ("type", .string "string")]),
      ("messageFromSteps", .object [
        ("description", .string ("Aliases of earlier steps whose commitMessage output is combined "
          ++ "into the commit message.")),
        ("items", .object [("minLength", .int 1), ("type", .string "string")]),
        ("type", .string "array")]),
      ("path", .object [
        ("description",
          .string "Path to a working tree, relative to the pipeline working directory."),
        ("minLength", .int 1),
        ("type", .string "string")])]),
    ("required", .array [.string "path"]),
    ("title", .string "GitCommitConfig"),
    ("type", .string "object")]

end StepPipeline

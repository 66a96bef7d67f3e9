import StepPipeline.Commit.Step
import StepPipeline.Pipeline.Run
import StepPipeline.Rehearsal.Script

/-!
# A stage for rehearsals

A stage stands in for the world of a run: a working tree that records what is asked of it, and
runners that do what their configuration says. Rehearsals are for trying the engine out; the program
itself has no part in them, and nothing that is said of it rests on them but the examples.
-/
namespace StepPipeline.Rehearsal

structure Stage where
  files : FileSystem
  cancelled : Bool
  /-- Whether the tree has something to commit. -/
  dirty : Bool
  /-- The operations on the tree that fail, and how. -/
  failing : List (String × Failure)
  /-- The operation that cancels the run. -/
  cancelOn : Option String
  commits : Nat
  /-- What was asked of the tree, in order. -/
  events : List Event

instance : Cancellable Stage where
  cancelled := Stage.cancelled

instance : Filed Stage := ⟨Stage.files⟩

namespace Stage

/-- Records an event, cancels the run if the script says so, and fails if it does. -/
def play (event : Event) : Action Stage Unit := fun s =>
  let s := { s with
    events := s.events ++ [event],
    cancelled := s.cancelled || s.cancelOn = some event.operation }
  match s.failing.lookup event.operation with
  | some f => (.error f, s)
  | none => (.ok (), s)

def recordingTree (path : String) : WorkTree Stage where
  path := path
  addAll := play .addAll
  hasDiffs := do
    play .hasDiffs
    Action.look fun s => .ok s.dirty
  commit message author := do
    play (.commit message author)
    fun s => (.ok (), { s with dirty := false, commits := s.commits + 1 })
  lastCommitId := do
    play .lastCommitId
    Action.look fun s => .ok ("c" ++ toString s.commits)

/-- Opens the one tree of the stage, wherever it is asked for. -/
def load : Loader Stage := fun root path => do
  play (.load root path)
  return recordingTree path

/-- Cancels the run. -/
def cancel : Action Stage Unit := fun s => (.ok (), { s with cancelled := true })

/-- The runner of a kind. Its configuration may bring the output, and the failure if it fails. -/
def runner (kind : String) : Runner Stage := fun ctx => do
  let output := ctx.config.field? "output"
  let failure := match ctx.config.field? "error" with
    | some .null | none => none
    | some spec => some (failureOf spec)
  match kind with
  | "fail" => Action.fail (failureOf ((ctx.config.field? "error").getD .null))
  | "errored" => return ⟨.errored, output⟩
  | "touch" => fun s => (.ok (.succeeded none), { s with dirty := true })
  | "copy" =>
    let key := (textOf? ctx.config "key").getD "value"
    let text ← Action.ofExcept (ctx.state.text (textOf ctx.config "from") key)
    return .succeeded (some (.object [("value", .ofOption text)]))
  | "cancel" =>
    cancel
    match failure with
    | some f => Action.fail f
    | none => return .succeeded output
  | "decode" =>
    let config ← Action.ofExcept (decodeConfig CommitConfig.decode ctx.type ctx.config)
    return .succeeded (some config.toJson)
  | "inspect" => fun s => (.ok (.succeeded (some (.object [
      ("alias", .string ctx.aliasName), ("type", .string ctx.type),
      ("work_dir", .string ctx.workDir),
      ("state", .strings ctx.state.aliases), ("config", ctx.config),
      ("cancelled", .bool s.cancelled)]))), s)
  | _ => return .succeeded output

/-- A runner to be registered: its kind, its name and its schema. -/
structure Part where
  kind : String
  name : String
  schema : Json

/-- The schema of a runner for which none is given. -/
def anyObject : Json := .object [("type", .string "object")]

/-- The runners that are there if none are named. -/
def defaultParts : List Part :=
  ["emit", "fail", "errored", "cancel", "touch", "inspect", "decode"].map (fun kind =>
    ⟨kind, kind, anyObject⟩) ++
  [⟨"copy", "copy", .object [
    ("properties", .object [("from", .object [("type", .string "string")])]),
    ("required", .strings ["from"]), ("type", .string "object")]⟩]

/-- The registry of the commit step, over the recording tree, and of the parts. -/
def registry (parts : List Part) : Except Failure (Registry Stage) := do
  let start ← builtInRegistry load
  parts.foldlM (fun r part => r.register part.name (runner part.kind) part.schema) start

end Stage
end StepPipeline.Rehearsal

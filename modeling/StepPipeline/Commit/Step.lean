import StepPipeline.Commit.Config
import StepPipeline.Commit.Schema
import StepPipeline.Files.Sandbox
import StepPipeline.Pipeline.Registry

/-!
# Working trees and the commit step

The commit step stages everything under a path of the working directory and commits it if there is
a difference. Its output is the id of the last commit, a new one or not. It asks a few things of a
version-controlled working tree, whoever keeps that.
-/
namespace StepPipeline

/-! ## Working trees -/

structure WorkTree (ω : Type) where
  /-- Where the tree lies. -/
  path : String
  /-- Stages every pending change. -/
  addAll : Action ω Unit
  /-- Whether there is anything to commit. -/
  hasDiffs : Action ω Bool
  /-- Commits with a message, and with an author other than the default one if it is given. -/
  commit : (message : String) → (author : Option Identity) → Action ω Unit
  lastCommitId : Action ω String

/-- Opens the working tree at a path; the repository that owns it must lie under the root. -/
abbrev Loader (ω : Type) := (root path : String) → Action ω (WorkTree ω)

/-- What can be asked of a tree, and that it is opened. -/
inductive Event where
  | load (root path : String)
  | addAll
  | hasDiffs
  | commit (message : String) (author : Option Identity)
  | lastCommitId
  deriving DecidableEq, Repr

/-- The name of what is asked. -/
def Event.operation : Event → String
  | load .. => "load"
  | addAll => "add_all"
  | hasDiffs => "has_diffs"
  | commit .. => "commit"
  | lastCommitId => "last_commit_id"

/-! ## The step -/

def commitOutput (id : String) : Json :=
  .object [("commit", .string id)]

/-- Commits what there is to commit in a working tree. -/
def commitChanges (tree : WorkTree ω) (ctx : StepContext) (config : CommitConfig) :
    Action ω StepResult := do
  tree.addAll
  if ← tree.hasDiffs then
    let message ← (Action.ofExcept (commitMessage ctx.state config)).within "build commit message"
    tree.commit message (config.author.filter fun author => !author.isEmpty)
  let id ← tree.lastCommitId
  return .succeeded (some (commitOutput id))

def commitStep [Filed ω] (load : Loader ω) : Runner ω := fun ctx => do
  let config ← Action.ofExcept (decodeConfig CommitConfig.decode ctx.type ctx.config)
  let path ← Action.look fun w => Sandbox.join (Filed.files w) ctx.workDir config.path
  let tree ← (load ctx.workDir path).within ("load working tree '" ++ config.path ++ "'")
  commitChanges tree ctx config

/-- The registry of the built-in step types. -/
def builtInRegistry [Filed ω] (load : Loader ω) : Except Failure (Registry ω) :=
  Registry.empty.register commitStepType (commitStep load) commitSchemaDocument

end StepPipeline

import StepPipeline.Commit.Step
import StepPipeline.Process.Command

/-!
# Working trees kept by git

A working tree is opened only if it lies in a repository, and the repository under the root. Every
command runs in the directory of the tree.
-/
namespace StepPipeline.Repository

/-- Runs git in a directory and fails unless it succeeds. -/
def git [Host ω] (path operation : String) (args : List String) (env : List (String × String)) :
    Action ω Output := do
  let output ← runCommand ⟨path, "git", args, env⟩ operation
  if output.success then return output
  else .fail (.of (.gitFailed operation (some path) (errorText output.stdout output.stderr)))

/-- The output of a command without the blanks around it. -/
def outputText (output : Output) : String :=
  Text.trim (Utf8.decodeLossy output.stdout)

/-- The first text that is not empty. -/
def pick (override default : Option String) : Option String :=
  (nonempty override).or (nonempty default)

/-- A variable with a value, if there is one. -/
def binding (name : String) (value : Option String) : List (String × String) :=
  (value.map fun v => (name, v)).toList

/-- The variables of a commit: the author is the given one, each empty part replaced by that of the
default identity; the committer is the default identity. -/
def identityEnv (default : Identity) (author : Option Identity) : List (String × String) :=
  binding "GIT_AUTHOR_NAME" (pick (author.bind (·.name)) default.name)
    ++ binding "GIT_AUTHOR_EMAIL" (pick (author.bind (·.email)) default.email)
    ++ binding "GIT_COMMITTER_NAME" (nonempty default.name)
    ++ binding "GIT_COMMITTER_EMAIL" (nonempty default.email)

def tree [Host ω] (identity : Identity) (path : String) : WorkTree ω where
  path := path
  addAll := do
    let _ ← git path "git add" ["add", "--all", "."] []
    return ()
  hasDiffs := do
    let output ← git path "git status" ["status", "--porcelain=v1", "--", "."] []
    return !output.stdout.all Text.isBlankByte
  commit message author := do
    let _ ← git path "git commit" ["commit", "--no-verify", "-m", message, "--", "."]
      (identityEnv identity author)
    return ()
  lastCommitId := do
    let output ← git path "git rev-parse" ["rev-parse", "HEAD"] []
    return outputText output

/-- The canonical form of a path, as the names that lead to it. -/
def canonical [Host ω] (path : String) : Action ω (List String) :=
  .look fun w => ((Filed.files w).canonicalize path).mapError fun e =>
    .of (.io e.message (some ("resolve " ++ path)))

def loadOperation : String := "load working tree"

/-- Checks that the working tree at a path may be opened. The repository that owns it is the one
that git finds from there upwards, so that one must lie under the root. -/
def inspect [Host ω] (root path : String) : Action ω Unit := do
  let isDirectory ← Action.look fun w => .ok ((Filed.files w).isDirectory path)
  Action.require isDirectory
    (.of (.gitFailed loadOperation (some path) "directory does not exist"))
  let inside ← git path "git rev-parse" ["rev-parse", "--is-inside-work-tree"] []
  Action.require (outputText inside = "true")
    (.of (.gitFailed loadOperation (some path) "not a git working tree"))
  let top ← git path "git rev-parse" ["rev-parse", "--show-toplevel"] []
  let top ← canonical (outputText top)
  let root ← canonical root
  Action.require (root.isPrefixOf top)
    (((Failure.of (.pathEscape (Path.ofNames root) (Path.ofNames top))).within
      "repository owning the working tree").advise
        "Initialise a repository inside the working directory")

/-- Opens the working tree at a path. -/
def load [Host ω] (identity : Identity) : Loader ω := fun root path => do
  inspect root path
  return tree identity path

end StepPipeline.Repository

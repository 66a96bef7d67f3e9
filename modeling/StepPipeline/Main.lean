import Std.Time.DateTime.Timestamp
import StepPipeline.Command.Execute
import StepPipeline.Files.Layout

/-!
# The program

The program reads what its command line names, carries the command out on that picture of the files,
and prints the outcome. It starts no other programs: a step that needs one fails and says so.
-/
namespace StepPipeline.Terminal

open Command (Surroundings Invocation)

/-- The files that the program has read. -/
structure Picture where
  files : FileSystem

instance : Host Picture where
  cancelled _ := false
  files := Picture.files
  start _ picture := (.refused "no programs can be started here", picture)

/-- What is found at a path, if anything is. A link is taken for what it leads to. -/
def entryAt (path : String) : IO (Option Layout.Entry) := do
  try
    let content ← IO.FS.readBinFile path
    return some (.file path content.toList)
  catch
    | .inappropriateType none .. => return some (.directory path)
    | _ => return none

def pictureOf (directory : List String) (paths : List String) : IO Picture := do
  let entries ← paths.filterMapM entryAt
  return ⟨layOut directory entries⟩

/-- The paths that an invocation reads before it knows the steps. -/
def pathsOf (s : Surroundings) (invocation : Invocation) : List String :=
  let settings := match invocation.config with
    | some path => [s.expand path]
    | none => (Settings.file s.home).toOption.toList
  settings ++ match invocation.request with
    | .run file workDir _ => [s.expand file, s.expand workDir]
    | .validate file _ => [s.expand file]
    | .steps _ | .errors _ => []

/-- The paths that the steps of a run work on. -/
def stepPathsOf (s : Surroundings) (invocation : Invocation) (picture : Picture) : List String :=
  match invocation.request with
  | .run file workDir _ =>
    match (Command.pipeline s file : Action Picture (List Step)) picture with
    | (.ok steps, _) => steps.filterMap fun step =>
      match step.config.lookup "path" with
      | some (.string path) => some (Path.push (s.expand workDir) path)
      | _ => none
    | (.error _, _) => []
  | _ => []

def surroundings : IO Surroundings := do
  let names := [Settings.nameVariable, Settings.emailVariable]
  let found ← names.filterMapM fun name => return (← IO.getEnv name).map fun value => (name, value)
  return ⟨← IO.getEnv "HOME", fun name => found.lookup name⟩

/-- The present instant. -/
def now : IO Instant := do
  let nanos := (← Std.Time.Timestamp.now).toNanosecondsSinceUnixEpoch.val
  return ⟨nanos / 1000000000, (nanos % 1000000000).toNat⟩

def freshIdentity : IO Uuid := do
  let octets ← IO.getRandomBytes 16
  return .random (BitVec.ofNat 128 (octets.toList.foldl (fun n b => n * 256 + b.toNat) 0))

/-- Carries out a command line. -/
def carryOut (args : List String) : IO Command.Display := do
  match Command.parse args with
  | .error stop => return stop.display
  | .ok invocation =>
    let s ← surroundings
    let directory := Layout.namedSteps ((← IO.getEnv "PWD").getD "/")
    let paths := pathsOf s invocation
    let picture ← pictureOf directory paths
    let picture ← pictureOf directory (paths ++ stepPathsOf s invocation picture)
    let identity ← freshIdentity
    let startedAt ← now
    let (outcome, _) := Command.execute s invocation picture
    let finishedAt ← now
    let write report := RunRecord.toJson ⟨identity, report, startedAt, finishedAt⟩
    return Command.display write outcome

end StepPipeline.Terminal

def main (args : List String) : IO UInt32 := do
  let shown ← StepPipeline.Terminal.carryOut args
  IO.print shown.stdout
  return shown.exit.toUInt32

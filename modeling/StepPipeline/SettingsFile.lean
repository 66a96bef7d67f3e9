import StepPipeline.Failure.Basic
import StepPipeline.Files.Tree
import StepPipeline.Settings

/-!
# The settings file

Settings are read from a file that is named explicitly, which must then be there and be valid, or
from the user's own file, which counts only if it is.
-/
namespace StepPipeline.Settings

/-- The directory of the user's settings. -/
def directory (home : Option String) : Except Failure String :=
  match home with
  | some home => .ok (Path.pushAll home [".config", "promoter"])
  | none => .error (.of (.unexpected "HOME environment variable not set"))

/-- The user's settings file. -/
def file (home : Option String) : Except Failure String :=
  (directory home).map (Path.push · "promoter.json")

/-- The text of a file; a failure says that the file was being read. -/
def readFile (fs : FileSystem) (path : String) : Except Failure String :=
  (fs.readText path).mapError fun e => .of (.io e.message (some ("read " ++ path)))

def read (fs : FileSystem) (path : String) : Except Failure Settings := do
  let text ← readFile fs path
  (Json.decodeText decode text).mapError fun fault => .of (.invalidJson path fault.message)

/-- The user's own settings, or the built-in ones. -/
def ofUser (fs : FileSystem) (home : Option String) : Settings :=
  match file home with
  | .error _ => builtIn
  | .ok path =>
    if fs.isPresent path then
      match read fs path with
      | .ok settings => settings
      | .error _ => builtIn
    else builtIn

/-- The settings of a file, or the user's own, as the environment overrides them. -/
def load (fs : FileSystem) (path home : Option String) (lookup : String → Option String) :
    Except Failure Settings := do
  let settings ← match path with
    | some path => read fs path
    | none => pure (ofUser fs home)
  return settings.overriddenBy lookup

end StepPipeline.Settings

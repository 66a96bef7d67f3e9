import StepPipeline.Files.Layout
import StepPipeline.Rehearsal.Script
import StepPipeline.Rehearsal.Shell

/-!
# A workshop for rehearsals

A workshop stands in for the system that programs run on: files, an environment, a git that answers
by a script, and the programs of a small shell. A program that makes a file with a certain name
hangs, and the run is cancelled. As on a stage, programs are tried out there; the program itself has
no part in it.
-/
namespace StepPipeline.Rehearsal

/-- The answer to one call of git. -/
structure Reply where
  stdout : Bytes
  stderr : Bytes
  code : Nat
  hangs : Bool

/-- One call of git, as it was recorded. -/
structure Call where
  directory : String
  args : List String
  env : List (String × String)
  deriving Repr

structure Workshop where
  files : FileSystem
  cancelled : Bool
  /-- The environment that programs start from. -/
  env : List (String × String)
  /-- The answers of git that are left; none if there is no such git. -/
  replies : Option (List Reply)
  calls : List Call
  /-- Making this file cancels the run. -/
  hangMark : List String

namespace Workshop

/-- The variables that are recorded. -/
def recorded : List String :=
  ["GIT_AUTHOR_EMAIL", "GIT_AUTHOR_NAME", "GIT_COMMITTER_EMAIL", "GIT_COMMITTER_NAME"]

/-- Plays one call of git. -/
def playGit (w : Workshop) (replies : List Reply) (directory : List String) (args : List String)
    (env : List (String × String)) : Attempt × Workshop :=
  let reply := replies.headD ⟨[], [], 0, false⟩
  let call : Call := ⟨Path.ofNames directory, args,
    recorded.filterMap fun name => (env.lookup name).map fun value => (name, value)⟩
  let w := { w with replies := some (replies.drop 1), calls := w.calls ++ [call] }
  if reply.hangs then (.interrupted, { w with cancelled := true })
  else (.finished ⟨.exited (reply.code % 256), reply.stdout, reply.stderr⟩, w)

/-- The directories that hold the programs of the shell. -/
def programDirectories : List String := ["/bin/", "/usr/bin/"]

/-- The name of a program that is given by its path or by its name alone. -/
def programName (program : String) : String :=
  (programDirectories.findSome? fun d =>
    if program.startsWith d then some (String.ofList (program.toList.drop d.length)) else none).getD
      program

/-- Why a program that is given by a path cannot be started. -/
def refusal (files : FileSystem) (program : String) : FileError :=
  match files.get program with
  | .ok _ => .permissionDenied
  | .error e => e

/-- Runs a program of the shell in a directory. -/
def playShell (w : Workshop) (directory : List String) (program : String) (args : List String)
    (env : List (String × String)) : Attempt × Workshop :=
  let files := { w.files with current := directory }
  let session : Shell.Session := ⟨files, directory, env, [], [], [], 0, none⟩
  let ended := match programName program, args with
    | "sh", "-c" :: script :: args =>
      some (Shell.run { session with env := Shell.parameters args ++ env } script)
    | "sh", file :: args => some (match session.read? file with
      | some script =>
        let session := { session with env := Shell.parameters (file :: args) ++ env }
        Shell.run session (Utf8.decodeLossy script)
      | none =>
        let complaint := "sh: 0: cannot open " ++ file ++ ": No such file\n"
        { session with stderr := Utf8.encode complaint, code := 2 })
    | name, args => (Shell.program session name args []).map fun (r : Shell.Result) =>
      { session with stdout := r.out, stderr := r.err, code := r.code, ended := r.ended }
  match ended with
  | some s =>
    if s.written.any (·.1 = w.hangMark) then (.interrupted, { w with cancelled := true })
    else (.finished ⟨s.ended.getD (.exited s.code), s.stdout, s.stderr⟩, w)
  | none =>
    let error := if program.toList.contains '/' then refusal files program
      else if FileTree.nameLimit < program.utf8ByteSize then .nameTooLong
      else .notFound
    (.refused error.message, w)

/-- Starts a program. -/
def start (launch : Launch) (w : Workshop) : Attempt × Workshop :=
  let texts := launch.directory :: launch.program :: launch.args
    ++ launch.env.flatMap fun (name, value) => [name, value]
  if texts.any fun s => s.toList.contains '\x00' then
    (.refused "nul byte found in provided data", w)
  else match w.files.resolve launch.directory with
    | .error e => (.refused e.message, w)
    | .ok directory =>
      match w.files.root.at? directory with
      | some (.directory _) =>
        let env := launch.env.reverse ++ w.env
        match launch.program, w.replies with
        | "git", some replies => w.playGit replies directory launch.args env
        | program, _ => w.playShell directory program launch.args env
      | _ => (.refused FileError.notDirectory.message, w)

instance : Host Workshop where
  cancelled := Workshop.cancelled
  files := Workshop.files
  start := start

end Workshop
end StepPipeline.Rehearsal

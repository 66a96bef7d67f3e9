import StepPipeline.Files.Tree
import StepPipeline.Pipeline.Action
import StepPipeline.Text.Blank

/-!
# Commands

Programs are started in a directory and run to their end, unless the run is cancelled meanwhile. How
a program ends is part of its output, not a failure.
-/
namespace StepPipeline

open Cancellable

/-- A program to be started. Variables are added to the environment; of two with one name the later
counts. -/
structure Launch where
  directory : String
  program : String
  args : List String
  env : List (String × String)
  deriving DecidableEq, Repr

inductive ExitStatus where
  | exited (code : Nat)
  | killed (signal : Nat)
  deriving DecidableEq, Repr

structure Output where
  status : ExitStatus
  stdout : Bytes
  stderr : Bytes
  deriving DecidableEq, Repr

def Output.success (o : Output) : Bool := o.status = .exited 0

/-- How an attempt to run a program ends. -/
inductive Attempt where
  | finished (output : Output)
  /-- The program could not be started. -/
  | refused (error : String)
  /-- The run was cancelled while the program ran, and the program was killed. -/
  | interrupted
  /-- The program was started, and then it could not be found out how it goes on. -/
  | lost (error : String)
  deriving DecidableEq, Repr

/-- A world in which programs can be started. -/
class Host (ω : Type) extends Cancellable ω, Filed ω where
  start : Launch → ω → Attempt × ω

/-- What an operation has of an attempt: the output, or the failure that names it. -/
def Attempt.result (attempt : Attempt) (operation : String) : Except Failure Output :=
  match attempt with
  | .finished output => .ok output
  | .refused error =>
    .error (.of (.io ("Failed to run " ++ operation ++ ": " ++ error) (some operation)))
  | .interrupted => .error (.of (.cancelled operation))
  | .lost error =>
    .error (.of (.io ("Failed to wait on " ++ operation ++ ": " ++ error) (some operation)))

/-- Runs a program, for an operation that failures name, unless the run is cancelled. The look at
the run and the start of the program are two moves: a run that is cancelled between them does not
keep the program from being started. -/
def runCommand [Host ω] (launch : Launch) (operation : String) : Action ω Output := fun w =>
  let w := passes w
  if cancelled w then (.error (.of (.cancelled operation)), w)
  else
    let (attempt, w) := Host.start launch (passes w)
    (attempt.result operation, w)

theorem runCommand_of_cancelled [Host ω] {launch : Launch} {operation : String} {w : ω}
    (h : cancelled (passes w) = true) :
    runCommand launch operation w = (.error (.of (.cancelled operation)), passes w) :=
  if_pos h

theorem runCommand_of_start [Host ω] {launch : Launch} {operation : String} {w after : ω}
    {attempt : Attempt} (h : cancelled (passes w) = false)
    (hs : Host.start launch (passes (passes w)) = (attempt, after)) :
    runCommand launch operation w = (attempt.result operation, after) := by
  simp only [runCommand, h, Bool.false_eq_true, if_false, hs]

/-- The error text of a program: what it wrote to its error stream, or else to its output. -/
def errorText (stdout stderr : Bytes) : String :=
  let err := Text.trim (Utf8.decodeLossy stderr)
  if err ≠ "" then err else Text.trim (Utf8.decodeLossy stdout)

end StepPipeline

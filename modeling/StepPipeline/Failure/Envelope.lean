import StepPipeline.Failure.Basic
import StepPipeline.Failure.Help
import StepPipeline.Json.Printer

/-!
# Envelopes

Every command prints one document: its data, or the failure it ended with. Fields that say nothing
are left out: no hints, or nothing known about a retry.
-/
namespace StepPipeline

/-- A failure as a document. -/
def Failure.toJson (f : Failure) : Json :=
  .object ([("code", .string f.code.name), ("message", .string f.message), ("details", f.details)]
    ++ Json.unlessEmpty "hints" (f.hints.map .hint)
    ++ Json.optional "retryable" (f.retryable.map .bool))

/-- What a command prints. -/
inductive Envelope where
  | success (data : Json)
  | failure (f : Failure)

namespace Envelope

def toJson : Envelope → Json
  | success data => .object [("success", .bool true), ("data", data)]
  | failure f => .object [("success", .bool false), ("error", f.toJson)]

/-- The envelope on one line. -/
def compact (e : Envelope) : String := e.toJson.compact

/-- The envelope over several lines. -/
def pretty (e : Envelope) : String := e.toJson.pretty

/-- The envelope and the exit code of an outcome: a command chooses its exit code when it succeeds,
and a failure has that of its code. Data is shown as a value, its objects sorted. -/
def ofOutcome : Except Failure (Json × Int) → Envelope × Int
  | .ok (data, exit) => (success data.canonical, exit)
  | .error f => (failure f, f.code.exitCode)

end Envelope

/-- The exit code as the process gives it: an octet, at the nearest bound if it is out of range. -/
def exitOctet (exit : Int) : UInt8 :=
  (min exit.toNat 255).toUInt8

end StepPipeline

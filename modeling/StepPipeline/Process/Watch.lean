import StepPipeline.Process.Command

/-!
# Watching programs

A program that runs is looked at again and again, until it has ended or the run is found to be
cancelled. Each look asks for the run first, and for the program only if the run goes on; when the
run is cancelled, the program is killed.
-/
namespace StepPipeline

/-- What a program has come to. -/
inductive Found where
  | running
  | ended (output : Output)
  /-- It cannot be asked for. -/
  | lost (error : String)
  deriving DecidableEq, Repr

/-- What there is to be found at one look. -/
structure Look where
  /-- Whether the run is cancelled by then. -/
  cancelled : Bool
  found : Found
  deriving DecidableEq, Repr

/-- What looks come to, if they come to an end. -/
def watch : List Look → Option Attempt
  | [] => none
  | look :: rest =>
    if look.cancelled then some .interrupted
    else match look.found with
      | .running => watch rest
      | .ended output => some (.finished output)
      | .lost error => some (.lost error)

/-- The looks at a program, up to the end of the watch. -/
structure Watch where
  looks : List Look
  decided : (watch looks).isSome

def Watch.attempt (seen : Watch) : Attempt :=
  (watch seen.looks).get seen.decided

/-- The run is cancelled by the first look. -/
def Watch.AtOnce (seen : Watch) : Prop :=
  ∃ look rest, seen.looks = look :: rest ∧ look.cancelled = true

/-- A world in which programs are started and watched. Nothing undoes a cancellation: a run that is
cancelled when a program is started is found so at the first look at it, and a run that is found
cancelled is cancelled behind the program. -/
class Watched (ω : Type) extends Cancellable ω, Filed ω where
  /-- Starts a program: why that is not possible, or what the looks at it find. -/
  spawn : Launch → ω → Except String Watch × ω
  refused_stays : ∀ {launch w problem w'}, spawn launch w = (.error problem, w') →
    cancelled w = true → cancelled w' = true
  atOnce : ∀ {launch w seen w'}, spawn launch w = (.ok seen, w') →
    cancelled w = true → seen.AtOnce
  interrupted_stays : ∀ {launch w seen w'}, spawn launch w = (.ok seen, w') →
    seen.attempt = .interrupted → cancelled w' = true

instance [Watched ω] : Host ω where
  start launch w :=
    match Watched.spawn launch w with
    | (.error problem, w) => (.refused problem, w)
    | (.ok seen, w) => (seen.attempt, w)

end StepPipeline

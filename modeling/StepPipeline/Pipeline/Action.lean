import StepPipeline.Failure.Basic

/-!
# Actions

An action changes a world and either fails or has a result. A failed action keeps its effects, and
no later action of a sequence runs.
-/
namespace StepPipeline

def Action (ω α : Type) := ω → Except Failure α × ω

namespace Action

def fail (f : Failure) : Action ω α := fun w => (.error f, w)

def ofExcept (result : Except Failure α) : Action ω α := fun w => (result, w)

/-- Fails unless the condition holds. -/
def require (holds : Bool) (f : Failure) : Action ω Unit := fun w =>
  if holds then (.ok (), w) else (.error f, w)

/-- What a world shows. -/
def look (view : ω → Except Failure α) : Action ω α := fun w => (view w, w)

def andThen (first : Action ω α) (next : α → Action ω β) : Action ω β := fun w =>
  match first w with
  | (.ok a, w) => next a w
  | (.error f, w) => (.error f, w)

instance : Monad (Action ω) where
  pure a := fun w => (.ok a, w)
  bind := andThen

/-- The action, its failure being one of `operation`. -/
def within (action : Action ω α) (operation : String) : Action ω α := fun w =>
  let (result, w) := action w
  (result.mapError (·.within operation), w)

theorem andThen_ok {first : Action ω α} {next : α → Action ω β} {w w' : ω} {a : α}
    (h : first w = (.ok a, w')) : (first >>= next) w = next a w' := by
  simp [bind, andThen, h]

theorem andThen_error {first : Action ω α} {next : α → Action ω β} {w w' : ω} {f : Failure}
    (h : first w = (.error f, w')) : (first >>= next) w = (.error f, w') := by
  simp [bind, andThen, h]

theorem within_ok {action : Action ω α} {operation : String} {w w' : ω} {a : α}
    (h : action w = (.ok a, w')) : action.within operation w = (.ok a, w') := by
  rw [within, h]
  rfl

theorem within_error {action : Action ω α} {operation : String} {w w' : ω} {f : Failure}
    (h : action w = (.error f, w')) :
    action.within operation w = (.error (f.within operation), w') := by
  rw [within, h]
  rfl

end Action

/-- A world in which a run can be cancelled. It does not wait for the program: others go on between
two moves of it, and cancel the run then. A world may hold whatever decides what they do, so that a
function tells all courses there are; but nothing undoes a cancellation. -/
class Cancellable (ω : Type) where
  cancelled : ω → Bool
  /-- What a world has become by the next move of the program. -/
  passes : ω → ω := id
  stays : ∀ w, cancelled w = true → cancelled (passes w) = true := by intro w h; exact h

end StepPipeline

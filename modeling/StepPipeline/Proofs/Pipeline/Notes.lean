import StepPipeline.Files.Tree
import StepPipeline.Pipeline.Action

/-!
# Worlds with notes

What an action returns and what it leaves in the world does not tell what it did on the way. To see
that, an action is carried out in a world that keeps notes beside what it was, by parts that note
what is asked of them.

**Shadows (`Shadows plain noting w T`).** Started in `w`, `noting` does what `plain` does, and adds
notes; of these, the result and the world that is left, `T` holds. So one statement says that taking
notes changes nothing, and what the notes tell. The combinators of actions keep it (`Shadows.bind`):
it is shown for the parts that take notes, and follows for whatever is made of them.
-/
namespace StepPipeline

/-- A world with what has been noted in it. -/
structure Noted (ω ν : Type) where
  world : ω
  notes : List ν

variable {ω ν α β : Type}

instance [Cancellable ω] : Cancellable (Noted ω ν) where
  cancelled s := Cancellable.cancelled s.world
  passes s := ⟨Cancellable.passes s.world, s.notes⟩
  stays s := Cancellable.stays s.world

instance [Filed ω] : Filed (Noted ω ν) := ⟨fun s => Filed.files s.world⟩

namespace Action

theorem within_ofExcept (given : Except Failure α) (operation : String) :
    (ofExcept given : Action ω α).within operation =
      ofExcept (given.mapError (·.within operation)) :=
  rfl

/-- An action that hands back a given value has no part in what follows but its failures. -/
theorem within_return_bind (first : Action ω Unit) (operation : String) (a : α)
    (next : α → Action ω β) :
    ((first >>= fun _ => pure a).within operation >>= next) =
      (first.within operation >>= fun _ => next a) := by
  funext w
  rcases h : first w with ⟨result, after⟩
  cases result with
  | ok _ =>
    have hfirst : (first >>= fun _ => pure a) w = (.ok a, after) := andThen_ok h
    rw [andThen_ok (within_ok hfirst), andThen_ok (within_ok h)]
  | error f =>
    have hfirst : (first >>= fun _ => pure a) w = (.error f, after) := andThen_error h
    rw [andThen_error (within_error hfirst), andThen_error (within_error h)]

/-- Started in `w`, `noting` does what `plain` does; `T` holds of the notes that it adds, of the
result and of the world that is left. -/
def Shadows (plain : Action ω α) (noting : Action (Noted ω ν) α) (w : ω)
    (T : List ν → Except Failure α → ω → Prop) : Prop :=
  ∀ before, ∃ added, T added (plain w).1 (plain w).2 ∧
    noting ⟨w, before⟩ = ((plain w).1, ⟨(plain w).2, before ++ added⟩)

namespace Shadows

variable {w : ω} {S T : List ν → Except Failure α → ω → Prop}

theorem mono {plain : Action ω α} {noting : Action (Noted ω ν) α} (h : Shadows plain noting w S)
    (hst : ∀ added result after, S added result after → T added result after) :
    Shadows plain noting w T := by
  intro before
  obtain ⟨added, hs, he⟩ := h before
  exact ⟨added, hst _ _ _ hs, he⟩

theorem pure {a : α} (h : T [] (.ok a) w) : Shadows (Pure.pure a) (Pure.pure a) w T :=
  fun before => ⟨[], h, by rw [List.append_nil]; rfl⟩

theorem fail {f : Failure} (h : T [] (.error f) w) :
    Shadows (Action.fail f) (Action.fail f) w T :=
  fun before => ⟨[], h, by rw [List.append_nil]; rfl⟩

theorem require {holds : Bool} {f : Failure} {T : List ν → Except Failure Unit → ω → Prop}
    (hf : holds = false → T [] (.error f) w) (ht : holds = true → T [] (.ok ()) w) :
    Shadows (Action.require holds f) (Action.require holds f) w T := by
  cases holds with
  | false => exact fail (hf rfl)
  | true => exact pure (ht rfl)

variable {next : α → Action ω β} {nextNoting : α → Action (Noted ω ν) β}
  {U : List ν → Except Failure β → ω → Prop}

/-- An action that fails ends a sequence; one that does not is followed by the next, in the world
that it leaves. -/
theorem bind {plain : Action ω α} {noting : Action (Noted ω ν) α} (h : Shadows plain noting w T)
    (hf : ∀ f added after, T added (.error f) after → U added (.error f) after)
    (hn : ∀ a added after, T added (.ok a) after →
      Shadows (next a) (nextNoting a) after fun more => U (added ++ more)) :
    Shadows (plain >>= next) (noting >>= nextNoting) w U := by
  intro before
  obtain ⟨added, ht, he⟩ := h before
  rcases hp : plain w with ⟨result, after⟩
  rw [hp] at ht he
  cases result with
  | error f => exact ⟨added, by rw [andThen_error hp]; exact hf f added after ht,
      by rw [andThen_error he, andThen_error hp]⟩
  | ok a =>
    obtain ⟨more, hu, hm⟩ := hn a added after ht (before ++ added)
    exact ⟨added ++ more, by rw [andThen_ok hp]; exact hu,
      by rw [andThen_ok he, andThen_ok hp, hm, List.append_assoc]⟩

/-- What holds of every note of an action and of what follows it holds of every note of both. -/
theorem bind_all {plain : Action ω α} {noting : Action (Noted ω ν) α} {P : ν → Prop}
    (h : Shadows plain noting w fun added _ _ => ∀ n ∈ added, P n)
    (hn : ∀ a after, Shadows (next a) (nextNoting a) after fun more _ _ => ∀ n ∈ more, P n) :
    Shadows (plain >>= next) (noting >>= nextNoting) w fun added _ _ => ∀ n ∈ added, P n := by
  refine h.bind ?_ ?_
  · intro _ added _ hadded
    exact hadded
  · intro a added after hadded
    refine (hn a after).mono ?_
    intro more _ _ hmore
    exact List.forall_mem_append.mpr ⟨hadded, hmore⟩

/-- Looking at the world changes nothing in it, and leaves no note. -/
theorem look_bind {view : ω → Except Failure α} (hf : ∀ f, view w = .error f → U [] (.error f) w)
    (hn : ∀ a, view w = .ok a → Shadows (next a) (nextNoting a) w U) :
    Shadows (Action.look view >>= next)
      ((Action.look fun s : Noted ω ν => view s.world) >>= nextNoting) w U := by
  intro before
  cases hv : view w with
  | error f =>
    have hp : Action.look view w = (.error f, w) := by rw [Action.look, hv]
    have hq : (Action.look fun s : Noted ω ν => view s.world) ⟨w, before⟩ =
        (.error f, ⟨w, before⟩) := by rw [Action.look, hv]
    rw [andThen_error hp, andThen_error hq]
    exact ⟨[], hf f hv, by rw [List.append_nil]⟩
  | ok a =>
    have hp : Action.look view w = (.ok a, w) := by rw [Action.look, hv]
    have hq : (Action.look fun s : Noted ω ν => view s.world) ⟨w, before⟩ =
        (.ok a, ⟨w, before⟩) := by rw [Action.look, hv]
    rw [andThen_ok hp, andThen_ok hq]
    exact hn a hv before

theorem ofExcept_bind {given : Except Failure α}
    (hf : ∀ f, given = .error f → U [] (.error f) w)
    (hn : ∀ a, given = .ok a → Shadows (next a) (nextNoting a) w U) :
    Shadows (Action.ofExcept given >>= next) (Action.ofExcept given >>= nextNoting) w U :=
  @look_bind ω ν α β w next nextNoting U (fun _ => given) hf hn

theorem require_bind {holds : Bool} {f : Failure} {next : Unit → Action ω β}
    {nextNoting : Unit → Action (Noted ω ν) β} (hf : holds = false → U [] (.error f) w)
    (hn : holds = true → Shadows (next ()) (nextNoting ()) w U) :
    Shadows (Action.require holds f >>= next) (Action.require holds f >>= nextNoting) w U := by
  cases holds with
  | false =>
    refine @ofExcept_bind ω ν Unit β w next nextNoting U (.error f) ?_ nofun
    rintro _ ⟨⟩
    exact hf rfl
  | true => exact hn rfl

theorem within {plain : Action ω α} {noting : Action (Noted ω ν) α} {operation : String}
    (h : Shadows plain noting w fun added result =>
      T added (result.mapError (·.within operation))) :
    Shadows (plain.within operation) (noting.within operation) w T := by
  intro before
  obtain ⟨added, ht, he⟩ := h before
  exact ⟨added, ht, by simp only [Action.within, he]⟩

end Shadows
end Action
end StepPipeline

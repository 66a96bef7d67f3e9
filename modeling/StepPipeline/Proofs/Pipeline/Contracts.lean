import StepPipeline.Proofs.Pipeline.Notes
import StepPipeline.Proofs.Pipeline.Preflight

/-!
# Contracts of actions, steps and runs

An action can be bound by a contract: whatever it notes meets one property, whatever it returns
another, and its failures have known codes. A sequence keeps a contract that its parts keep, so a
runner keeps one if the actions that it is made of do; and a run keeps one if its steps do, as long
as the shared state holds nothing but what such steps have put out.

**Contracts (`Kept`).** Codes for failures, and properties of notes and results.

**Notes of a run (`Parted`).** Blocks, one for each step, up to the step with which the run ends.

**Contracts of runs (`Bound`).** Every step, started with outputs of a known kind, keeps a contract,
and if it succeeds puts out no other kind.

**Results.**
* `Kept.bind`, `Kept.within`: sequences.
* `executeStep_kept`: a step keeps the contract of its runner, and may fail before it.
* `history_bound`: in a bound run every step finds and leaves outputs of the known kind.
* `runSteps_parted`: taking notes in a run changes nothing, and each step leaves its own notes.
* `runSteps_bound`: in a bound run the notes meet the contract.
-/
namespace StepPipeline

open Cancellable
open StepPipeline.Action (Shadows)

variable {ω ν α β : Type}

/-! ## Actions -/

/-- The failure of an action has one of the codes, its result meets `Q`, and its notes meet `N`. -/
structure Kept (codes : List Code) (N : ν → Prop) (Q : α → Prop) (added : List ν)
    (result : Except Failure α) : Prop where
  notes : ∀ n ∈ added, N n
  failure : ∀ f, result = .error f → f.code ∈ codes
  result : ∀ a, result = .ok a → Q a

namespace Kept

variable {codes codes' : List Code} {N N' : ν → Prop} {Q R : α → Prop} {w : ω}

theorem ok {a : α} (h : Q a) : Kept codes N Q [] (.ok a) := by
  refine ⟨nofun, nofun, ?_⟩
  rintro _ ⟨⟩
  exact h

theorem error {f : Failure} (h : f.code ∈ codes) : Kept codes N Q [] (.error f) := by
  refine ⟨nofun, ?_, nofun⟩
  rintro _ ⟨⟩
  exact h

theorem mono {added : List ν} {result : Except Failure α} (h : Kept codes N Q added result)
    (hc : codes ⊆ codes') (hn : ∀ n, N n → N' n) (hq : ∀ a, Q a → R a) :
    Kept codes' N' R added result where
  notes n hm := hn n (h.notes n hm)
  failure f hf := hc (h.failure f hf)
  result a ha := hq a (h.result a ha)

/-- A contract on notes alone. -/
theorem of_notes {added : List ν} {result : Except Failure α} (h : ∀ n ∈ added, N n) :
    Kept Code.all N (fun _ => True) added result where
  notes := h
  failure f _ := f.code.mem_all
  result _ _ := trivial

/-- A sequence keeps the contract of its parts. -/
theorem bind {plain : Action ω α} {noting : Action (Noted ω ν) α} {next : α → Action ω β}
    {nextNoting : α → Action (Noted ω ν) β} {S : β → Prop}
    (h : Shadows plain noting w fun added result _ => Kept codes N Q added result)
    (hn : ∀ a after, Q a → Shadows (next a) (nextNoting a) after fun more result _ =>
      Kept codes N S more result) :
    Shadows (plain >>= next) (noting >>= nextNoting) w fun added result _ =>
      Kept codes N S added result := by
  refine h.bind ?_ ?_
  · intro f added _ hk
    refine ⟨hk.notes, ?_, nofun⟩
    rintro _ ⟨⟩
    exact hk.failure f rfl
  · intro a added after hk
    refine (hn a after (hk.result a rfl)).mono ?_
    intro more result _ hm
    exact ⟨List.forall_mem_append.mpr ⟨hk.notes, hm.notes⟩, hm.failure, hm.result⟩

/-- What a failure was one of does not change its code. -/
theorem within {plain : Action ω α} {noting : Action (Noted ω ν) α} {operation : String}
    (h : Shadows plain noting w fun added result _ => Kept codes N Q added result) :
    Shadows (plain.within operation) (noting.within operation) w fun added result _ =>
      Kept codes N Q added result := by
  refine Shadows.within (h.mono ?_)
  intro added result _ hk
  cases result with
  | ok a => exact ⟨hk.notes, nofun, hk.result⟩
  | error f =>
    refine ⟨hk.notes, ?_, nofun⟩
    rintro _ ⟨⟩
    exact hk.failure f rfl

end Kept

/-! ## Steps -/

/-- The codes of the failures that a step can end with before its runner is reached, or when it is
overtaken by the cancellation of the run. -/
def driverCodes : List Code := [.runCancelled, .stepNotFound, .configSchemaViolation]

section
variable [Cancellable ω] {registry : Registry ω} {registry' : Registry (Noted ω ν)}
  {workDir aliasName : String} {step : Step} {state : State} {codes : List Code} {N : ν → Prop}
  {Q : StepResult → Prop}

/-- The same runs are cancelled with and without notes. -/
theorem executeStep_kept_cancelled {w : ω} (hc : cancelled w = true) :
    Shadows (executeStep registry workDir step aliasName state)
      (executeStep registry' workDir step aliasName state) w fun added result _ =>
        Kept (driverCodes ++ codes) N Q added result := by
  intro before
  have hcancelled : cancelled (⟨w, before⟩ : Noted ω ν) = cancelled w := rfl
  unfold executeStep
  refine ⟨[], ?_, by simp [hcancelled, hc]⟩
  rw [if_pos hc]
  exact .error (by simp [driverCodes, Failure.of, Failure.code, Cause.code])

/-- A type without runner has none in either registry. -/
theorem executeStep_kept_missing {f : Failure} (hl : registry.lookup step.type = .error f)
    (hl' : registry'.lookup step.type = .error f) (w : ω) :
    Shadows (executeStep registry workDir step aliasName state)
      (executeStep registry' workDir step aliasName state) w fun added result _ =>
        Kept (driverCodes ++ codes) N Q added result := by
  by_cases hc : cancelled w = true
  · exact executeStep_kept_cancelled hc
  intro before
  have hcancelled : cancelled (⟨w, before⟩ : Noted ω ν) = cancelled w := rfl
  unfold executeStep
  refine ⟨[], ?_, by simp [hcancelled, hc, hl, hl']⟩
  rw [if_neg hc]
  simp only [hl]
  exact .error (by simp [driverCodes, lookup_code hl])

/-- A step keeps the contract of its runner, if that is reached. -/
theorem executeStep_kept {entry : Registration ω} {entry' : Registration (Noted ω ν)}
    (hl : registry.lookup step.type = .ok entry) (hl' : registry'.lookup step.type = .ok entry')
    (hs : entry'.validator = entry.validator)
    (h : entry.validate step.type (.object step.config) = .ok () → ∀ v,
      Shadows (entry.runner (contextOf workDir step aliasName state))
        (entry'.runner (contextOf workDir step aliasName state)) v fun added result _ =>
          Kept codes N Q added result) (w : ω) :
    Shadows (executeStep registry workDir step aliasName state)
      (executeStep registry' workDir step aliasName state) w fun added result _ =>
        Kept (driverCodes ++ codes) N Q added result := by
  by_cases hc : cancelled w = true
  · exact executeStep_kept_cancelled hc
  intro before
  have hcancelled (v : ω) (notes : List ν) : cancelled (⟨v, notes⟩ : Noted ω ν) = cancelled v := rfl
  have hvalidate : entry'.validate = entry.validate := by
    unfold Registration.validate
    rw [hs]
  unfold executeStep
  cases hv : entry.validate step.type (.object step.config) with
  | error f =>
    refine ⟨[], ?_, by simp [hcancelled, hc, hl, hl', hvalidate, hv]⟩
    simp only [if_neg hc, hl, hv]
    exact .error (by simp [driverCodes, validate_code hv])
  | ok _ =>
    obtain ⟨added, hk, he⟩ := h hv w before
    rcases hr : entry.runner (contextOf workDir step aliasName state) w with ⟨returned, after⟩
    rw [hr] at hk he
    unfold contextOf at hr he
    refine ⟨added, ?_, ?_⟩
    · simp only [if_neg hc, hl, hv, hr]
      cases returned with
      | error f =>
        exact hk.mono (List.subset_append_right _ _) (fun _ => id) (fun _ => id)
      | ok result =>
        by_cases hc' : cancelled after = true
        · simp only [if_pos hc']
          refine ⟨hk.notes, ?_, nofun⟩
          rintro _ ⟨⟩
          simp [driverCodes, Failure.of, Failure.code, Cause.code]
        · simp only [if_neg hc']
          exact hk.mono (List.subset_append_right _ _) (fun _ => id) (fun _ => id)
    · cases returned with
      | error f => simp [hcancelled, hc, hl, hl', hvalidate, hv, hr, he]
      | ok result =>
        by_cases hc' : cancelled after = true <;>
          simp [hcancelled, hc, hc', hl, hl', hvalidate, hv, hr, he]

end

/-! ## Notes of steps -/

/-- The notes of steps, one step behind the other, up to one with which it ends. -/
inductive Parted {σ : Type} (N : σ → ν → Prop) : (steps : List σ) → (notes : List ν) → Prop where
  | ended {steps : List σ} : Parted N steps []
  | step {step : σ} {rest : List σ} {block more : List ν} (hb : ∀ n ∈ block, N step n)
    (hm : Parted N rest more) : Parted N (step :: rest) (block ++ more)

namespace Parted

variable {σ τ : Type} {N : σ → ν → Prop} {steps : List σ} {notes : List ν}

theorem of_mem (h : Parted N steps notes) {n : ν} (hn : n ∈ notes) : ∃ step ∈ steps, N step n := by
  induction h with
  | ended => cases hn
  | step hb _ ih =>
    rcases List.mem_append.mp hn with hn | hn
    · exact ⟨_, List.mem_cons_self, hb n hn⟩
    · obtain ⟨step, hstep, h⟩ := ih hn
      exact ⟨step, List.mem_cons_of_mem _ hstep, h⟩

theorem map {M : τ → ν → Prop} {f : σ → τ} (h : Parted N steps notes)
    (hf : ∀ step ∈ steps, ∀ n, N step n → M (f step) n) : Parted M (steps.map f) notes := by
  induction h with
  | ended => exact .ended
  | step hb _ ih =>
    obtain ⟨hfirst, hrest⟩ := List.forall_mem_cons.mp hf
    exact .step (fun n hn => hfirst n (hb n hn)) (ih hrest)

end Parted

section
variable [Cancellable ω] {registry : Registry ω} {registry' : Registry (Noted ω ν)}
  {workDir : String} {steps : List (Step × String)} {N : Step × String → ν → Prop}
  {I : State → Prop}

/-- Every step, started with a shared state that is as it should be, leaves one that is, and leaves
notes of its own. -/
def NotedApart (registry : Registry ω) (registry' : Registry (Noted ω ν)) (workDir : String)
    (steps : List (Step × String)) (N : Step × String → ν → Prop) (I : State → Prop) : Prop :=
  ∀ pair ∈ steps, ∀ (state : State) (w : ω), I state →
    Shadows (executeStep registry workDir pair.1 pair.2 state)
      (executeStep registry' workDir pair.1 pair.2 state) w fun added outcome _ =>
        (∀ n ∈ added, N pair n) ∧ I (concludeStep state pair.2 pair.1.type outcome).2

/-- Taking notes in a run changes nothing, and the notes of each step are its own. -/
theorem runSteps_parted (h : NotedApart registry registry' workDir steps N I) (state : State)
    (w : ω) (hs : I state) (before : List ν) :
    ∃ added, Parted N steps added ∧ runSteps registry' workDir steps state ⟨w, before⟩ =
      ((runSteps registry workDir steps state w).1, (runSteps registry workDir steps state w).2.1,
        ⟨(runSteps registry workDir steps state w).2.2, before ++ added⟩) := by
  induction steps generalizing state w before with
  | nil => exact ⟨[], .ended, by simp [runSteps]⟩
  | cons pair rest ih =>
    obtain ⟨step, aliasName⟩ := pair
    obtain ⟨hpair, hrest⟩ := List.forall_mem_cons.mp h
    obtain ⟨added, ⟨hadded, hleft⟩, he⟩ := hpair state (passes w) hs before
    rcases hr : executeStep registry workDir step aliasName state (passes w) with ⟨outcome, after⟩
    simp only [hr] at hleft he
    have hpasses : passes (⟨w, before⟩ : Noted ω ν) = ⟨passes w, before⟩ := rfl
    unfold runSteps
    simp only [hpasses, he, hr]
    cases hstatus : (concludeStep state aliasName step.type outcome).1.status with
    | errored =>
      refine ⟨added, ?_, by simp⟩
      rw [← List.append_nil added]
      exact .step hadded .ended
    | succeeded =>
      obtain ⟨more, hm, hmore⟩ := ih hrest _ after hleft (before ++ added)
      refine ⟨added ++ more, .step hadded hm, ?_⟩
      simp only [hmore, List.append_assoc]

end

/-! ## Runs -/

/-- Every output in the shared state is of a kind. -/
def State.All (V : Json → Prop) (s : State) : Prop := ∀ entry ∈ s.entries, V entry.2

/-- The step succeeded, and put out nothing but outputs of a kind. -/
def StepResult.Puts (V : Json → Prop) (result : StepResult) : Prop :=
  result.status = .succeeded ∧ ∀ output, result.output = some output → V output

section
variable {V : Json → Prop} {state : State}

theorem all_empty : State.empty.All V := nofun

theorem all_merge {aliasName : String} {output : Json} {next : State} (hs : state.All V)
    (hv : V output) (h : state.merge aliasName output = .ok next) : next.All V := by
  unfold State.merge at h
  split at h
  · cases h
    exact List.forall_mem_append.mpr ⟨hs, List.forall_mem_singleton.mpr hv⟩
  · cases h

/-- A step leaves outputs of the kind that it puts out. -/
theorem Execution.all_stateAfter {a : Execution ω} (hs : a.state.All V)
    (hr : ∀ result, a.outcome = .ok result → result.Puts V) : a.stateAfter.All V := by
  unfold Execution.stateAfter concludeStep
  cases ho : a.outcome with
  | error f => exact hs
  | ok result =>
    obtain ⟨hok, hv⟩ := hr result ho
    have habsorb : ∀ next, absorb a.state a.aliasName result = .ok next → next.All V := by
      intro next h
      unfold absorb at h
      split at h
      · rename_i output _ hout
        exact all_merge hs (hv output hout) h
      · cases h
        exact hs
    cases ha : absorb a.state a.aliasName result with
    | error f => simpa only [ha] using hs
    | ok next => simpa only [ha, hok] using habsorb next ha

variable [Cancellable ω] {registry : Registry ω} {registry' : Registry (Noted ω ν)}
  {workDir : String} {steps : List (Step × String)} {codes : List Code} {N : ν → Prop}

/-- Every step, started with outputs of a kind, puts out no other kind; and it keeps a contract. -/
def Bound (registry : Registry ω) (registry' : Registry (Noted ω ν)) (workDir : String)
    (steps : List (Step × String)) (codes : List Code) (N : ν → Prop) (V : Json → Prop) : Prop :=
  ∀ pair ∈ steps, ∀ (state : State) (w : ω), state.All V →
    Shadows (executeStep registry workDir pair.1 pair.2 state)
      (executeStep registry' workDir pair.1 pair.2 state) w fun added result _ =>
        Kept codes N (StepResult.Puts V) added result

/-- What a bound run does with a step. -/
structure Execution.Bound (codes : List Code) (V : Json → Prop) (a : Execution ω) : Prop where
  found : a.state.All V
  left : a.stateAfter.All V
  failure : ∀ f, a.outcome = .error f → f.code ∈ codes
  result : ∀ result, a.outcome = .ok result → result.Puts V

/-- **Bound runs.** Every step of a bound run finds and leaves outputs of the kind. -/
theorem history_bound (h : Bound registry registry' workDir steps codes N V) {w : ω}
    (hs : state.All V) :
    ∀ a ∈ history registry workDir steps state w, a.Bound codes V := by
  induction steps generalizing state w with
  | nil => exact nofun
  | cons pair rest ih =>
    obtain ⟨hpair, hrest⟩ := List.forall_mem_cons.mp h
    obtain ⟨added, hk, -⟩ := hpair state (passes w) hs []
    rw [history_cons _ _ _ _ _ rfl]
    have hleft : (execution registry workDir pair.1 pair.2 state (passes w)).stateAfter.All V :=
      Execution.all_stateAfter hs hk.result
    refine List.forall_mem_cons.mpr ⟨⟨hs, hleft, hk.failure, hk.result⟩, ?_⟩
    split
    · exact ih hrest hleft
    · exact nofun

/-- Taking notes in a bound run changes nothing, and the notes meet the contract. -/
theorem runSteps_bound (h : Bound registry registry' workDir steps codes N V) (w : ω)
    (hs : state.All V) (before : List ν) :
    ∃ added, (∀ n ∈ added, N n) ∧ runSteps registry' workDir steps state ⟨w, before⟩ =
      ((runSteps registry workDir steps state w).1, (runSteps registry workDir steps state w).2.1,
        ⟨(runSteps registry workDir steps state w).2.2, before ++ added⟩) := by
  have hsteps : NotedApart registry registry' workDir steps (fun _ => N) (State.All V) := by
    intro pair hpair state w hs
    refine (h pair hpair state w hs).mono fun added outcome after hk => ⟨hk.notes, ?_⟩
    exact Execution.all_stateAfter (a := ⟨pair.1, pair.2, state, w, outcome, after⟩) hs hk.result
  obtain ⟨added, hadded, he⟩ := runSteps_parted hsteps state w hs before
  refine ⟨added, fun n hn => ?_, he⟩
  obtain ⟨_, -, hn⟩ := hadded.of_mem hn
  exact hn

end
end StepPipeline

import StepPipeline.Pipeline.Run
import StepPipeline.Proofs.Pipeline.Aliases

/-!
# The history of a run

A run leaves reports and a state; here is what happened on the way. An `Execution` is a step as it
was started, with the shared state and the world that it found, and as it ended. The history of a
run is the list of its executions, and the run is what they report (`runSteps_eq`).

**Endings (`Ends`).** What carrying out one step can come to, said once: cancelled before the start,
of a type without runner, with a configuration that its schema refuses, failed by its runner,
cancelled while its runner was at work, or done.

**Results.**
* `executeStep_ends`: every execution of a step is one of these.
* `runSteps_eq`: reports, final state and final world of a run are those of its history.
* `history_steps`, `history_complete`: the executions are the first steps in order, and all of them
  unless one did not succeed.
* `history_getElem`: an execution finds what those before it left, and they have all succeeded;
  `history_halts`: behind one that has not there is none.
* `Execution.conclusion`: what a step whose alias is fresh reports, and what it leaves in the shared
  state; `executions_fresh`: in a run every alias is fresh when its turn comes.
* `executions_linked`: each execution starts in what has become of the world that the one before it
  left.
-/
namespace StepPipeline

open Cancellable

variable {ω : Type}

/-! ## One step -/

/-- What a runner is shown. -/
def contextOf (workDir : String) (step : Step) (aliasName : String) (state : State) : StepContext :=
  ⟨aliasName, step.type, workDir, state, .object step.config⟩

/-- What carrying out a step can come to: the outcome, and the world after it. -/
inductive Ends [Cancellable ω] (registry : Registry ω) (workDir : String) (step : Step)
    (aliasName : String) (state : State) (w : ω) : Except Failure StepResult → ω → Prop where
  | cancelled (hc : cancelled w = true) :
    Ends registry workDir step aliasName state w (.error (.of (.cancelled "step start"))) w
  | missing {f : Failure} (hc : cancelled w = false) (hl : registry.lookup step.type = .error f) :
    Ends registry workDir step aliasName state w (.error f) w
  | invalid {entry : Registration ω} {f : Failure} (hc : cancelled w = false)
    (hl : registry.lookup step.type = .ok entry)
    (hv : entry.validate step.type (.object step.config) = .error f) :
    Ends registry workDir step aliasName state w (.error f) w
  | failed {entry : Registration ω} {f : Failure} {w' : ω} (hc : cancelled w = false)
    (hl : registry.lookup step.type = .ok entry)
    (hv : entry.validate step.type (.object step.config) = .ok ())
    (hr : entry.runner (contextOf workDir step aliasName state) w = (.error f, w')) :
    Ends registry workDir step aliasName state w (.error f) w'
  | overtaken {entry : Registration ω} {result : StepResult} {w' : ω} (hc : cancelled w = false)
    (hl : registry.lookup step.type = .ok entry)
    (hv : entry.validate step.type (.object step.config) = .ok ())
    (hr : entry.runner (contextOf workDir step aliasName state) w = (.ok result, w'))
    (hc' : cancelled w' = true) :
    Ends registry workDir step aliasName state w (.error (.of (.cancelled "step execution"))) w'
  | done {entry : Registration ω} {result : StepResult} {w' : ω} (hc : cancelled w = false)
    (hl : registry.lookup step.type = .ok entry)
    (hv : entry.validate step.type (.object step.config) = .ok ())
    (hr : entry.runner (contextOf workDir step aliasName state) w = (.ok result, w'))
    (hc' : cancelled w' = false) :
    Ends registry workDir step aliasName state w (.ok result) w'

theorem executeStep_ends [Cancellable ω] {registry : Registry ω} {workDir : String} {step : Step}
    {aliasName : String} {state : State} {w w' : ω} {outcome : Except Failure StepResult}
    (h : executeStep registry workDir step aliasName state w = (outcome, w')) :
    Ends registry workDir step aliasName state w outcome w' := by
  unfold executeStep at h
  cases hc : cancelled w with
  | true => simp only [hc, if_true] at h; cases h; exact .cancelled hc
  | false =>
    simp only [hc, Bool.false_eq_true, if_false] at h
    cases hl : registry.lookup step.type with
    | error f => simp only [hl] at h; cases h; exact .missing hc hl
    | ok entry =>
      simp only [hl] at h
      cases hv : entry.validate step.type (.object step.config) with
      | error f => simp only [hv] at h; cases h; exact .invalid hc hl hv
      | ok _ =>
        simp only [hv] at h
        rcases hr : entry.runner (contextOf workDir step aliasName state) w with ⟨ran, w₁⟩
        unfold contextOf at hr
        rw [hr] at h
        cases ran with
        | error f => simp only at h; cases h; exact .failed hc hl hv hr
        | ok result =>
          cases hc' : cancelled w₁ with
          | true => simp only [hc', if_true] at h; cases h; exact .overtaken hc hl hv hr hc'
          | false =>
            simp only [hc', Bool.false_eq_true, if_false] at h
            cases h
            exact .done hc hl hv hr hc'

theorem executeStep_of_done [Cancellable ω] {registry : Registry ω} {entry : Registration ω}
    {workDir : String} {step : Step} {aliasName : String} {state : State} {w w' : ω}
    {result : StepResult} (hc : cancelled w = false) (hl : registry.lookup step.type = .ok entry)
    (hv : entry.validate step.type (.object step.config) = .ok ())
    (hr : entry.runner (contextOf workDir step aliasName state) w = (.ok result, w'))
    (hc' : cancelled w' = false) :
    executeStep registry workDir step aliasName state w = (.ok result, w') := by
  unfold contextOf at hr
  simp [executeStep, hc, hl, hv, hr, hc']

/-! ## Executions -/

/-- A step as it was started and as it ended. -/
structure Execution (ω : Type) where
  step : Step
  aliasName : String
  /-- The shared state that the step found. -/
  state : State
  start : ω
  outcome : Except Failure StepResult
  finish : ω

namespace Execution

def report (a : Execution ω) : StepReport :=
  (concludeStep a.state a.aliasName a.step.type a.outcome).1

/-- The shared state that the step left. -/
def stateAfter (a : Execution ω) : State :=
  (concludeStep a.state a.aliasName a.step.type a.outcome).2

end Execution

/-- Starts a step. -/
def execution [Cancellable ω] (registry : Registry ω) (workDir : String) (step : Step)
    (aliasName : String) (state : State) (w : ω) : Execution ω :=
  let (outcome, finish) := executeStep registry workDir step aliasName state w
  ⟨step, aliasName, state, w, outcome, finish⟩

/-- The executions of a run, up to the first that does not succeed. -/
def history [Cancellable ω] (registry : Registry ω) (workDir : String) :
    List (Step × String) → State → ω → List (Execution ω)
  | [], _, _ => []
  | (step, aliasName) :: rest, state, w =>
    let a := execution registry workDir step aliasName state (passes w)
    match a.report.status with
    | .errored => [a]
    | .succeeded => a :: history registry workDir rest a.stateAfter a.finish

/-! ## The run is its history -/

/-- The shared state behind executions that began with `state`. -/
def lastState (state : State) (h : List (Execution ω)) : State :=
  (h.getLast?.map Execution.stateAfter).getD state

/-- The world behind executions that began in `w`. -/
def lastWorld (w : ω) (h : List (Execution ω)) : ω :=
  (h.getLast?.map Execution.finish).getD w

theorem lastState_cons (state : State) (a : Execution ω) (h : List (Execution ω)) :
    lastState state (a :: h) = lastState a.stateAfter h := by
  unfold lastState
  rw [List.getLast?_cons]
  cases h.getLast? <;> rfl

theorem lastWorld_cons (w : ω) (a : Execution ω) (h : List (Execution ω)) :
    lastWorld w (a :: h) = lastWorld a.finish h := by
  unfold lastWorld
  rw [List.getLast?_cons]
  cases h.getLast? <;> rfl

section
variable [Cancellable ω] {registry : Registry ω} {workDir : String}

theorem runSteps_eq (steps : List (Step × String)) (state : State) (w : ω) :
    runSteps registry workDir steps state w =
      ((history registry workDir steps state w).map Execution.report,
        lastState state (history registry workDir steps state w),
        lastWorld w (history registry workDir steps state w)) := by
  induction steps generalizing state w with
  | nil => rfl
  | cons pair rest ih =>
    obtain ⟨step, aliasName⟩ := pair
    unfold runSteps history
    rcases he : executeStep registry workDir step aliasName state (passes w) with ⟨outcome, w'⟩
    simp only [execution, he, Execution.report]
    cases hs : (concludeStep state aliasName step.type outcome).1.status with
    | errored => rfl
    | succeeded => simp only [ih, List.map_cons, lastState_cons, lastWorld_cons]; rfl

theorem history_cons (step : Step) (aliasName : String) (rest : List (Step × String))
    (state : State) (w : ω) {a : Execution ω}
    (ha : execution registry workDir step aliasName state (passes w) = a) :
    history registry workDir ((step, aliasName) :: rest) state w =
      a :: if a.report.status = .succeeded then history registry workDir rest a.stateAfter a.finish
        else [] := by
  rw [history, ha]
  cases a.report.status <;> simp

/-- What the history records is what carrying out the step gave. -/
theorem history_executes {steps : List (Step × String)} {state : State} {w : ω} {a : Execution ω}
    (ha : a ∈ history registry workDir steps state w) :
    executeStep registry workDir a.step a.aliasName a.state a.start = (a.outcome, a.finish) := by
  induction steps generalizing state w with
  | nil => simp [history] at ha
  | cons pair rest ih =>
    rw [history_cons _ _ _ _ _ rfl] at ha
    rcases List.mem_cons.mp ha with rfl | ha
    · rfl
    · split at ha
      · exact ih ha
      · cases ha

/-- The executions are the first steps, in order. -/
theorem history_steps (registry : Registry ω) (workDir : String) (steps : List (Step × String))
    (state : State) (w : ω) :
    (history registry workDir steps state w).map (fun a => (a.step, a.aliasName)) <+: steps := by
  induction steps generalizing state w with
  | nil => simp [history]
  | cons pair rest ih =>
    rw [history_cons _ _ _ _ _ rfl, List.map_cons]
    refine List.cons_prefix_cons.mpr ⟨rfl, ?_⟩
    split
    · exact ih _ _
    · exact List.nil_prefix

theorem history_step_at {steps : List (Step × String)} {state : State} {w : ω} {i : Nat}
    {a : Execution ω} (ha : (history registry workDir steps state w)[i]? = some a) :
    steps[i]? = some (a.step, a.aliasName) := by
  obtain ⟨rest, hrest⟩ := history_steps registry workDir steps state w
  have hi : i < (history registry workDir steps state w).length :=
    (List.getElem?_eq_some_iff.mp ha).1
  rw [← hrest, List.getElem?_append_left (by rwa [List.length_map]), List.getElem?_map, ha]
  rfl

/-- Only behind an execution that did not succeed are there steps left. -/
theorem history_complete {steps : List (Step × String)} {state : State} {w : ω}
    (h : ∀ a ∈ history registry workDir steps state w, a.report.status = .succeeded) :
    (history registry workDir steps state w).length = steps.length := by
  induction steps generalizing state w with
  | nil => rfl
  | cons pair rest ih =>
    rw [history_cons _ _ _ _ _ rfl] at h ⊢
    obtain ⟨hs, hrest⟩ := List.forall_mem_cons.mp h
    rw [if_pos hs] at hrest ⊢
    simp [ih hrest]

/-- **Links.** An execution finds what those before it left, and they have all succeeded. -/
theorem history_getElem {steps : List (Step × String)} {state : State} {w : ω} {i : Nat}
    {a : Execution ω} (ha : (history registry workDir steps state w)[i]? = some a) :
    a.state = lastState state ((history registry workDir steps state w).take i) ∧
      a.start = passes (lastWorld w ((history registry workDir steps state w).take i)) ∧
      ∀ b ∈ (history registry workDir steps state w).take i, b.report.status = .succeeded := by
  induction steps generalizing state w i with
  | nil => simp [history] at ha
  | cons pair rest ih =>
    rw [history_cons _ _ _ _ _ rfl] at ha ⊢
    cases i with
    | zero =>
      rw [List.getElem?_cons_zero, Option.some.injEq] at ha
      subst ha
      exact ⟨rfl, rfl, by simp⟩
    | succ i =>
      rw [List.getElem?_cons_succ] at ha
      split at ha
      · rename_i hs
        obtain ⟨h1, h2, h3⟩ := ih ha
        rw [if_pos hs, List.take_succ_cons, lastState_cons, lastWorld_cons]
        exact ⟨h1, h2, List.forall_mem_cons.mpr ⟨hs, h3⟩⟩
      · simp at ha

/-- An execution that did not succeed is the last one. -/
theorem history_halts {steps : List (Step × String)} {state : State} {w : ω} {i : Nat}
    {a : Execution ω} (ha : (history registry workDir steps state w)[i]? = some a)
    (hs : a.report.status = .errored) :
    (history registry workDir steps state w).length = i + 1 ∧
      (history registry workDir steps state w).getLast? = some a := by
  obtain ⟨hi, he⟩ := List.getElem?_eq_some_iff.mp ha
  have hlen : (history registry workDir steps state w).length = i + 1 := by
    by_cases hlt : i + 1 < (history registry workDir steps state w).length
    · obtain ⟨-, -, hbefore⟩ := history_getElem (List.getElem?_eq_getElem hlt)
      have hm : a ∈ (history registry workDir steps state w).take (i + 1) := by
        rw [List.mem_take_iff_getElem]
        exact ⟨i, by omega, he⟩
      rw [hbefore a hm] at hs
      cases hs
    · omega
  exact ⟨hlen, by rw [List.getLast?_eq_getElem?, hlen]; exact ha⟩

end

/-! ## What an execution reports -/

namespace Execution

theorem report_of_error {a : Execution ω} {f : Failure} (h : a.outcome = .error f) :
    a.report = .errored a.aliasName a.step.type f := by
  unfold report
  rw [h]
  rfl

/-- The alias of the step has no output yet. -/
def Fresh (a : Execution ω) : Prop := a.aliasName ∉ a.state.aliases

/-- The failure of a step that did not succeed: what stopped it, or that its runner reported an
error without saying which. -/
def FailsWith (a : Execution ω) (f : Failure) : Prop :=
  a.outcome = .error f ∨ ∃ output, a.outcome = .ok ⟨.errored, output⟩ ∧
    f = .of (.unexpected "step reported Errored without an error")

/-- **Conclusions.** A step with a fresh alias succeeds, and its output, if it has one, comes last
in the shared state; or it fails, and the shared state stays as it was. -/
theorem conclusion {a : Execution ω} (h : a.Fresh) :
    (∃ output, a.outcome = .ok ⟨.succeeded, output⟩ ∧
      a.report = .succeeded a.aliasName a.step.type output ∧
      a.stateAfter.entries = a.state.entries ++ (output.map (a.aliasName, ·)).toList) ∨
    ∃ f, a.FailsWith f ∧ a.report = .errored a.aliasName a.step.type f ∧
      a.stateAfter = a.state := by
  have hfree : a.state.get? a.aliasName = none := Fields.get?_eq_none_iff.mpr h
  unfold report stateAfter FailsWith
  cases ho : a.outcome with
  | error f => exact Or.inr ⟨f, Or.inl rfl, rfl, rfl⟩
  | ok result =>
    obtain ⟨status, output⟩ := result
    cases status with
    | errored => exact Or.inr ⟨_, Or.inr ⟨output, rfl, rfl⟩, rfl, rfl⟩
    | succeeded =>
      refine Or.inl ⟨output, rfl, ?_⟩
      cases output with
      | none => exact ⟨rfl, (List.append_nil _).symm⟩
      | some value => simp [concludeStep, absorb, State.merge, hfree]

/-- A step adds no alias but its own. -/
theorem aliases_stateAfter {a : Execution ω} (h : a.Fresh) :
    a.stateAfter.aliases.Sublist (a.state.aliases ++ [a.aliasName]) := by
  rcases conclusion h with ⟨output, -, -, he⟩ | ⟨f, -, -, he⟩
  · unfold State.aliases
    rw [he, List.map_append]
    refine List.Sublist.append_left ?_ _
    cases output <;> simp
  · rw [he]
    exact List.sublist_append_left _ _

end Execution

section
variable [Cancellable ω] {registry : Registry ω} {workDir : String}

/-- Distinct aliases are fresh when their turn comes. -/
theorem history_fresh {steps : List (Step × String)} {state : State} {w : ω}
    (h : (state.aliases ++ steps.map (·.2)).Nodup) :
    ∀ a ∈ history registry workDir steps state w, a.Fresh := by
  induction steps generalizing state w with
  | nil => simp [history]
  | cons pair rest ih =>
    rw [history_cons _ _ _ _ _ rfl]
    have hfresh : (execution registry workDir pair.1 pair.2 state (passes w)).Fresh := by
      rw [List.map_cons, List.nodup_append] at h
      exact fun hm => h.2.2 _ hm pair.2 (by simp) rfl
    refine List.forall_mem_cons.mpr ⟨hfresh, ?_⟩
    split
    · refine ih (List.Nodup.sublist ?_ h)
      rw [List.map_cons, List.append_cons]
      exact (Execution.aliases_stateAfter hfresh).append_right _
    · simp

/-! ## The history of a pipeline -/

/-- The executions of a pipeline: none if its aliases cannot be resolved. -/
def executions (steps : List Step) (registry : Registry ω) (ctx : RunContext) (w : ω) :
    List (Execution ω) :=
  match resolveAliases steps ctx.aliasStem with
  | .error _ => []
  | .ok aliases => history registry ctx.workDir (steps.zip aliases) .empty w

/-- What a run returns, said by its executions. -/
def reportOf (steps : List Step) (h : List (Execution ω)) : RunReport :=
  let reports := h.map Execution.report
  ⟨.ofReports reports, reports, .ofReports steps.length reports, lastState .empty h⟩

theorem run_eq (steps : List Step) (registry : Registry ω) (ctx : RunContext) (w : ω) :
    run steps registry ctx w =
      ((resolveAliases steps ctx.aliasStem).map fun _ =>
        reportOf steps (executions steps registry ctx w),
      lastWorld w (executions steps registry ctx w)) := by
  unfold run executions
  cases resolveAliases steps ctx.aliasStem with
  | error f => rfl
  | ok aliases => simp only [runSteps_eq]; rfl

theorem run_ok {steps : List Step} {registry : Registry ω} {ctx : RunContext} {w : ω}
    {r : RunReport} (h : (run steps registry ctx w).1 = .ok r) :
    ∃ aliases, resolveAliases steps ctx.aliasStem = .ok aliases ∧
      executions steps registry ctx w =
        history registry ctx.workDir (steps.zip aliases) .empty w ∧
      r = reportOf steps (executions steps registry ctx w) := by
  rw [run_eq] at h
  unfold executions at h ⊢
  cases ha : resolveAliases steps ctx.aliasStem with
  | error f => rw [ha] at h; cases h
  | ok aliases => rw [ha] at h; cases h; exact ⟨aliases, rfl, rfl, rfl⟩

theorem executions_fresh (steps : List Step) (registry : Registry ω) (ctx : RunContext) (w : ω) :
    ∀ a ∈ executions steps registry ctx w, a.Fresh := by
  unfold executions
  cases ha : resolveAliases steps ctx.aliasStem with
  | error f => simp
  | ok aliases =>
    refine history_fresh ?_
    have hlen := length_of_resolveAliases ha
    rw [List.map_snd_zip (by omega)]
    simpa [State.aliases, State.empty] using (resolveAliases_ok ha).2

theorem executions_executes {steps : List Step} {registry : Registry ω} {ctx : RunContext} {w : ω}
    {a : Execution ω} (ha : a ∈ executions steps registry ctx w) :
    executeStep registry ctx.workDir a.step a.aliasName a.state a.start =
      (a.outcome, a.finish) := by
  unfold executions at ha
  split at ha
  · cases ha
  · exact history_executes ha

theorem length_executions_le (steps : List Step) (registry : Registry ω) (ctx : RunContext)
    (w : ω) : (executions steps registry ctx w).length ≤ steps.length := by
  unfold executions
  split
  · exact Nat.zero_le _
  · rename_i aliases _
    have hle := (history_steps registry ctx.workDir (steps.zip aliases) .empty w).length_le
    rw [List.length_map, List.length_zip] at hle
    omega

end

/-! ## Executions in a row -/

/-- Each execution starts in what has become of the world that the one before it left. -/
inductive Linked [Cancellable ω] : ω → List (Execution ω) → Prop where
  | nothing (w : ω) : Linked w []
  | next {w : ω} {a : Execution ω} {rest : List (Execution ω)} (hs : a.start = passes w)
    (h : Linked a.finish rest) : Linked w (a :: rest)

namespace Linked

variable [Cancellable ω] {w : ω} {a : Execution ω} {front back : List (Execution ω)}

theorem start_eq (h : Linked w (a :: back)) : a.start = passes w := by
  cases h with | next hs _ => exact hs

theorem tail (h : Linked w (a :: back)) : Linked a.finish back := by
  cases h with | next _ h => exact h

theorem right (h : Linked w (front ++ back)) : Linked (lastWorld w front) back := by
  induction front generalizing w with
  | nil => exact h
  | cons a front ih =>
    rw [lastWorld_cons]
    exact ih h.tail

theorem left (h : Linked w (front ++ back)) : Linked w front := by
  induction front generalizing w with
  | nil => exact .nothing w
  | cons a front ih => cases h with | next hs h => exact .next hs (ih h)

end Linked

section
variable [Cancellable ω]

theorem history_linked (registry : Registry ω) (workDir : String) (steps : List (Step × String))
    (state : State) (w : ω) : Linked w (history registry workDir steps state w) := by
  induction steps generalizing state w with
  | nil => exact .nothing w
  | cons pair rest ih =>
    rw [history_cons _ _ _ _ _ rfl]
    refine .next rfl ?_
    split
    · exact ih _ _
    · exact .nothing _

variable {steps : List Step} {registry : Registry ω} {ctx : RunContext} {w : ω}

theorem executions_linked : Linked w (executions steps registry ctx w) := by
  unfold executions
  split
  · exact .nothing w
  · exact history_linked _ _ _ _ _

theorem step_mem_of_executions {a : Execution ω} (ha : a ∈ executions steps registry ctx w) :
    a.step ∈ steps := by
  unfold executions at ha
  split at ha
  · cases ha
  · rename_i aliases _
    have hpair := (history_steps registry ctx.workDir (steps.zip aliases) .empty w).subset
      (List.mem_map_of_mem ha)
    exact (List.of_mem_zip hpair).1

end

/-! ## A registry to run -/

/-- A world that is no more than the token that cancels a run. -/
structure Token where
  cancelled : Bool

instance : Cancellable Token where
  cancelled := Token.cancelled

/-- Hands back the `output` of its configuration. Told to `cancel`, it cancels the run while it is
at work; told to `fail`, it reports an error without saying which. -/
def echo : Runner Token := fun ctx w =>
  (.ok ⟨if (ctx.config.field? "fail").isSome then .errored else .succeeded,
      ctx.config.field? "output"⟩,
    ⟨w.cancelled || (ctx.config.field? "cancel").isSome⟩)

/-- `strict` is `echo` with a schema that demands an output. -/
def echoRegistry : Registry Token :=
  ⟨[⟨"echo", echo, .bool true, Schema.validator []⟩,
    ⟨"strict", echo, .object [("required", .strings ["output"])],
      Schema.validator [.required ["output"]]⟩]⟩

end StepPipeline

import StepPipeline.Proofs.Json.Ordered
import StepPipeline.Proofs.Pipeline.History

/-!
# The shared state mirrors the results

The driver merges the output of a step when the step has succeeded, and reports it when the step is
over. That the two agree rests on the aliases: distinct before the run, each is fresh when its step
ends, so the merge does not fail, and nothing that is there is overwritten.

**Results.**
* `entries_lastState`: the state behind any number of executions has one entry for each result that
  succeeded with an output, in order.
* `state_mirrors_results`: so has the state that a run returns; and a step that did not succeed
  leaves no trace in it.
-/
namespace StepPipeline

open Cancellable

variable {ω : Type}

/-- The entry of the shared state that a result stands for: one, if the step succeeded with an
output. -/
def StepReport.entry? (r : StepReport) : Option (String × Json) :=
  match r.status with
  | .succeeded => r.output.map (r.aliasName, ·)
  | .errored => none

theorem StepReport.output_of_entry? {r : StepReport} {entry : String × Json}
    (h : r.entry? = some entry) : r.output = some entry.2 := by
  unfold entry? at h
  split at h
  · obtain ⟨output, ho, rfl⟩ := Option.map_eq_some_iff.mp h
    exact ho
  · cases h

namespace Execution

/-- What a step adds to the shared state is what its result stands for. -/
theorem entries_stateAfter {a : Execution ω} (h : a.Fresh) :
    a.stateAfter.entries = a.state.entries ++ a.report.entry?.toList := by
  rcases conclusion h with ⟨output, -, hr, he⟩ | ⟨f, -, hr, he⟩
  · rw [he, hr]; rfl
  · rw [he, hr]; exact (List.append_nil _).symm

theorem merge_of_fresh {a : Execution ω} (h : a.Fresh) (output : Json) :
    ∃ next, a.state.merge a.aliasName output = .ok next := by
  have hfree : a.state.get? a.aliasName = none := Fields.get?_eq_none_iff.mpr h
  unfold State.merge
  rw [dif_pos hfree]
  exact ⟨_, rfl⟩

theorem succeeded_iff {a : Execution ω} (h : a.Fresh) :
    a.report.status = .succeeded ↔ ∃ output, a.outcome = .ok ⟨.succeeded, output⟩ := by
  rcases conclusion h with ⟨output, ho, hr, -⟩ | ⟨f, hf, hr, -⟩
  · rw [hr]; exact ⟨fun _ => ⟨output, ho⟩, fun _ => rfl⟩
  · rw [hr]
    constructor
    · intro hs; cases hs
    · rintro ⟨output, ho⟩
      rcases hf with he | ⟨_, he, -⟩
      · rw [ho] at he; cases he
      · rw [ho] at he; cases he

theorem stateAfter_of_errored {a : Execution ω} (h : a.Fresh) (hs : a.report.status = .errored) :
    a.stateAfter = a.state := by
  rcases conclusion h with ⟨output, -, hr, -⟩ | ⟨f, -, -, he⟩
  · rw [hr] at hs; cases hs
  · exact he

end Execution

section
variable [Cancellable ω] {registry : Registry ω} {workDir : String}

/-- The state behind the first `i` executions. -/
theorem entries_lastState {steps : List (Step × String)} {state : State} {w : ω}
    (hf : ∀ a ∈ history registry workDir steps state w, a.Fresh) (i : Nat) :
    (lastState state ((history registry workDir steps state w).take i)).entries =
      state.entries ++
        (((history registry workDir steps state w).take i).map Execution.report).filterMap
          StepReport.entry? := by
  induction steps generalizing state w i with
  | nil => simp [history, lastState]
  | cons pair rest ih =>
    obtain ⟨a, ha⟩ : ∃ a, execution registry workDir pair.1 pair.2 state (passes w) = a := ⟨_, rfl⟩
    have hstate : a.state = state := by rw [← ha]; rfl
    rw [history_cons _ _ _ _ _ ha] at hf ⊢
    obtain ⟨hfresh, hrest⟩ := List.forall_mem_cons.mp hf
    cases i with
    | zero => simp [lastState]
    | succ i =>
      have hcons (r : StepReport) (l : List StepReport) :
          (r :: l).filterMap StepReport.entry? =
            r.entry?.toList ++ l.filterMap StepReport.entry? := by
        rw [List.filterMap_cons]
        cases r.entry? <;> rfl
      rw [List.take_succ_cons, lastState_cons, List.map_cons, hcons, ← List.append_assoc,
        ← hstate, ← Execution.entries_stateAfter hfresh]
      split
      · rename_i hs
        rw [if_pos hs] at hrest
        exact ih hrest i
      · simp [lastState]

end

/-- The entries of the state that a run leaves are those that its results stand for. -/
theorem entries_reportOf [Cancellable ω] (steps : List Step) (registry : Registry ω)
    (ctx : RunContext) (w : ω) :
    (reportOf steps (executions steps registry ctx w)).state.entries =
      ((executions steps registry ctx w).map Execution.report).filterMap StepReport.entry? := by
  show (lastState .empty (executions steps registry ctx w)).entries = _
  have hf := executions_fresh steps registry ctx w
  unfold executions at hf ⊢
  cases ha : resolveAliases steps ctx.aliasStem with
  | error f => rfl
  | ok aliases =>
    rw [ha] at hf
    have hall := entries_lastState hf
      (history registry ctx.workDir (steps.zip aliases) .empty w).length
    rw [List.take_length] at hall
    exact hall

/-- The output of a step that has one is in the state that the run leaves. -/
theorem get?_of_report [Cancellable ω] {steps : List Step} {registry : Registry ω}
    {ctx : RunContext} {w : ω} {a : Execution ω} (ha : a ∈ executions steps registry ctx w)
    {output : Json} (h : a.report = .succeeded a.aliasName a.step.type (some output)) :
    (reportOf steps (executions steps registry ctx w)).state.get? a.aliasName = some output := by
  refine Fields.get?_of_mem (State.distinct _) ?_
  rw [entries_reportOf]
  exact List.mem_filterMap.mpr ⟨a.report, List.mem_map_of_mem ha, by rw [h]; rfl⟩

/-- **Mirror.** The entries of the state that a run returns are the aliases and outputs of the
results that succeeded with an output, in their order. Every step finds there exactly what the
results before it left, and its own alias free, so that recording its output cannot fail; a step
that did not succeed, whatever stopped it and whatever it had put out, leaves all as it was. -/
theorem state_mirrors_results [Cancellable ω] {steps : List Step} {registry : Registry ω}
    {ctx : RunContext} {w : ω} {r : RunReport} (h : (run steps registry ctx w).1 = .ok r) :
    r.state.entries = r.steps.filterMap StepReport.entry? ∧ r.state.aliases.Nodup ∧
      r.steps = (executions steps registry ctx w).map Execution.report ∧
      ∀ i a, (executions steps registry ctx w)[i]? = some a →
        executeStep registry ctx.workDir a.step a.aliasName a.state a.start =
          (a.outcome, a.finish) ∧
        a.state.entries = (r.steps.take i).filterMap StepReport.entry? ∧
        (∀ output, ∃ next, a.state.merge a.aliasName output = .ok next) ∧
        (a.report.status = .succeeded ↔ ∃ output, a.outcome = .ok ⟨.succeeded, output⟩) ∧
        (a.report.status = .errored → a.stateAfter = a.state ∧ r.state = a.state) := by
  obtain ⟨aliases, -, hh, rfl⟩ := run_ok h
  have hf := executions_fresh steps registry ctx w
  have htake (i : Nat) :
      (lastState .empty ((executions steps registry ctx w).take i)).entries =
        (((executions steps registry ctx w).map Execution.report).take i).filterMap
          StepReport.entry? := by
    rw [hh] at hf ⊢
    rw [entries_lastState hf i, List.map_take]
    rfl
  refine ⟨?_, (reportOf steps _).state.distinct, rfl, fun i a ha => ?_⟩
  · have hall := htake (executions steps registry ctx w).length
    rw [List.take_length, ← List.length_map, List.take_length] at hall
    exact hall
  · have hm := List.mem_of_getElem? ha
    have hfresh := hf a hm
    refine ⟨executions_executes hm, ?_, Execution.merge_of_fresh hfresh,
      Execution.succeeded_iff hfresh, fun hs => ?_⟩
    · have hstate : a.state = lastState .empty ((executions steps registry ctx w).take i) := by
        rw [hh] at ha ⊢
        exact (history_getElem ha).1
      rw [hstate]
      exact htake i
    · have hafter := Execution.stateAfter_of_errored hfresh hs
      have hlast : lastState .empty (executions steps registry ctx w) = a.stateAfter := by
        rw [hh] at ha ⊢
        unfold lastState
        rw [(history_halts ha hs).2]
        rfl
      exact ⟨hafter, hlast.trans hafter⟩

/-- Steps of which the third cancels the run while it is at work. -/
def lateSteps : List Step :=
  [⟨none, "echo", [("output", .null)]⟩, ⟨some "quiet", "echo", []⟩,
    ⟨some "late", "echo", [("cancel", .null), ("output", .bool true)]⟩, ⟨none, "echo", []⟩]

/-- An output that is `null` counts; that of the step which cancels the run does not. -/
theorem state_mirrors_results_late :
    ∃ r, (run lateSteps echoRegistry ⟨"/box", "step"⟩ ⟨false⟩).1 = .ok r ∧
      r.steps.map (·.status) = [.succeeded, .succeeded, .errored] ∧
      r.state.entries = [("step-0", .null)] ∧
      r.state.entries = r.steps.filterMap StepReport.entry? := by
  obtain ⟨r, hr, hs, he⟩ : ∃ r, (run lateSteps echoRegistry ⟨"/box", "step"⟩ ⟨false⟩).1 = .ok r ∧
      r.steps.map (·.status) = [.succeeded, .succeeded, .errored] ∧
      r.state.entries = [("step-0", .null)] :=
    ⟨_, rfl, by rfl, by rfl⟩
  exact ⟨r, hr, hs, he, (state_mirrors_results hr).1⟩

end StepPipeline

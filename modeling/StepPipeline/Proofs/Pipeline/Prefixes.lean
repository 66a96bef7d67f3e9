import StepPipeline.Proofs.Pipeline.Invocations

/-!
# Later steps cannot influence earlier ones

The aliases of all steps are resolved before any step runs, and checked against each other; the
default names carry positions. Nothing of this lets a step see what comes behind it: two pipelines
that begin with the same steps begin with the same executions.

**Halting (`RunReport.HaltsBefore`).** One of the first results is an error.

**Results.**
* `resolveAliases_take`: the first aliases are those of the first steps.
* `executions_take`: so the first executions depend on the first steps only.
* `runnerCalls_take`: and so do the first calls.
* `shared_steps_agree`: two runs that share their first steps agree as far as these go; and
  altogether, if one of them halts there.
-/
namespace StepPipeline

open Cancellable

variable {ω : Type}

/-! ## Aliases -/

/-- The first aliases are those of the first steps. -/
theorem resolveAliases_take {steps : List Step} {stem : String} {aliases : List String}
    (h : resolveAliases steps stem = .ok aliases) (k : Nat) :
    aliases.take k = (steps.take k).mapIdx (Step.aliasAt stem) := by
  rw [(resolveAliases_ok h).1]
  refine List.ext_getElem? fun i => ?_
  simp only [List.getElem?_take, List.getElem?_mapIdx]
  split <;> rfl

theorem zip_take_eq {steps steps' : List Step} {aliases aliases' : List String} {stem : String}
    {k : Nat} (hk : steps.take k = steps'.take k) (ha : resolveAliases steps stem = .ok aliases)
    (ha' : resolveAliases steps' stem = .ok aliases') :
    (steps.zip aliases).take k = (steps'.zip aliases').take k := by
  unfold List.zip
  rw [List.take_zipWith, List.take_zipWith, resolveAliases_take ha, resolveAliases_take ha', hk]

section
variable [Cancellable ω] {steps steps' : List Step} {registry : Registry ω} {ctx : RunContext}
  {w : ω} {k : Nat}

/-! ## Executions and calls -/

/-- The first executions depend on the first steps only. -/
theorem executions_take {aliases aliases' : List String} (hk : steps.take k = steps'.take k)
    (ha : resolveAliases steps ctx.aliasStem = .ok aliases)
    (ha' : resolveAliases steps' ctx.aliasStem = .ok aliases') :
    (executions steps registry ctx w).take k = (executions steps' registry ctx w).take k := by
  rw [executions_eq_history ha, executions_eq_history ha', ← history_take, ← history_take,
    zip_take_eq hk ha ha']

/-- The first calls are those of the first executions. -/
theorem runnerCalls_take (steps : List Step) (registry : Registry ω) (ctx : RunContext) (w : ω)
    (k : Nat) :
    (runnerCalls steps registry ctx w).take k =
      ((executions steps registry ctx w).take k).flatMap
        (Execution.calls registry ctx.workDir) := by
  obtain ⟨front, back, hfront, hreached, hback⟩ := executions_reach steps registry ctx w
  rw [runnerCalls_reached hfront hreached hback, hfront, flatMap_calls_reached hreached hback,
    List.map_take]

/-! ## Halting -/

/-- One of the first `k` results is an error. -/
def RunReport.HaltsBefore (r : RunReport) (k : Nat) : Prop :=
  ∃ i s, i < k ∧ r.steps[i]? = some s ∧ s.status = .errored

theorem haltsBefore_of_take {r r' : RunReport} (h : r.steps.take k = r'.steps.take k)
    (hr : r.HaltsBefore k) : r'.HaltsBefore k := by
  obtain ⟨i, s, hi, hs, he⟩ := hr
  refine ⟨i, s, hi, ?_, he⟩
  rw [← List.getElem?_take_of_lt hi] at hs ⊢
  rw [← h, hs]

/-- A run that halts among the first steps is over by then. -/
theorem length_of_haltsBefore
    (h : (reportOf steps (executions steps registry ctx w)).HaltsBefore k) :
    (executions steps registry ctx w).length ≤ k := by
  obtain ⟨i, s, hi, hs, he⟩ := h
  rw [reportOf, List.getElem?_map] at hs
  obtain ⟨a, ha, rfl⟩ := Option.map_eq_some_iff.mp hs
  unfold executions at ha ⊢
  split at ha
  · cases ha
  · rw [(history_halts ha he).1]
    exact hi

/-! ## Two runs -/

/-- Two runs that are the same, but for the number of steps that did not run. -/
structure Coincide (steps steps' : List Step) (registry : Registry ω) (ctx : RunContext) (w : ω)
    (r r' : RunReport) : Prop where
  results : r.steps = r'.steps
  state : r.state = r'.state
  status : r.status = r'.status
  calls : runnerCalls steps registry ctx w = runnerCalls steps' registry ctx w
  world : (run steps registry ctx w).2 = (run steps' registry ctx w).2
  notRun : (r'.summary.notRun : Int) - r.summary.notRun = (steps'.length : Int) - steps.length

theorem coincide_of_executions
    (h : executions steps registry ctx w = executions steps' registry ctx w) :
    Coincide steps steps' registry ctx w (reportOf steps (executions steps registry ctx w))
      (reportOf steps' (executions steps' registry ctx w)) := by
  have hle := length_executions_le steps registry ctx w
  have hle' := length_executions_le steps' registry ctx w
  rw [← h] at hle' ⊢
  refine ⟨rfl, rfl, rfl, ?_, ?_, ?_⟩
  · rw [runnerCalls_eq, runnerCalls_eq, h]
  · rw [run_eq, run_eq, h]
  · simp only [reportOf, Summary.ofReports, List.length_map]
    omega

/-- **Later steps.** Two runs that share their first `k` steps carry these out alike: they make the
same calls for them and have the same results. If one of them halts there, both do, and they are
the same but for the steps that did not run. So steps that are appended change no result. -/
theorem shared_steps_agree {r r' : RunReport} (hk : steps.take k = steps'.take k)
    (hr : (run steps registry ctx w).1 = .ok r) (hr' : (run steps' registry ctx w).1 = .ok r') :
    (executions steps registry ctx w).take k = (executions steps' registry ctx w).take k ∧
      (runnerCalls steps registry ctx w).take k = (runnerCalls steps' registry ctx w).take k ∧
      r.steps.take k = r'.steps.take k ∧
      (r.HaltsBefore k ↔ r'.HaltsBefore k) ∧
      (r.HaltsBefore k → Coincide steps steps' registry ctx w r r') ∧
      (steps <+: steps' → r'.steps.take steps.length = r.steps) := by
  obtain ⟨aliases, ha, -, rfl⟩ := run_ok hr
  obtain ⟨aliases', ha', -, rfl⟩ := run_ok hr'
  have hexec : (executions steps registry ctx w).take k =
      (executions steps' registry ctx w).take k := executions_take hk ha ha'
  have hreports : (reportOf steps (executions steps registry ctx w)).steps.take k =
      (reportOf steps' (executions steps' registry ctx w)).steps.take k := by
    rw [reportOf, reportOf, ← List.map_take, ← List.map_take, hexec]
  refine ⟨hexec, ?_, hreports, ⟨haltsBefore_of_take hreports, haltsBefore_of_take hreports.symm⟩,
    fun hhalts => ?_, fun hprefix => ?_⟩
  · rw [runnerCalls_take, runnerCalls_take, hexec]
  · have hlen := length_of_haltsBefore hhalts
    have hlen' := length_of_haltsBefore (haltsBefore_of_take hreports hhalts)
    rw [List.take_of_length_le hlen, List.take_of_length_le hlen'] at hexec
    exact coincide_of_executions hexec
  · have hall : steps.take steps.length = steps'.take steps.length := by
      rw [List.take_length]
      exact List.prefix_iff_eq_take.mp hprefix
    have hfirst : executions steps registry ctx w =
        (executions steps' registry ctx w).take steps.length := by
      rw [← executions_take hall ha ha',
        List.take_of_length_le (length_executions_le steps registry ctx w)]
    rw [reportOf, reportOf, hfirst, List.map_take]

end

/-- Steps that begin as `bareSteps` do, and go on otherwise. -/
def bareLateSteps : List Step := bareSteps.take 2 ++ lateSteps

theorem shared_steps_agree_bare :
    ∃ r r', bareSteps.take 2 = bareLateSteps.take 2 ∧
      (run bareSteps echoRegistry ⟨"/box", "step"⟩ ⟨false⟩).1 = .ok r ∧
      (run bareLateSteps echoRegistry ⟨"/box", "step"⟩ ⟨false⟩).1 = .ok r' ∧
      r.HaltsBefore 2 ∧
      Coincide bareSteps bareLateSteps echoRegistry ⟨"/box", "step"⟩ ⟨false⟩ r r' ∧
      r.summary.notRun = 1 ∧ r'.summary.notRun = 4 := by
  obtain ⟨r, hr, hhalts, hnot⟩ :
      ∃ r, (run bareSteps echoRegistry ⟨"/box", "step"⟩ ⟨false⟩).1 = .ok r ∧ r.HaltsBefore 2 ∧
        r.summary.notRun = 1 :=
    ⟨_, rfl, ⟨1, _, by decide, rfl, rfl⟩, by rfl⟩
  obtain ⟨r', hr', hnot'⟩ :
      ∃ r', (run bareLateSteps echoRegistry ⟨"/box", "step"⟩ ⟨false⟩).1 = .ok r' ∧
        r'.summary.notRun = 4 :=
    ⟨_, rfl, by rfl⟩
  have hk : bareSteps.take 2 = bareLateSteps.take 2 := rfl
  obtain ⟨-, -, -, -, hcoincide, -⟩ := shared_steps_agree hk hr hr'
  exact ⟨r, r', hk, hr, hr', hhalts, hcoincide hhalts, hnot, hnot'⟩

end StepPipeline

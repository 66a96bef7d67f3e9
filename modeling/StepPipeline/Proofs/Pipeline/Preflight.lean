import StepPipeline.Pipeline.Plan
import StepPipeline.Proofs.Pipeline.Calls
import StepPipeline.Proofs.Pipeline.Halting

/-!
# Plans foresee runs

A plan resolves the aliases, looks up the types and validates the configurations of all steps before
anything runs; a run does the same again, step by step, between the runners. The two are separate
code. Here they are held against each other.

**Findings (`Finding`).** What a plan can find about a step: it is ready, or its type is missing, or
its configuration is invalid. Each says how carrying out the step begins (`stepCalls_cases`).

**Results.**
* `history_calls`: no runner is called for a step that is not ready, nor for any behind it.
* `history_stops`: a run whose steps succeed up to one that is not ready stops there, with the error
  of its entry.
* `execution_ready`: the outcome of a step that is ready is what its runner returned.
* `plan_foresees_run`: so a plan and a run agree, also on whether there is one.
-/
namespace StepPipeline

open Cancellable

variable {ω : Type}

/-! ## Findings -/

/-- What a plan can find about a step, and the failure that it found. -/
inductive Finding (registry : Registry ω) (step : Step) : Readiness → Option Failure → Prop where
  | ready {entry : Registration ω} (hl : registry.lookup step.type = .ok entry)
    (hv : entry.validate step.type (.object step.config) = .ok ()) :
    Finding registry step .ready none
  | missing {f : Failure} (hl : registry.lookup step.type = .error f)
    (hc : f.code = .stepNotFound) :
    Finding registry step .missing (some f)
  | invalid {entry : Registration ω} {f : Failure} (hl : registry.lookup step.type = .ok entry)
    (hv : entry.validate step.type (.object step.config) = .error f)
    (hc : f.code = .configSchemaViolation) :
    Finding registry step .invalid (some f)

theorem lookup_error {registry : Registry ω} {stepType : String} {f : Failure}
    (h : registry.lookup stepType = .error f) :
    f = .of (.stepNotFound stepType registry.stepTypes) := by
  unfold Registry.lookup at h
  split at h
  · cases h
  · cases h; rfl

theorem validate_error {entry : Registration ω} {stepType : String} {config : Json} {f : Failure}
    (h : entry.validate stepType config = .error f) :
    ∃ violations, f = .of (.schemaViolation stepType violations) := by
  unfold Registration.validate Schema.validate at h
  split at h
  · cases h
  · cases h; exact ⟨_, rfl⟩

theorem lookup_code {registry : Registry ω} {stepType : String} {f : Failure}
    (h : registry.lookup stepType = .error f) : f.code = .stepNotFound := by
  rw [lookup_error h]
  rfl

theorem validate_code {entry : Registration ω} {stepType : String} {config : Json} {f : Failure}
    (h : entry.validate stepType config = .error f) : f.code = .configSchemaViolation := by
  obtain ⟨violations, rfl⟩ := validate_error h
  rfl

/-- The entry of a step says what was found, and no more. -/
theorem ofStep_finding (registry : Registry ω) (aliasName : String) (step : Step) :
    ∃ readiness failure, Finding registry step readiness failure ∧
      PlanEntry.ofStep registry aliasName step =
        ⟨aliasName, step.type, readiness, failure.map (·.message), failure.map (·.details)⟩ := by
  unfold PlanEntry.ofStep
  cases hl : registry.lookup step.type with
  | error f => exact ⟨_, _, .missing hl (lookup_code hl), rfl⟩
  | ok entry =>
    cases hv : entry.validate step.type (.object step.config) with
    | error f => exact ⟨_, _, .invalid hl hv (validate_code hv), by simp [hv]⟩
    | ok _ => exact ⟨_, _, .ready hl hv, by simp [hv]⟩

/-- The alias and the type of the step that an entry is about. -/
def PlanEntry.names (e : PlanEntry) : String × String := (e.aliasName, e.type)

theorem names_ofStep (registry : Registry ω) (aliasName : String) (step : Step) :
    (PlanEntry.ofStep registry aliasName step).names = (aliasName, step.type) := by
  obtain ⟨readiness, failure, -, he⟩ := ofStep_finding registry aliasName step
  rw [he]
  rfl

theorem error_ofStep (registry : Registry ω) (aliasName : String) (step : Step) :
    ((PlanEntry.ofStep registry aliasName step).error.isSome ↔
        (PlanEntry.ofStep registry aliasName step).status ≠ .ready) ∧
      ((PlanEntry.ofStep registry aliasName step).details.isSome ↔
        (PlanEntry.ofStep registry aliasName step).status ≠ .ready) := by
  obtain ⟨readiness, failure, hf, he⟩ := ofStep_finding registry aliasName step
  rw [he]
  cases hf <;> simp

theorem Finding.ready_unique {step : Step} {readiness : Readiness} {failure : Option Failure}
    (hr : Finding registry step .ready none) (h : Finding registry step readiness failure) :
    readiness = .ready := by
  cases hr with
  | ready hl hv =>
    cases h with
    | ready => rfl
    | missing hl' _ => rw [hl] at hl'; cases hl'
    | invalid hl' hv' _ =>
      rw [hl] at hl'
      cases hl'
      rw [hv] at hv'
      cases hv'

theorem Finding.code {registry : Registry ω} {step : Step} {readiness : Readiness} {f : Failure}
    (h : Finding registry step readiness (some f)) :
    (readiness = .missing → f.code = .stepNotFound) ∧
      (readiness = .invalid → f.code = .configSchemaViolation) := by
  cases h with
  | missing _ hc => exact ⟨fun _ => hc, nofun⟩
  | invalid _ _ hc => exact ⟨nofun, fun _ => hc⟩

/-! ## What a finding says of a step -/

/-- The entries of steps with their aliases. -/
def entriesOf (registry : Registry ω) (steps : List (Step × String)) : List PlanEntry :=
  steps.map fun pair => PlanEntry.ofStep registry pair.2 pair.1

theorem names_entriesOf (registry : Registry ω) (steps : List (Step × String)) :
    (entriesOf registry steps).map PlanEntry.names =
      steps.map fun pair => (pair.2, pair.1.type) := by
  unfold entriesOf
  rw [List.map_map]
  exact List.map_congr_left fun pair _ => names_ofStep registry pair.2 pair.1

section
variable [Cancellable ω] {registry : Registry ω} {workDir : String}

/-- A step fails without a call, or is ready and calls its runner once. -/
theorem stepCalls_cases (registry : Registry ω) (workDir : String) (step : Step)
    (aliasName : String) (state : State) (w : ω) :
    (∃ f, executeStep registry workDir step aliasName state w = (.error f, w) ∧
        stepCalls registry workDir step aliasName state w = []) ∨
      Finding registry step .ready none ∧
        stepCalls registry workDir step aliasName state w =
          [⟨step.type, contextOf workDir step aliasName state⟩] := by
  rcases he : executeStep registry workDir step aliasName state w with ⟨outcome, w'⟩
  unfold stepCalls
  cases executeStep_ends he with
  | cancelled hc => exact Or.inl ⟨_, rfl, by simp [hc]⟩
  | missing hc hl => exact Or.inl ⟨_, rfl, by simp [hc, hl]⟩
  | invalid hc hl hv => exact Or.inl ⟨_, rfl, by simp [hc, hl, hv]⟩
  | failed hc hl hv hr => exact Or.inr ⟨.ready hl hv, by simp [hc, hl, hv]⟩
  | overtaken hc hl hv hr hc' => exact Or.inr ⟨.ready hl hv, by simp [hc, hl, hv]⟩
  | done hc hl hv hr hc' => exact Or.inr ⟨.ready hl hv, by simp [hc, hl, hv]⟩

theorem executeStep_of_finding {step : Step} {readiness : Readiness} {f : Failure}
    (h : Finding registry step readiness (some f)) (aliasName : String) (state : State) {w : ω}
    (hc : cancelled w = false) :
    executeStep registry workDir step aliasName state w = (.error f, w) := by
  unfold executeStep
  cases h with
  | missing hl _ => simp [hc, hl]
  | invalid hl hv _ => simp [hc, hl, hv]

/-- **Calls.** No runner is called for a step that is not ready, nor for any behind it; those before
it are called in order, each at most once. -/
theorem history_calls {steps : List (Step × String)} {state : State} {w : ω} {k : Nat}
    {e : PlanEntry} (hk : (entriesOf registry steps)[k]? = some e) (he : e.status ≠ .ready) :
    ((history registry workDir steps state w).flatMap (Execution.calls registry workDir)).map
        Call.names <+:
      ((entriesOf registry steps).take k).map PlanEntry.names := by
  induction steps generalizing state w k with
  | nil => simp [entriesOf] at hk
  | cons pair rest ih =>
    obtain ⟨step, aliasName⟩ := pair
    obtain ⟨v, hv⟩ : ∃ v, passes w = v := ⟨_, rfl⟩
    obtain ⟨a, ha⟩ : ∃ a, execution registry workDir step aliasName state v = a := ⟨_, rfl⟩
    rw [history_cons _ _ _ _ _ (hv ▸ ha), List.flatMap_cons, List.map_append]
    have hcalls : a.calls registry workDir = stepCalls registry workDir step aliasName state v := by
      rw [← ha]; rfl
    rcases stepCalls_cases registry workDir step aliasName state v with ⟨f, hf, hnone⟩ | ⟨hr, hone⟩
    · -- The step failed: nothing was called, and nothing comes behind it.
      have hout : a.outcome = .error f := by rw [← ha, execution, hf]
      rw [Execution.report_of_error hout, if_neg (by simp [StepReport.errored]), hcalls, hnone]
      exact List.nil_prefix
    · cases k with
      | zero =>
        obtain ⟨readiness, failure, hfind, hentry⟩ := ofStep_finding registry aliasName step
        have hready := hr.ready_unique hfind
        simp only [entriesOf, List.map_cons, List.getElem?_cons_zero, Option.some.injEq] at hk
        rw [← hk, hentry] at he
        exact absurd hready he
      | succ k =>
        have hk' : (entriesOf registry rest)[k]? = some e := hk
        rw [hcalls, hone]
        show _ :: _ <+: (PlanEntry.ofStep registry aliasName step).names :: _
        rw [names_ofStep]
        refine List.cons_prefix_cons.mpr ⟨rfl, ?_⟩
        split
        · exact ih hk'
        · exact List.nil_prefix

/-- In a run that is never cancelled, a step that is not ready fails with the error of its entry,
and stops the run, if the steps before it succeed. -/
theorem history_stops {steps : List (Step × String)} {state : State} {w : ω} {k : Nat}
    {e : PlanEntry} (hk : (entriesOf registry steps)[k]? = some e) (he : e.status ≠ .ready)
    (hc : ∀ a ∈ history registry workDir steps state w, cancelled a.start = false)
    (hs : ∀ a ∈ (history registry workDir steps state w).take k, a.report.status = .succeeded) :
    ∃ a f, (history registry workDir steps state w)[k]? = some a ∧
      (history registry workDir steps state w).length = k + 1 ∧
      Finding registry a.step e.status (some f) ∧ a.outcome = .error f ∧
      e = ⟨a.aliasName, a.step.type, e.status, some f.message, some f.details⟩ := by
  have hksteps : k < steps.length := by
    have hlt := (List.getElem?_eq_some_iff.mp hk).1
    rwa [entriesOf, List.length_map] at hlt
  have hlen : k < (history registry workDir steps state w).length := by
    by_cases hle : (history registry workDir steps state w).length ≤ k
    · rw [List.take_of_length_le hle] at hs
      have hall := history_complete hs
      omega
    · omega
  obtain ⟨a, ha⟩ : ∃ a, (history registry workDir steps state w)[k]? = some a :=
    ⟨_, List.getElem?_eq_getElem hlen⟩
  have hm := List.mem_of_getElem? ha
  have hentry : PlanEntry.ofStep registry a.aliasName a.step = e := by
    rw [entriesOf, List.getElem?_map, history_step_at ha] at hk
    simpa using hk
  obtain ⟨readiness, failure, hfind, hfound⟩ := ofStep_finding registry a.aliasName a.step
  rw [hentry] at hfound
  subst hfound
  cases failure with
  | none => cases hfind; exact absurd rfl he
  | some f =>
    have hexec := history_executes hm
    rw [executeStep_of_finding hfind a.aliasName a.state (hc a hm), Prod.mk.injEq] at hexec
    have hout : a.outcome = .error f := hexec.1.symm
    have herr : a.report.status = .errored := by rw [Execution.report_of_error hout]; rfl
    exact ⟨a, f, ha, (history_halts ha herr).1, hfind, hout, rfl⟩

/-- The outcome of a step that is ready is what its runner returned, unless the run was
cancelled. -/
theorem execution_ready {step : Step} {aliasName : String} {state : State} {w w' : ω}
    {outcome : Except Failure StepResult} (hr : Finding registry step .ready none)
    (h : executeStep registry workDir step aliasName state w = (outcome, w'))
    (hc : cancelled w = false) (hc' : cancelled w' = false) :
    ∃ entry, registry.lookup step.type = .ok entry ∧
      entry.validate step.type (.object step.config) = .ok () ∧
      entry.runner (contextOf workDir step aliasName state) w = (outcome, w') := by
  cases hr with
  | @ready entry hl hv =>
    refine ⟨entry, hl, hv, ?_⟩
    cases executeStep_ends h with
    | cancelled hcancel => rw [hc] at hcancel; cases hcancel
    | missing _ hl' => rw [hl] at hl'; cases hl'
    | invalid _ hl' hv' => rw [hl] at hl'; cases hl'; rw [hv] at hv'; cases hv'
    | failed _ hl' _ hrun => rw [hl] at hl'; cases hl'; exact hrun
    | overtaken _ _ _ _ hcancel => rw [hc'] at hcancel; cases hcancel
    | done _ hl' _ hrun _ => rw [hl] at hl'; cases hl'; exact hrun

end

/-! ## Plan and run -/

theorem plan_eq (steps : List Step) (registry : Registry ω) (aliasStem : String) :
    plan steps registry aliasStem =
      (resolveAliases steps aliasStem).map fun aliases =>
        ⟨entriesOf registry (steps.zip aliases)⟩ := by
  unfold plan entriesOf
  cases resolveAliases steps aliasStem with
  | error f => rfl
  | ok aliases =>
    show Except.ok (Plan.mk _) = Except.ok (Plan.mk _)
    rw [List.map_zip_eq_zipWith, List.zipWith_comm]
    rfl

theorem distinct_entriesOf {steps : List Step} {registry : Registry ω} {aliasStem : String}
    {aliases : List String} (ha : resolveAliases steps aliasStem = .ok aliases) :
    ((entriesOf registry (steps.zip aliases)).map (·.aliasName)).Nodup := by
  have hnames := congrArg (List.map Prod.fst) (names_entriesOf registry (steps.zip aliases))
  rw [List.map_map, List.map_map] at hnames
  have hlen := length_of_resolveAliases ha
  show ((entriesOf registry (steps.zip aliases)).map (Prod.fst ∘ PlanEntry.names)).Nodup
  rw [hnames]
  show ((steps.zip aliases).map Prod.snd).Nodup
  rw [List.map_snd_zip (by omega)]
  exact (resolveAliases_ok ha).2

/-- The report on a step that was stopped by what the plan found says so in its words. -/
theorem report_of_finding {registry : Registry ω} {a : Execution ω} {e : PlanEntry} {f : Failure}
    (hfind : Finding registry a.step e.status (some f)) (hout : a.outcome = .error f)
    (he : e = ⟨a.aliasName, a.step.type, e.status, some f.message, some f.details⟩) :
    a.report.status = .errored ∧
      (e.status = .missing → a.report.errorCode = some "step.not_found") ∧
      (e.status = .invalid → a.report.errorCode = some "config.schema_violation") ∧
      e.error = some f.message ∧
      a.report.error =
        some ("step '" ++ e.aliasName ++ "' (" ++ e.type ++ "): " ++ f.message) := by
  have htells := StepReport.tells_errored a.aliasName a.step.type f
  rw [Execution.report_of_error hout]
  refine ⟨rfl, fun hmissing => ?_, fun hinvalid => ?_, by rw [he], ?_⟩
  · rw [htells.errorCode, hfind.code.1 hmissing]; rfl
  · rw [htells.errorCode, hfind.code.2 hinvalid]; rfl
  · rw [htells.error, he]; rfl

section
variable [Cancellable ω]

/-- The token of a run is not cancelled when a step starts, nor when it ends. -/
def NeverCancelled (h : List (Execution ω)) : Prop :=
  ∀ a ∈ h, cancelled a.start = false ∧ cancelled a.finish = false

/-- What a plan foresees of a run of the same steps. -/
structure Foreseen (steps : List Step) (registry : Registry ω) (ctx : RunContext) (w : ω) (p : Plan)
    (r : RunReport) : Prop where
  /-- The results are those of the first entries. -/
  names : r.steps.map (fun s => (s.aliasName, s.type)) <+: p.steps.map PlanEntry.names
  distinct : (p.steps.map (·.aliasName)).Nodup
  faults : ∀ e ∈ p.steps,
    (e.error.isSome ↔ e.status ≠ .ready) ∧ (e.details.isSome ↔ e.status ≠ .ready)
  /-- The runner of a step that is not ready, or of one behind it, is not called. -/
  calls : ∀ k e, p.steps[k]? = some e → e.status ≠ .ready →
    (runnerCalls steps registry ctx w).map Call.names <+: (p.steps.take k).map PlanEntry.names
  /-- A step that is not ready stops the run, with the error of its entry. -/
  stops : ∀ k e, p.steps[k]? = some e → e.status ≠ .ready →
    NeverCancelled (executions steps registry ctx w) →
    (∀ s ∈ r.steps.take k, s.status = .succeeded) →
    r.steps.length = k + 1 ∧ ∃ s text, r.steps[k]? = some s ∧ s.status = .errored ∧
      (e.status = .missing → s.errorCode = some "step.not_found") ∧
      (e.status = .invalid → s.errorCode = some "config.schema_violation") ∧
      e.error = some text ∧
      s.error = some ("step '" ++ e.aliasName ++ "' (" ++ e.type ++ "): " ++ text)
  /-- If every step is ready, every result tells what the runner of its step returned. -/
  ready : p.isReady → NeverCancelled (executions steps registry ctx w) →
    ∀ (i : Nat) (s : StepReport), r.steps[i]? = some s →
      ∃ (a : Execution ω) (entry : Registration ω),
        (executions steps registry ctx w)[i]? = some a ∧ a.report = s ∧
        registry.lookup a.step.type = .ok entry ∧
        entry.validate a.step.type (.object a.step.config) = .ok () ∧
        entry.runner (contextOf ctx.workDir a.step a.aliasName a.state) a.start =
          (a.outcome, a.finish) ∧
        (s.status = .errored → ∃ f, a.FailsWith f ∧ s.Tells f)

/-- In a plan that is ready, every step that was started is. -/
theorem ready_of_isReady {steps : List (Step × String)} {state : State} {w : ω}
    {registry : Registry ω} {workDir : String} {a : Execution ω}
    (hready : (Plan.mk (entriesOf registry steps)).isReady)
    (ha : a ∈ history registry workDir steps state w) :
    Finding registry a.step .ready none := by
  obtain ⟨i, hi⟩ := List.getElem?_of_mem ha
  obtain ⟨readiness, failure, hfind, hentry⟩ := ofStep_finding registry a.aliasName a.step
  have hall := List.all_eq_true.mp hready (PlanEntry.ofStep registry a.aliasName a.step)
    (List.mem_map_of_mem (List.mem_of_getElem? (history_step_at hi)))
  rw [hentry] at hall
  obtain rfl : readiness = .ready := by simpa using hall
  cases hfind with
  | ready hl hv => exact .ready hl hv

/-- Whatever is foreseen follows from the history of the run. -/
theorem run_foreseen {steps : List Step} {registry : Registry ω} {ctx : RunContext} {w : ω}
    {p : Plan} {r : RunReport} (hp : plan steps registry ctx.aliasStem = .ok p)
    (hr : (run steps registry ctx w).1 = .ok r) : Foreseen steps registry ctx w p r := by
  obtain ⟨aliases, ha, hh, rfl⟩ := run_ok hr
  rw [plan_eq, ha] at hp
  cases hp
  have hreport (i : Nat) :
      (reportOf steps (executions steps registry ctx w)).steps[i]? =
        (executions steps registry ctx w)[i]?.map Execution.report :=
    List.getElem?_map
  refine ⟨?_, distinct_entriesOf ha, ?_, fun k e hk he => ?_, fun k e hk he hc hs => ?_,
    fun hready hc i s hi => ?_⟩
  · rw [names_entriesOf, hh]
    exact history_names registry ctx.workDir (steps.zip aliases) .empty w
  · intro e he
    obtain ⟨pair, -, rfl⟩ := List.mem_map.mp he
    exact error_ofStep registry pair.2 pair.1
  · rw [runnerCalls_eq, hh]
    exact history_calls hk he
  · have hs' : ∀ a ∈ (executions steps registry ctx w).take k, a.report.status = .succeeded := by
      intro a hm
      refine hs a.report ?_
      show a.report ∈ ((executions steps registry ctx w).map Execution.report).take k
      rw [← List.map_take]
      exact List.mem_map_of_mem hm
    rw [hh] at hc hs'
    obtain ⟨a, f, hka, hlen, hfind, hout, hentry⟩ :=
      history_stops hk he (fun a hm => (hc a hm).1) hs'
    rw [← hh] at hka hlen
    refine ⟨(List.length_map ..).trans hlen, a.report, f.message, ?_,
      report_of_finding hfind hout hentry⟩
    rw [hreport, hka]
    rfl
  · rw [hreport] at hi
    obtain ⟨a, hia, rfl⟩ := Option.map_eq_some_iff.mp hi
    have hm := List.mem_of_getElem? hia
    have hfind : Finding registry a.step .ready none := by
      rw [hh] at hm
      exact ready_of_isReady hready hm
    obtain ⟨entry, hl, hv, hrun⟩ :=
      execution_ready hfind (executions_executes hm) (hc a hm).1 (hc a hm).2
    refine ⟨a, entry, hia, rfl, hl, hv, hrun, fun he => ?_⟩
    rcases Execution.sound_or_tells (executions_fresh steps registry ctx w a hm) with hs | ⟨-, hf⟩
    · rw [hs.status] at he; cases he
    · exact hf

/-- **Preflight.** A plan fails if and only if the run does, with the same error, and then no runner
is called and the world stays as it was. Otherwise the plan foresees the run. -/
theorem plan_foresees_run (steps : List Step) (registry : Registry ω) (ctx : RunContext) (w : ω) :
    (∀ f, plan steps registry ctx.aliasStem = .error f ↔ (run steps registry ctx w).1 = .error f) ∧
      (∀ f, plan steps registry ctx.aliasStem = .error f →
        runnerCalls steps registry ctx w = [] ∧ (run steps registry ctx w).2 = w) ∧
      ∀ p r, plan steps registry ctx.aliasStem = .ok p → (run steps registry ctx w).1 = .ok r →
        Foreseen steps registry ctx w p r := by
  refine ⟨fun f => ?_, fun f hf => ?_, fun p r hp hr => run_foreseen hp hr⟩
  · rw [plan_eq, run_eq]
    cases resolveAliases steps ctx.aliasStem <;> simp [Except.map]
  · rw [plan_eq] at hf
    have hnone : executions steps registry ctx w = [] := by
      unfold executions
      cases ha : resolveAliases steps ctx.aliasStem with
      | error f => rfl
      | ok aliases => rw [ha] at hf; cases hf
    rw [runnerCalls_eq, run_eq, hnone]
    exact ⟨rfl, rfl⟩

end

/-- The step behind the one that is not ready is ready, but its runner is not called. -/
theorem plan_foresees_run_bare :
    ∃ p r, plan bareSteps echoRegistry "step" = .ok p ∧
      (run bareSteps echoRegistry ⟨"/box", "step"⟩ ⟨false⟩).1 = .ok r ∧
      p.steps.map (·.status) = [.ready, .invalid, .ready] ∧
      (runnerCalls bareSteps echoRegistry ⟨"/box", "step"⟩ ⟨false⟩).map Call.names <+:
        [("step-0", "echo")] ∧
      r.steps.length = 2 := by
  obtain ⟨p, hp, hstatus, hnames⟩ : ∃ p, plan bareSteps echoRegistry "step" = .ok p ∧
      p.steps.map (·.status) = [.ready, .invalid, .ready] ∧
      (p.steps.take 1).map PlanEntry.names = [("step-0", "echo")] :=
    ⟨_, rfl, by rfl, by rfl⟩
  obtain ⟨r, hr, hfirst⟩ :
      ∃ r, (run bareSteps echoRegistry ⟨"/box", "step"⟩ ⟨false⟩).1 = .ok r ∧
        (r.steps.take 1).map (·.status) = [.succeeded] :=
    ⟨_, rfl, by rfl⟩
  have hnever : NeverCancelled (executions bareSteps echoRegistry ⟨"/box", "step"⟩ ⟨false⟩) :=
    List.forall_mem_cons.mpr ⟨⟨rfl, rfl⟩, List.forall_mem_cons.mpr ⟨⟨rfl, rfl⟩, nofun⟩⟩
  obtain ⟨e, he, hinvalid⟩ : ∃ e, p.steps[1]? = some e ∧ e.status = .invalid := by
    have h1 := congrArg (·[1]?) hstatus
    simpa using h1
  have hunready : e.status ≠ .ready := by simp [hinvalid]
  obtain ⟨-, -, hforesee⟩ :=
    plan_foresees_run bareSteps echoRegistry ⟨"/box", "step"⟩ (⟨false⟩ : Token)
  have hf := hforesee p r hp hr
  refine ⟨p, r, hp, hr, hstatus, hnames ▸ hf.calls 1 e he hunready, ?_⟩
  refine (hf.stops 1 e he hunready hnever fun s hs => ?_).1
  have hm := List.mem_map_of_mem (f := (·.status)) hs
  rw [hfirst] at hm
  simpa using hm

end StepPipeline

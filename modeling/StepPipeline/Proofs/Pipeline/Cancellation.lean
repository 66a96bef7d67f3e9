import StepPipeline.Proofs.Pipeline.Outputs
import StepPipeline.Proofs.Pipeline.Preflight

/-!
# Cancelled runs

A run looks at its token twice for each step: before anything else is done for the step, and once
its runner has returned a result. A runner that fails is believed, cancelled or not.

**Coming to a step (`ComesTo`).** The steps before it, run by themselves, all succeed; the step finds
the state that they leave, and what has become of the world.

**Stopping (`RunReport.StopsAt`).** The result of the step is the last one and tells of the failure,
the results before it have succeeded, and the shared state holds their outputs and no other.

**Results.**
* `history_comesTo`: a run that comes to a step starts it, in the state and the world left to it.
* `reportOf_stopsAt`: a run stops at a step whose execution failed.
* `runnerCalls_failed`: by then the runners of the steps before were called, once each and in order,
  and at most the runner of the step itself.
* `cancelled_run_stops`: so a token that is cancelled, before a step or during it, stops the run
  there.
-/
namespace StepPipeline

open Cancellable

variable {ω : Type}

section
variable [Cancellable ω] {registry : Registry ω} {workDir : String}

/-! ## Coming to a step -/

/-- The steps before step `i` all succeed and leave `state`, and the world has become `v`. -/
def ComesTo (registry : Registry ω) (workDir : String) (steps : List (Step × String)) (w : ω)
    (i : Nat) (state : State) (v : ω) : Prop :=
  ∃ reports left, runSteps registry workDir (steps.take i) .empty w = (reports, state, left) ∧
    passes left = v ∧ ∀ s ∈ reports, s.status = .succeeded

/-- The first steps run by themselves as they do with others behind them. -/
theorem history_take (steps : List (Step × String)) (state : State) (w : ω) (i : Nat) :
    history registry workDir (steps.take i) state w =
      (history registry workDir steps state w).take i := by
  induction steps generalizing state w i with
  | nil => simp [history]
  | cons pair rest ih =>
    cases i with
    | zero => simp [history]
    | succ i =>
      rw [List.take_succ_cons, history_cons _ _ _ _ _ rfl, history_cons _ _ _ _ _ rfl,
        List.take_succ_cons]
      split
      · rw [ih]
      · rw [List.take_nil]

theorem history_comesTo {steps : List (Step × String)} {w : ω} {i : Nat} {step : Step}
    {aliasName : String} {state : State} {v : ω} (hi : steps[i]? = some (step, aliasName))
    (h : ComesTo registry workDir steps w i state v) :
    ∃ a, (history registry workDir steps .empty w)[i]? = some a ∧ a.step = step ∧
      a.aliasName = aliasName ∧ a.state = state ∧ a.start = v := by
  obtain ⟨reports, left, hrun, rfl, hs⟩ := h
  rw [runSteps_eq, history_take] at hrun
  simp only [Prod.mk.injEq] at hrun
  obtain ⟨rfl, rfl, rfl⟩ := hrun
  have hlt : i < steps.length := (List.getElem?_eq_some_iff.mp hi).1
  -- If the run had stopped earlier, its last result would be among those before step `i`.
  have hlen : i < (history registry workDir steps .empty w).length := by
    by_cases hle : (history registry workDir steps .empty w).length ≤ i
    · rw [List.take_of_length_le hle] at hs
      have hall := history_complete fun a ha => hs _ (List.mem_map_of_mem ha)
      omega
    · omega
  obtain ⟨a, ha⟩ : ∃ a, (history registry workDir steps .empty w)[i]? = some a :=
    ⟨_, List.getElem?_eq_getElem hlen⟩
  have hstep := history_step_at ha
  rw [hi, Option.some.injEq, Prod.mk.injEq] at hstep
  obtain ⟨hstate, hstart, -⟩ := history_getElem ha
  exact ⟨a, ha, hstep.1.symm, hstep.2.symm, hstate, hstart⟩

/-! ## Stopping at a step -/

/-- A run that was stopped by the failure `f` of step `i`. -/
structure RunReport.StopsAt (r : RunReport) (i : Nat) (aliasName : String) (f : Failure) :
    Prop where
  last : r.steps.length = i + 1
  told : ∃ s, r.steps[i]? = some s ∧ s.aliasName = aliasName ∧ s.status = .errored ∧ s.Tells f
  before : ∀ s ∈ r.steps.take i, s.status = .succeeded
  kept : r.state.entries = (r.steps.take i).filterMap StepReport.entry?
  dropped : aliasName ∉ r.state.aliases

/-- An execution that failed is the last one. Those before it have succeeded, and it has found their
outputs in the shared state. -/
theorem executions_failed {steps : List Step} {ctx : RunContext} {w : ω} {i : Nat}
    {a : Execution ω} {f : Failure} (ha : (executions steps registry ctx w)[i]? = some a)
    (ho : a.outcome = .error f) :
    ∃ front, executions steps registry ctx w = front ++ [a] ∧ front.length = i ∧
      (∀ b ∈ front, b.report.status = .succeeded) ∧
      a.state.entries = (front.map Execution.report).filterMap StepReport.entry? := by
  have hfresh := executions_fresh steps registry ctx w
  have herr : a.report.status = .errored := by rw [Execution.report_of_error ho]; rfl
  obtain ⟨names, hh⟩ : ∃ names, executions steps registry ctx w =
      history registry ctx.workDir (steps.zip names) .empty w := by
    unfold executions at ha ⊢
    split at ha
    · cases ha
    · exact ⟨_, rfl⟩
  rw [hh] at ha hfresh ⊢
  obtain ⟨hlen, hlast⟩ := history_halts ha herr
  obtain ⟨hstate, -, hbefore⟩ := history_getElem ha
  have hentries := entries_lastState hfresh i
  obtain ⟨front, hfront⟩ := List.getLast?_eq_some_iff.mp hlast
  rw [hfront, List.length_append, List.length_singleton] at hlen
  have hi : front.length = i := by omega
  rw [hfront, ← hi, List.take_left] at hstate hbefore hentries
  refine ⟨front, hfront, hi, hbefore, ?_⟩
  rw [hstate, hentries]
  rfl

theorem reportOf_stopsAt {steps : List Step} {ctx : RunContext} {w : ω} {i : Nat}
    {a : Execution ω} {f : Failure} (ha : (executions steps registry ctx w)[i]? = some a)
    (ho : a.outcome = .error f) :
    (reportOf steps (executions steps registry ctx w)).StopsAt i a.aliasName f := by
  have hfresh : a.Fresh := executions_fresh steps registry ctx w a (List.mem_of_getElem? ha)
  have hreport := Execution.report_of_error ho
  have herr : a.report.status = .errored := by rw [hreport]; rfl
  obtain ⟨front, hfront, rfl, hbefore, hentries⟩ := executions_failed ha ho
  rw [hfront]
  have hsteps : (reportOf steps (front ++ [a])).steps = front.map Execution.report ++ [a.report] :=
    List.map_append
  have htake : (reportOf steps (front ++ [a])).steps.take front.length =
      front.map Execution.report := by
    rw [hsteps, ← List.length_map Execution.report, List.take_left]
  have hstate : (reportOf steps (front ++ [a])).state = a.state := by
    show lastState .empty (front ++ [a]) = a.state
    unfold lastState
    rw [List.getLast?_concat]
    exact Execution.stateAfter_of_errored hfresh herr
  refine ⟨by simp [hsteps], ⟨a.report, by simp [hsteps], ?_, herr, ?_⟩, ?_, ?_, ?_⟩
  · rw [hreport]; rfl
  · rw [hreport]; exact StepReport.tells_errored _ _ f
  · rw [htake]
    intro s hs
    obtain ⟨b, hb, rfl⟩ := List.mem_map.mp hs
    exact hbefore b hb
  · rw [htake, hstate, hentries]
  · rw [hstate]; exact hfresh

/-! ## The calls up to there -/

/-- The steps in order, named as the calls of their runners name them. -/
def stepNames (steps : List Step) (aliases : List String) : List (String × String) :=
  (steps.zip aliases).map fun pair => (pair.2, pair.1.type)

/-- A step that succeeds calls its runner once. -/
theorem calls_of_succeeded {a : Execution ω}
    (he : executeStep registry workDir a.step a.aliasName a.state a.start = (a.outcome, a.finish))
    (hs : a.report.status = .succeeded) :
    (a.calls registry workDir).map Call.names = [(a.aliasName, a.step.type)] := by
  unfold Execution.calls
  rcases stepCalls_cases registry workDir a.step a.aliasName a.state a.start with
    ⟨f, hf, -⟩ | ⟨-, hone⟩
  · rw [he, Prod.mk.injEq] at hf
    rw [Execution.report_of_error hf.1] at hs
    cases hs
  · rw [hone]
    rfl

theorem flatMap_calls {h : List (Execution ω)}
    (he : ∀ a ∈ h, executeStep registry workDir a.step a.aliasName a.state a.start =
      (a.outcome, a.finish))
    (hs : ∀ a ∈ h, a.report.status = .succeeded) :
    (h.flatMap (Execution.calls registry workDir)).map Call.names =
      h.map fun a => (a.aliasName, a.step.type) := by
  induction h with
  | nil => rfl
  | cons a h ih =>
    obtain ⟨hea, heh⟩ := List.forall_mem_cons.mp he
    obtain ⟨hsa, hsh⟩ := List.forall_mem_cons.mp hs
    rw [List.flatMap_cons, List.map_append, calls_of_succeeded hea hsa, ih heh hsh]
    rfl

theorem runnerCalls_failed {steps : List Step} {ctx : RunContext} {w : ω} {aliases : List String}
    (haliases : resolveAliases steps ctx.aliasStem = .ok aliases) {i : Nat} {a : Execution ω}
    {f : Failure} (ha : (executions steps registry ctx w)[i]? = some a)
    (ho : a.outcome = .error f) :
    (runnerCalls steps registry ctx w).map Call.names =
      (stepNames steps aliases).take i ++ (a.calls registry ctx.workDir).map Call.names := by
  obtain ⟨front, hfront, rfl, hbefore, -⟩ := executions_failed ha ho
  have hexec : ∀ b ∈ front, executeStep registry ctx.workDir b.step b.aliasName b.state b.start =
      (b.outcome, b.finish) := by
    intro b hb
    have hm : b ∈ executions steps registry ctx w := by
      rw [hfront]
      exact List.mem_append_left _ hb
    exact executions_executes hm
  have hnames : front.map (fun b => (b.aliasName, b.step.type)) =
      (stepNames steps aliases).take front.length := by
    have hpre := history_steps registry ctx.workDir (steps.zip aliases) .empty w
    have hh : history registry ctx.workDir (steps.zip aliases) .empty w = front ++ [a] := by
      rw [← hfront]
      unfold executions
      rw [haliases]
    rw [hh, List.map_append] at hpre
    have hfirst := (List.prefix_append _ _).trans hpre
    rw [List.prefix_iff_eq_take, List.length_map] at hfirst
    unfold stepNames
    rw [← List.map_take, ← hfirst, List.map_map]
    rfl
  rw [runnerCalls_eq, hfront, List.flatMap_append, List.map_append, flatMap_calls hexec hbefore,
    hnames, List.flatMap_singleton]

theorem stopped_by {steps : List Step} {ctx : RunContext} {w : ω} {aliases : List String}
    (haliases : resolveAliases steps ctx.aliasStem = .ok aliases) {i : Nat} {a : Execution ω}
    {f : Failure} (ha : (executions steps registry ctx w)[i]? = some a)
    (ho : a.outcome = .error f) :
    (reportOf steps (executions steps registry ctx w)).StopsAt i a.aliasName f ∧
      (reportOf steps (executions steps registry ctx w)).steps[i]?.bind (·.errorCode) =
        some f.code.name ∧
      (runnerCalls steps registry ctx w).map Call.names =
        (stepNames steps aliases).take i ++ (a.calls registry ctx.workDir).map Call.names := by
  have hstop := reportOf_stopsAt ha ho
  obtain ⟨s, hs, -, -, htells⟩ := hstop.told
  exact ⟨hstop, by rw [hs]; exact htells.errorCode, runnerCalls_failed haliases ha ho⟩

/-- A step that leaves the run cancelled has failed. -/
theorem failed_of_cancelled {a : Execution ω} (hc : cancelled a.finish = true)
    (ha : executeStep registry workDir a.step a.aliasName a.state a.start =
      (a.outcome, a.finish)) : ∃ f, a.outcome = .error f := by
  have hends := executeStep_ends ha
  generalize a.outcome = outcome at hends ⊢
  generalize a.finish = finish at hends hc
  cases hends with
  | cancelled _ => exact ⟨_, rfl⟩
  | missing _ _ => exact ⟨_, rfl⟩
  | invalid _ _ _ => exact ⟨_, rfl⟩
  | failed _ _ _ _ => exact ⟨_, rfl⟩
  | overtaken _ _ _ _ _ => exact ⟨_, rfl⟩
  | done _ _ _ _ hc' => rw [hc] at hc'; cases hc'

/-- A run that a step has left cancelled ends behind that step. -/
theorem run_of_cancelled {steps : List Step} {ctx : RunContext} {w : ω} {i : Nat} {a : Execution ω}
    (ha : (executions steps registry ctx w)[i]? = some a) (hc : cancelled a.finish = true) :
    ∃ r f, a.outcome = .error f ∧ run steps registry ctx w = (.ok r, a.finish) ∧
      r.StopsAt i a.aliasName f := by
  obtain ⟨f, hf⟩ := failed_of_cancelled hc (executions_executes (List.mem_of_getElem? ha))
  obtain ⟨front, hfront, -⟩ := executions_failed ha hf
  obtain ⟨aliases, haliases⟩ : ∃ aliases, resolveAliases steps ctx.aliasStem = .ok aliases := by
    cases h : resolveAliases steps ctx.aliasStem with
    | ok aliases => exact ⟨aliases, rfl⟩
    | error g =>
      unfold executions at ha
      rw [h] at ha
      cases ha
  have hworld : lastWorld w (executions steps registry ctx w) = a.finish := by
    rw [hfront]
    unfold lastWorld
    rw [List.getLast?_concat]
    rfl
  refine ⟨_, f, hf, ?_, reportOf_stopsAt ha hf⟩
  rw [run_eq, haliases, hworld]
  rfl

/-! ## Cancelled before a step, or during it -/

/-- What stops a run that was cancelled while a runner was at work: the failure of the runner, or
else the cancellation. -/
def stopOf : Except Failure StepResult → Failure
  | .error f => f
  | .ok _ => .of (.cancelled "step execution")

theorem executeStep_of_cancelled (registry : Registry ω) (workDir : String) (step : Step)
    (aliasName : String) (state : State) {v : ω} (hc : cancelled v = true) :
    executeStep registry workDir step aliasName state v =
        (.error (.of (.cancelled "step start")), v) ∧
      stepCalls registry workDir step aliasName state v = [] := by
  unfold executeStep stepCalls
  rw [if_pos hc, if_pos hc]
  exact ⟨rfl, rfl⟩

theorem executeStep_of_overtaken {step : Step} {aliasName : String} {state : State} {v v' : ω}
    {entry : Registration ω} {returned : Except Failure StepResult} (hc : cancelled v = false)
    (hl : registry.lookup step.type = .ok entry)
    (hv : entry.validate step.type (.object step.config) = .ok ())
    (hr : entry.runner (contextOf workDir step aliasName state) v = (returned, v'))
    (hc' : cancelled v' = true) :
    executeStep registry workDir step aliasName state v = (.error (stopOf returned), v') ∧
      stepCalls registry workDir step aliasName state v =
        [⟨step.type, contextOf workDir step aliasName state⟩] := by
  unfold executeStep stepCalls
  unfold contextOf at hr ⊢
  cases returned with
  | error f => simp [hc, hl, hv, hr, stopOf]
  | ok result => simp [hc, hl, hv, hr, hc', stopOf]

/-- **Cancellation.** Whatever the runners do, a run that finds its token cancelled when it comes to
a step stops there, without a look at the type or the configuration of the step. A run whose token
is cancelled while the runner of a step is at work stops there as well, whatever the runner returns.
No later runner is called, and the step leaves no output. -/
theorem cancelled_run_stops {steps : List Step} {registry : Registry ω} {ctx : RunContext} {w : ω}
    {aliases : List String} (haliases : resolveAliases steps ctx.aliasStem = .ok aliases) :
    ∃ r, (run steps registry ctx w).1 = .ok r ∧
      ∀ (i : Nat) (step : Step) (aliasName : String) (state : State) (v : ω),
        (steps.zip aliases)[i]? = some (step, aliasName) →
        ComesTo registry ctx.workDir (steps.zip aliases) w i state v →
        (cancelled v = true →
          r.StopsAt i aliasName (.of (.cancelled "step start")) ∧
          r.steps[i]?.bind (·.errorCode) = some "run.cancelled" ∧
          (runnerCalls steps registry ctx w).map Call.names =
            (stepNames steps aliases).take i) ∧
        ∀ (entry : Registration ω) (returned : Except Failure StepResult) (v' : ω),
          cancelled v = false →
          registry.lookup step.type = .ok entry →
          entry.validate step.type (.object step.config) = .ok () →
          entry.runner ⟨aliasName, step.type, ctx.workDir, state, .object step.config⟩ v =
            (returned, v') →
          cancelled v' = true →
          r.StopsAt i aliasName (stopOf returned) ∧
          (returned.isOk → r.steps[i]?.bind (·.errorCode) = some "run.cancelled") ∧
          (runnerCalls steps registry ctx w).map Call.names =
            (stepNames steps aliases).take (i + 1) := by
  obtain ⟨r, hr⟩ : ∃ r, (run steps registry ctx w).1 = .ok r := by
    rw [run_eq, haliases]
    exact ⟨_, rfl⟩
  obtain ⟨names, hnames, hh, rfl⟩ := run_ok hr
  rw [haliases, Except.ok.injEq] at hnames
  subst hnames
  refine ⟨_, hr, fun i step aliasName state v hi hcome => ?_⟩
  obtain ⟨a, ha, rfl, rfl, rfl, rfl⟩ := history_comesTo hi hcome
  rw [← hh] at ha
  have hexec := executions_executes (List.mem_of_getElem? ha)
  constructor
  · intro hc
    obtain ⟨hends, hcalls⟩ :=
      executeStep_of_cancelled registry ctx.workDir a.step a.aliasName a.state hc
    rw [hends, Prod.mk.injEq] at hexec
    obtain ⟨hstop, hcode, hrunners⟩ := stopped_by haliases ha hexec.1.symm
    refine ⟨hstop, hcode, ?_⟩
    rw [hrunners, Execution.calls, hcalls]
    exact List.append_nil _
  · intro entry returned v' hc hl hv hrun hc'
    obtain ⟨hends, hcalls⟩ := executeStep_of_overtaken hc hl hv hrun hc'
    rw [hends, Prod.mk.injEq] at hexec
    obtain ⟨hstop, hcode, hrunners⟩ := stopped_by haliases ha hexec.1.symm
    refine ⟨hstop, fun hok => ?_, ?_⟩
    · cases returned with
      | error f => cases hok
      | ok result => exact hcode
    · have hname : (stepNames steps aliases)[i]? = some (a.aliasName, a.step.type) := by
        unfold stepNames
        rw [List.getElem?_map, hi]
        rfl
      rw [hrunners, Execution.calls, hcalls, List.take_add_one, hname]
      rfl

end

/-- A step of a type that no runner is registered for. -/
def ghostSteps : List Step := [⟨none, "ghost", []⟩, ⟨none, "echo", []⟩]

/-- Cancelled before the run, a step of an unknown type is not looked up; cancelled by the third
step, a run keeps the output of the first and drops that of the third. -/
theorem cancelled_run_stops_late :
    (∃ r, (run ghostSteps echoRegistry ⟨"/box", "step"⟩ ⟨true⟩).1 = .ok r ∧
      r.StopsAt 0 "step-0" (.of (.cancelled "step start"))) ∧
    ∃ r, (run lateSteps echoRegistry ⟨"/box", "step"⟩ ⟨false⟩).1 = .ok r ∧
      r.StopsAt 2 "late" (.of (.cancelled "step execution")) ∧
      (runnerCalls lateSteps echoRegistry ⟨"/box", "step"⟩ ⟨false⟩).map Call.names =
        [("step-0", "echo"), ("quiet", "echo"), ("late", "echo")] := by
  constructor
  · obtain ⟨r, hr, hstop⟩ := @cancelled_run_stops Token _ ghostSteps echoRegistry ⟨"/box", "step"⟩
      ⟨true⟩ ["step-0", "step-1"] rfl
    have hcome : ComesTo echoRegistry "/box" (ghostSteps.zip ["step-0", "step-1"])
        (⟨true⟩ : Token) 0 .empty ⟨true⟩ := ⟨[], ⟨true⟩, rfl, rfl, nofun⟩
    exact ⟨r, hr, ((hstop 0 _ _ _ _ rfl hcome).1 rfl).1⟩
  · obtain ⟨r, hr, hstop⟩ := @cancelled_run_stops Token _ lateSteps echoRegistry ⟨"/box", "step"⟩
      ⟨false⟩ ["step-0", "quiet", "late", "step-3"] rfl
    obtain ⟨state, hcome⟩ : ∃ state, ComesTo echoRegistry "/box"
        (lateSteps.zip ["step-0", "quiet", "late", "step-3"]) (⟨false⟩ : Token) 2 state ⟨false⟩ :=
      ⟨_, _, ⟨false⟩, rfl, rfl, by decide⟩
    obtain ⟨hlate, -, hcalls⟩ := (hstop 2 _ _ _ _ rfl hcome).2 _ _ ⟨true⟩ rfl rfl rfl rfl rfl
    exact ⟨r, hr, hlate, hcalls⟩

end StepPipeline

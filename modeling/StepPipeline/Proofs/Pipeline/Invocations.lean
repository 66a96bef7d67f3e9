import StepPipeline.Proofs.Pipeline.Cancellation
import StepPipeline.Proofs.Schema.Validity

/-!
# What runners are given

A runner can do anything to the world, so what a later one finds depends on all calls before it. A
run makes its calls one behind the other: each in what has become of the world that the call before
it left, each with the outputs of the results so far, and none without a look at the token, the type
and the schema.

**Reached or barred (`Barred`).** Either the runner of a step is reached, and called once; or the
step is barred: the run was cancelled before it, or it is not ready. A barred step ends the run.

**Built registries (`Registry.Built`).** A registry that was filled by registering holds with every
runner what its document asks for, by whatever reading.

**Results.**
* `Execution.reached_or_stopped`: one step.
* `executions_reach`: all steps of a run are reached but possibly the last one.
* `runners_invoked`: so the calls of a run are determined by its steps and its results.
-/
namespace StepPipeline

open Cancellable

variable {ω : Type}

/-! ## Registered schemas -/

/-- A registry that was filled by registering runners. -/
inductive Registry.Built (read : Reading) : Registry ω → Prop where
  | empty : Built read .empty
  | register {r r' : Registry ω} {name : String} {runner : Runner ω} {document : Json}
    (h : Built read r) (hr : registerBy read r name runner document = .ok r') : Built read r'

theorem Registry.mem_insert {entry e : Registration ω} {entries : List (Registration ω)}
    (h : e ∈ insert entry entries) : e = entry ∨ e ∈ entries := by
  induction entries with
  | nil => exact Or.inl (List.mem_singleton.mp h)
  | cons first rest ih =>
    unfold insert at h
    split at h
    · exact List.mem_cons.mp h
    · rcases List.mem_cons.mp h with rfl | h
      · exact Or.inr List.mem_cons_self
      · exact (ih h).imp_right (List.mem_cons_of_mem _)

/-- A runner is registered with what its document asks for. -/
theorem Registry.Built.compiled {read : Reading} {registry : Registry ω} (h : registry.Built read) :
    ∀ entry ∈ registry.entries, read.compile entry.name entry.document = .ok entry.validator := by
  induction h with
  | empty => exact nofun
  | @register r r' name runner document _ hr ih =>
    unfold Registry.registerBy at hr
    split at hr
    · cases hr
    · cases hs : read.compile name document with
      | error f => simp [hs, bind, Except.bind] at hr
      | ok validator =>
        simp only [hs, bind, Except.bind, pure, Except.pure, Except.ok.injEq] at hr
        subst hr
        intro entry he
        rcases mem_insert he with rfl | he
        · exact hs
        · exact ih entry he

theorem mem_of_lookup {registry : Registry ω} {stepType : String} {entry : Registration ω}
    (h : registry.lookup stepType = .ok entry) : entry ∈ registry.entries := by
  unfold Registry.lookup Registry.get? at h
  split at h
  · rename_i found hg
    cases h
    exact List.mem_of_find?_eq_some hg
  · cases h

/-! ## One step -/

/-- A step whose runner is not reached in the world `v`, and the failure that it ends with. -/
inductive Barred [Cancellable ω] (registry : Registry ω) (step : Step) (v : ω) :
    Failure → Prop where
  | cancelled (hc : cancelled v = true) : Barred registry step v (.of (.cancelled "step start"))
  | unready {readiness : Readiness} {f : Failure} (hc : cancelled v = false)
    (hf : Finding registry step readiness (some f)) : Barred registry step v f

section
variable [Cancellable ω] {registry : Registry ω} {workDir : String}

namespace Execution

/-- The call that is made for a step whose runner is reached. -/
def call (workDir : String) (a : Execution ω) : Call :=
  ⟨a.step.type, contextOf workDir a.step a.aliasName a.state⟩

/-- The runner of the step was reached. -/
structure Reached (registry : Registry ω) (workDir : String) (a : Execution ω) : Prop where
  calls : a.calls registry workDir = [a.call workDir]
  live : cancelled a.start = false
  ran : ∃ entry returned, registry.lookup a.step.type = .ok entry ∧
    entry.validate a.step.type (.object a.step.config) = .ok () ∧
    entry.runner (a.call workDir).context a.start = (returned, a.finish)

/-- The step was barred: no runner was called, and the world stayed as it was. -/
structure Stopped (registry : Registry ω) (workDir : String) (a : Execution ω) (f : Failure) :
    Prop where
  barred : Barred registry a.step a.start f
  calls : a.calls registry workDir = []
  outcome : a.outcome = .error f
  finish : a.finish = a.start

/-- **One step.** Its runner is reached, or it is barred. -/
theorem reached_or_stopped {a : Execution ω}
    (h : executeStep registry workDir a.step a.aliasName a.state a.start = (a.outcome, a.finish)) :
    a.Reached registry workDir ∨ ∃ f, a.Stopped registry workDir f := by
  obtain ⟨step, aliasName, state, start, outcome, finish⟩ := a
  cases executeStep_ends h with
  | cancelled hc =>
    exact Or.inr ⟨_, .cancelled hc, by simp [Execution.calls, stepCalls, hc], rfl, rfl⟩
  | missing hc hl =>
    exact Or.inr ⟨_, .unready hc (.missing hl (lookup_code hl)),
      by simp [Execution.calls, stepCalls, hc, hl], rfl, rfl⟩
  | invalid hc hl hv =>
    exact Or.inr ⟨_, .unready hc (.invalid hl hv (validate_code hv)),
      by simp [Execution.calls, stepCalls, hc, hl, hv], rfl, rfl⟩
  | failed hc hl hv hr =>
    refine Or.inl ⟨?_, hc, _, _, hl, hv, hr⟩
    simp [Execution.calls, stepCalls, Execution.call, hc, hl, hv]
  | overtaken hc hl hv hr hc' =>
    refine Or.inl ⟨?_, hc, _, _, hl, hv, hr⟩
    simp [Execution.calls, stepCalls, Execution.call, hc, hl, hv]
  | done hc hl hv hr hc' =>
    refine Or.inl ⟨?_, hc, _, _, hl, hv, hr⟩
    simp [Execution.calls, stepCalls, Execution.call, hc, hl, hv]

end Execution

/-! ## All steps -/

/-- The runners of all steps are reached, but possibly that of the last one. -/
theorem executions_reach (steps : List Step) (registry : Registry ω) (ctx : RunContext) (w : ω) :
    ∃ front back, executions steps registry ctx w = front ++ back ∧
      (∀ a ∈ front, a.Reached registry ctx.workDir) ∧
      (back = [] ∨ ∃ a f, back = [a] ∧ a.Stopped registry ctx.workDir f) := by
  have hcases : ∀ a ∈ executions steps registry ctx w,
      a.Reached registry ctx.workDir ∨ ∃ f, a.Stopped registry ctx.workDir f :=
    fun a ha => Execution.reached_or_stopped (executions_executes ha)
  by_cases hall : ∀ a ∈ executions steps registry ctx w, a.Reached registry ctx.workDir
  · exact ⟨_, [], (List.append_nil _).symm, hall, Or.inl rfl⟩
  · obtain ⟨a, ha, hnot⟩ : ∃ a ∈ executions steps registry ctx w,
        ¬ a.Reached registry ctx.workDir := by simpa using hall
    obtain ⟨f, hstop⟩ := (hcases a ha).resolve_left hnot
    obtain ⟨i, hi⟩ := List.getElem?_of_mem ha
    obtain ⟨front, hfront, -, hbefore, -⟩ := executions_failed hi hstop.outcome
    refine ⟨front, [a], hfront, fun b hb => ?_, Or.inr ⟨a, f, rfl, hstop⟩⟩
    have hm : b ∈ executions steps registry ctx w := by
      rw [hfront]
      exact List.mem_append_left _ hb
    refine (hcases b hm).resolve_right ?_
    rintro ⟨g, hg⟩
    have hs := hbefore b hb
    rw [Execution.report_of_error hg.outcome] at hs
    cases hs

/-- Every runner that is reached is called once, in order. -/
theorem flatMap_reached {front : List (Execution ω)}
    (h : ∀ a ∈ front, a.Reached registry workDir) :
    front.flatMap (Execution.calls registry workDir) = front.map (Execution.call workDir) := by
  induction front with
  | nil => rfl
  | cons a front ih =>
    obtain ⟨ha, hfront⟩ := List.forall_mem_cons.mp h
    rw [List.flatMap_cons, ha.calls, ih hfront]
    rfl

/-- So the calls of a run, also of its first executions only, are those of the runners reached. -/
theorem flatMap_calls_reached {front back : List (Execution ω)}
    (hreached : ∀ a ∈ front, a.Reached registry workDir)
    (hback : back = [] ∨ ∃ a f, back = [a] ∧ a.Stopped registry workDir f) (k : Nat) :
    ((front ++ back).take k).flatMap (Execution.calls registry workDir) =
      (front.take k).map (Execution.call workDir) := by
  have hnone : ∀ a ∈ back, a.calls registry workDir = [] := by
    rcases hback with rfl | ⟨a, f, rfl, hstop⟩
    · exact nofun
    · exact List.forall_mem_singleton.mpr hstop.calls
  have hrest : (back.take (k - front.length)).flatMap (Execution.calls registry workDir) = [] :=
    List.flatMap_eq_nil_iff.mpr fun a ha => hnone a (List.mem_of_mem_take ha)
  rw [List.take_append, List.flatMap_append, hrest, List.append_nil]
  exact flatMap_reached fun a ha => hreached a (List.mem_of_mem_take ha)

theorem runnerCalls_reached {steps : List Step} {ctx : RunContext} {w : ω}
    {front back : List (Execution ω)} (hfront : executions steps registry ctx w = front ++ back)
    (hreached : ∀ a ∈ front, a.Reached registry ctx.workDir)
    (hback : back = [] ∨ ∃ a f, back = [a] ∧ a.Stopped registry ctx.workDir f) :
    runnerCalls steps registry ctx w = front.map (Execution.call ctx.workDir) := by
  have hall := flatMap_calls_reached hreached hback (front ++ back).length
  rw [List.take_length, List.take_of_length_le (by simp)] at hall
  rw [runnerCalls_eq, hfront, hall]

end

theorem lastWorld_take_succ {h : List (Execution ω)} {i : Nat} {a : Execution ω}
    (ha : h[i]? = some a) (w : ω) : lastWorld w (h.take (i + 1)) = a.finish := by
  unfold lastWorld
  rw [List.take_add_one, ha, Option.toList_some, List.getLast?_concat]
  rfl

section
variable [Cancellable ω]

/-- The executions of a pipeline are a history from an empty state. -/
theorem executions_eq_history {steps : List Step} {registry : Registry ω} {ctx : RunContext} {w : ω}
    {aliases : List String} (h : resolveAliases steps ctx.aliasStem = .ok aliases) :
    executions steps registry ctx w =
      history registry ctx.workDir (steps.zip aliases) .empty w := by
  unfold executions
  rw [h]

section
variable {steps : List Step} {registry : Registry ω} {ctx : RunContext} {w : ω}
  {aliases : List String} (haliases : resolveAliases steps ctx.aliasStem = .ok aliases)
include haliases

/-- The state behind the first executions holds the outputs of their results. -/
theorem entries_executions (i : Nat) :
    (lastState .empty ((executions steps registry ctx w).take i)).entries =
      ((reportOf steps (executions steps registry ctx w)).steps.take i).filterMap
        StepReport.entry? := by
  have hfresh := executions_fresh steps registry ctx w
  rw [executions_eq_history haliases] at hfresh ⊢
  rw [entries_lastState hfresh i, List.map_take]
  rfl

/-- An execution is of its step; it finds the outputs of the results before it, and what has become
of the world that they left. -/
theorem executions_find {i : Nat} {a : Execution ω}
    (ha : (executions steps registry ctx w)[i]? = some a) :
    (steps.zip aliases)[i]? = some (a.step, a.aliasName) ∧
      a.state.entries = ((reportOf steps (executions steps registry ctx w)).steps.take i).filterMap
        StepReport.entry? ∧
      a.start = passes (lastWorld w ((executions steps registry ctx w).take i)) := by
  rw [← entries_executions haliases]
  rw [executions_eq_history haliases] at ha ⊢
  obtain ⟨hstate, hstart, -⟩ := history_getElem ha
  exact ⟨history_step_at ha, by rw [hstate], hstart⟩

end

/-! ## The calls of a run -/

/-- A call is made for a step: of the runner registered for its type, in the world `v`, with the
results `before` behind it; the runner leaves the world `v'`. -/
structure Call.Serves (registry : Registry ω) (workDir : String) (before : List StepReport)
    (step : Step) (aliasName : String) (v v' : ω) (call : Call) : Prop where
  runner : call.runner = step.type
  aliasName : call.context.aliasName = aliasName
  type : call.context.type = step.type
  workDir : call.context.workDir = workDir
  config : call.context.config = .object step.config
  state : call.context.state.entries = before.filterMap StepReport.entry?
  live : cancelled v = false
  ran : ∃ entry returned, registry.lookup step.type = .ok entry ∧
    (∀ read, registry.Built read →
      read.compile step.type entry.document = .ok entry.validator) ∧
    entry.validator call.context.config = [] ∧
    entry.runner call.context v = (returned, v')

/-- The calls of a run that begins in the world `w`, returns `r` and leaves the world `v`. Call `i`
is made in what has become of `world i`, and leaves `world (i + 1)`. -/
structure Invoked (steps : List (Step × String)) (registry : Registry ω) (workDir : String) (w : ω)
    (r : RunReport) (v : ω) (calls : List Call) (world : Nat → ω) : Prop where
  /-- Call `i` is made for step `i`. -/
  serves : ∀ i (call : Call), calls[i]? = some call → ∃ step aliasName,
    steps[i]? = some (step, aliasName) ∧
      call.Serves registry workDir (r.steps.take i) step aliasName (passes (world i)) (world (i + 1))
  /-- There is one for each result, but for a last one whose step was barred. No step but those
  called for changes the world. -/
  count : calls.length = r.steps.length ∧ v = world calls.length ∨
    calls.length + 1 = r.steps.length ∧ v = passes (world calls.length) ∧
      ∃ step aliasName f, steps[calls.length]? = some (step, aliasName) ∧
        Barred registry step v f ∧ r.steps[calls.length]? = some (.errored aliasName step.type f)
  /-- There is none for a step that is not ready. -/
  refused : ∀ i step aliasName readiness f, steps[i]? = some (step, aliasName) →
    Finding registry step readiness (some f) → calls.length ≤ i
  start : world 0 = w
  /-- Nothing changes the shared state behind the last call. -/
  kept : r.state.entries = (r.steps.take calls.length).filterMap StepReport.entry?

/-- A step that a call is made for is ready. -/
theorem Call.Serves.found_none {registry : Registry ω} {workDir : String}
    {before : List StepReport} {step : Step} {aliasName : String} {v v' : ω} {call : Call}
    {readiness : Readiness} {found : Option Failure}
    (h : call.Serves registry workDir before step aliasName v v')
    (hf : Finding registry step readiness found) : found = none := by
  obtain ⟨entry, -, hl, -, hv, -⟩ := h.ran
  rw [h.config] at hv
  have hready := (Finding.ready hl (Schema.validate_ok_iff.mpr hv)).ready_unique hf
  subst hready
  cases hf
  rfl

section
variable {steps : List Step} {registry : Registry ω} {ctx : RunContext} {w : ω}
  {aliases : List String} (haliases : resolveAliases steps ctx.aliasStem = .ok aliases)
include haliases

theorem Execution.Reached.serves {i : Nat} {a : Execution ω}
    (h : a.Reached registry ctx.workDir) (ha : (executions steps registry ctx w)[i]? = some a) :
    (a.call ctx.workDir).Serves registry ctx.workDir
      ((reportOf steps (executions steps registry ctx w)).steps.take i) a.step a.aliasName
      (passes (lastWorld w ((executions steps registry ctx w).take i)))
      (lastWorld w ((executions steps registry ctx w).take (i + 1))) := by
  obtain ⟨-, hstate, hstart⟩ := executions_find haliases ha
  obtain ⟨entry, returned, hl, hv, hr⟩ := h.ran
  rw [← hstart, lastWorld_take_succ ha]
  refine ⟨rfl, rfl, rfl, rfl, rfl, hstate, h.live, entry, returned, hl,
    fun read hbuilt => ?_, Schema.validate_ok_iff.mp hv, hr⟩
  rw [← lookup_type hl]
  exact hbuilt.compiled entry (mem_of_lookup hl)

/-- Behind the executions whose runners are reached, nothing changes the shared state. -/
theorem unchanged_behind {front back : List (Execution ω)}
    (hfront : executions steps registry ctx w = front ++ back)
    (hback : back = [] ∨ ∃ a f, back = [a] ∧ a.Stopped registry ctx.workDir f) :
    lastState .empty (executions steps registry ctx w) = lastState .empty front := by
  rcases hback with rfl | ⟨a, f, rfl, hstop⟩
  · rw [hfront, List.append_nil]
  · have ha : (executions steps registry ctx w)[front.length]? = some a := by
      rw [hfront, List.getElem?_concat_length]
    have herr : a.report.status = .errored := by
      rw [Execution.report_of_error hstop.outcome]
      rfl
    have hafter := Execution.stateAfter_of_errored
      (executions_fresh steps registry ctx w a (List.mem_of_getElem? ha)) herr
    rw [executions_eq_history haliases] at ha hfront ⊢
    obtain ⟨hstate, -, -⟩ := history_getElem ha
    rw [hfront, List.take_left] at hstate
    rw [hfront, ← hstate, ← hafter]
    unfold lastState
    rw [List.getLast?_concat]
    rfl

/-- Each call that is made is made for its step. -/
theorem calls_serve {front back : List (Execution ω)}
    (hfront : executions steps registry ctx w = front ++ back)
    (hreached : ∀ a ∈ front, a.Reached registry ctx.workDir) {i : Nat} {call : Call}
    (hi : (front.map (Execution.call ctx.workDir))[i]? = some call) :
    ∃ step aliasName, (steps.zip aliases)[i]? = some (step, aliasName) ∧
      call.Serves registry ctx.workDir
        ((reportOf steps (executions steps registry ctx w)).steps.take i) step aliasName
        (passes (lastWorld w ((executions steps registry ctx w).take i)))
        (lastWorld w ((executions steps registry ctx w).take (i + 1))) := by
  rw [List.getElem?_map] at hi
  obtain ⟨a, ha, rfl⟩ := Option.map_eq_some_iff.mp hi
  have hlt : i < front.length := (List.getElem?_eq_some_iff.mp ha).1
  have hia : (executions steps registry ctx w)[i]? = some a := by
    rw [hfront, List.getElem?_append_left hlt, ha]
  exact ⟨a.step, a.aliasName, (executions_find haliases hia).1,
    (hreached a (List.mem_of_getElem? ha)).serves haliases hia⟩

/-- The step behind the last call, if there is a result for it, was barred, and leaves the world as
it finds it. -/
theorem barred_behind {front : List (Execution ω)} {a : Execution ω} {f : Failure}
    (hfront : executions steps registry ctx w = front ++ [a])
    (hstop : a.Stopped registry ctx.workDir f) :
    lastWorld w (executions steps registry ctx w) =
        passes (lastWorld w ((executions steps registry ctx w).take front.length)) ∧
      ∃ step aliasName f, (steps.zip aliases)[front.length]? = some (step, aliasName) ∧
        Barred registry step (lastWorld w (executions steps registry ctx w)) f ∧
        (reportOf steps (executions steps registry ctx w)).steps[front.length]? =
          some (.errored aliasName step.type f) := by
  have hia : (executions steps registry ctx w)[front.length]? = some a := by
    rw [hfront, List.getElem?_concat_length]
  obtain ⟨hstep, -, hstart⟩ := executions_find haliases hia
  have hlast : lastWorld w (executions steps registry ctx w) = a.start := by
    rw [← hstop.finish, hfront]
    unfold lastWorld
    rw [List.getLast?_concat]
    rfl
  refine ⟨hlast.trans hstart, a.step, a.aliasName, f, hstep, ?_, ?_⟩
  · rw [hlast]
    exact hstop.barred
  · rw [← Execution.report_of_error hstop.outcome]
    simp [reportOf, hfront]

theorem runnerCalls_invoked :
    Invoked (steps.zip aliases) registry ctx.workDir w
      (reportOf steps (executions steps registry ctx w))
      (lastWorld w (executions steps registry ctx w)) (runnerCalls steps registry ctx w)
      (fun i => lastWorld w ((executions steps registry ctx w).take i)) := by
  obtain ⟨front, back, hfront, hreached, hback⟩ := executions_reach steps registry ctx w
  have hcalls := runnerCalls_reached hfront hreached hback
  have hlen : (runnerCalls steps registry ctx w).length = front.length := by
    rw [hcalls, List.length_map]
  have htake : (executions steps registry ctx w).take front.length = front := by
    rw [hfront, List.take_left]
  have hstate := unchanged_behind haliases hfront hback
  refine ⟨fun i call hi => ?_, ?_, fun i step aliasName readiness f hi hf => ?_, rfl, ?_⟩
  · rw [hcalls] at hi
    exact calls_serve haliases hfront hreached hi
  · rw [hlen]
    rcases hback with rfl | ⟨a, f, rfl, hstop⟩
    · refine Or.inl ⟨by simp [reportOf, hfront], ?_⟩
      rw [htake, hfront, List.append_nil]
    · exact Or.inr ⟨by simp [reportOf, hfront], barred_behind haliases hfront hstop⟩
  · refine Nat.le_of_not_lt fun hlt => ?_
    rw [hlen] at hlt
    obtain ⟨step', aliasName', hi', hs⟩ := calls_serve haliases hfront hreached
      (List.getElem?_eq_getElem (by rw [List.length_map]; omega))
    rw [hi, Option.some.injEq, Prod.mk.injEq] at hi'
    obtain ⟨rfl, rfl⟩ := hi'
    have hnone := hs.found_none hf
    cases hnone
  · rw [hlen, ← entries_executions haliases, htake, ← hstate]
    rfl

end

/-- **Invocations.** A run whose aliases cannot be resolved calls no runner. Any other calls, one
behind the other, the runners of its first steps, one for each result but for a last one whose step
was barred; each is given its step as it is, the outputs of the results before it, and what has
become of the world that the call before it left. -/
theorem runners_invoked (steps : List Step) (registry : Registry ω) (ctx : RunContext) (w : ω) :
    (∀ f, (run steps registry ctx w).1 = .error f →
      runnerCalls steps registry ctx w = [] ∧ (run steps registry ctx w).2 = w) ∧
    ∀ r, (run steps registry ctx w).1 = .ok r → ∃ aliases world,
      resolveAliases steps ctx.aliasStem = .ok aliases ∧
        Invoked (steps.zip aliases) registry ctx.workDir w r (run steps registry ctx w).2
          (runnerCalls steps registry ctx w) world := by
  constructor
  · intro f hf
    have hnone : executions steps registry ctx w = [] := by
      rw [run_eq] at hf
      unfold executions
      cases ha : resolveAliases steps ctx.aliasStem with
      | error g => rfl
      | ok aliases => rw [ha] at hf; cases hf
    rw [runnerCalls_eq, run_eq, hnone]
    exact ⟨rfl, rfl⟩
  · intro r hr
    obtain ⟨aliases, ha, -, rfl⟩ := run_ok hr
    have hworld : (run steps registry ctx w).2 = lastWorld w (executions steps registry ctx w) := by
      rw [run_eq]
    rw [hworld]
    exact ⟨aliases, _, ha, runnerCalls_invoked ha⟩

end

/-- The last result tells of a step that its schema refused: the one runner that was called left the
shared state as the run returns it. -/
theorem runners_invoked_bare :
    ∃ r aliases world, (run bareSteps echoRegistry ⟨"/box", "step"⟩ ⟨false⟩).1 = .ok r ∧
      r.steps.length = 2 ∧
      (runnerCalls bareSteps echoRegistry ⟨"/box", "step"⟩ ⟨false⟩).length = 1 ∧
      Invoked (bareSteps.zip aliases) echoRegistry "/box" ⟨false⟩ r
        (run bareSteps echoRegistry ⟨"/box", "step"⟩ ⟨false⟩).2
        (runnerCalls bareSteps echoRegistry ⟨"/box", "step"⟩ ⟨false⟩) world := by
  obtain ⟨r, hr, hlen⟩ : ∃ r, (run bareSteps echoRegistry ⟨"/box", "step"⟩ ⟨false⟩).1 = .ok r ∧
      r.steps.length = 2 := ⟨_, rfl, by rfl⟩
  have hcalls : (runnerCalls bareSteps echoRegistry ⟨"/box", "step"⟩ ⟨false⟩).length = 1 := by rfl
  obtain ⟨aliases, world, -, hinvoked⟩ :=
    (runners_invoked bareSteps echoRegistry ⟨"/box", "step"⟩ (⟨false⟩ : Token)).2 r hr
  exact ⟨r, aliases, world, hr, hlen, hcalls, hinvoked⟩

end StepPipeline

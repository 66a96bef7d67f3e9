import StepPipeline.Proofs.Pipeline.History

/-!
# The shape of a run

A run stops at the first step that does not succeed. Its status, the step that it names as failed,
the counters of its summary and its advice are computed from the results one by one, each in its own
way; all of them follow from where the results stop.

**Stopping (`Halts`).** Results without a trace of failure, one for every step; or fewer of these,
and a last one that did not succeed.

**Results.**
* `history_halts_at`: the results of a history stop so.
* `Halts.failedStep`, `Halts.counts`, `Halts.nextActions`: what the driver computes from results
  that do.
* `run_shape`: the report of a run is well formed, and an errored result tells of the failure that
  stopped its step.
-/
namespace StepPipeline

open Cancellable

variable {ω : Type}

/-- A result without a trace of failure. -/
structure StepReport.Sound (s : StepReport) : Prop where
  status : s.status = .succeeded
  error : s.error = none
  errorCode : s.errorCode = none
  hints : s.hints = []

/-- A result that tells of the failure `f` of its step. -/
structure StepReport.Tells (s : StepReport) (f : Failure) : Prop where
  output : s.output = none
  error : s.error = some ("step '" ++ s.aliasName ++ "' (" ++ s.type ++ "): " ++ f.message)
  errorCode : s.errorCode = some f.code.name
  hints : s.hints = f.hints

theorem StepReport.sound_succeeded (aliasName type : String) (output : Option Json) :
    (StepReport.succeeded aliasName type output).Sound := ⟨rfl, rfl, rfl, rfl⟩

theorem StepReport.tells_errored (aliasName type : String) (f : Failure) :
    (StepReport.errored aliasName type f).Tells f := by
  refine ⟨rfl, ?_, rfl, rfl⟩
  have hcolon (text : String) : ")" ++ (": " ++ text) = "): " ++ text :=
    (String.append_assoc).symm
  simp only [StepReport.errored, Failure.message_within, String.append_assoc, hcolon]

/-! ## Results that stop -/

/-- Results of `total` steps, up to the first that did not succeed. -/
inductive Halts (total : Nat) : List StepReport → Prop where
  | never {rs : List StepReport} (hs : ∀ s ∈ rs, s.Sound) (hl : rs.length = total) : Halts total rs
  | behind {front : List StepReport} {last : StepReport} (hs : ∀ s ∈ front, s.Sound)
    (he : last.status = .errored) (hl : front.length < total) : Halts total (front ++ [last])

theorem Status.ofReports_eq_errored {rs : List StepReport} :
    Status.ofReports rs = .errored ↔ ∃ s ∈ rs, s.status = .errored := by
  unfold Status.ofReports
  split
  · rename_i h; simpa using h
  · rename_i h; simpa using h

theorem Status.ofReports_of_sound {rs : List StepReport} (h : ∀ s ∈ rs, s.Sound) :
    Status.ofReports rs = .succeeded := by
  cases hs : Status.ofReports rs with
  | succeeded => rfl
  | errored =>
    obtain ⟨s, hm, he⟩ := Status.ofReports_eq_errored.mp hs
    rw [(h s hm).status] at he
    cases he

theorem Status.ofReports_concat {front : List StepReport} {last : StepReport}
    (he : last.status = .errored) : Status.ofReports (front ++ [last]) = .errored :=
  Status.ofReports_eq_errored.mpr ⟨last, List.mem_concat_self, he⟩

theorem filter_succeeded_of_sound {rs : List StepReport} (h : ∀ s ∈ rs, s.Sound) :
    rs.filter (fun s => s.status = .succeeded) = rs :=
  List.filter_eq_self.mpr fun s hs => by simp [(h s hs).status]

theorem filter_errored_of_sound {rs : List StepReport} (h : ∀ s ∈ rs, s.Sound) :
    rs.filter (fun s => s.status = .errored) = [] :=
  List.filter_eq_nil_iff.mpr fun s hs => by simp [(h s hs).status]

namespace Halts

variable {total : Nat} {rs : List StepReport}

theorem length_le (h : Halts total rs) : rs.length ≤ total := by
  cases h with
  | never hs hl => omega
  | behind hs he hl => rw [List.length_append, List.length_singleton]; omega

theorem dropLast (h : Halts total rs) : ∀ s ∈ rs.dropLast, s.Sound := by
  cases h with
  | never hs hl => exact fun s hm => hs s ((List.dropLast_sublist _).mem hm)
  | behind hs he hl => rw [List.dropLast_concat]; exact hs

theorem sound (h : Halts total rs) : ∀ s ∈ rs, s.status = .succeeded → s.Sound := by
  cases h with
  | never hs hl => exact fun s hm _ => hs s hm
  | @behind front last hs he hl =>
    intro s hm hok
    rcases List.mem_append.mp hm with hm | hm
    · exact hs s hm
    · rw [List.mem_singleton.mp hm, he] at hok
      cases hok

/-- The run has failed if its last step has. -/
theorem status_iff (h : Halts total rs) :
    Status.ofReports rs = .errored ↔ ∃ s, rs.getLast? = some s ∧ s.status = .errored := by
  cases h with
  | never hs hl =>
    rw [Status.ofReports_of_sound hs]
    constructor
    · intro he; cases he
    · rintro ⟨s, hm, he⟩
      rw [(hs s (List.mem_of_getLast? hm)).status] at he; cases he
  | @behind front last hs he hl =>
    exact ⟨fun _ => ⟨last, List.getLast?_concat, he⟩, fun _ => Status.ofReports_concat he⟩

/-- Steps without a result are behind one that did not succeed. -/
theorem missing (h : Halts total rs) (hlt : rs.length < total) :
    ∃ s, rs.getLast? = some s ∧ s.status = .errored := by
  cases h with
  | never hs hl => omega
  | @behind front last hs he hl => exact ⟨last, List.getLast?_concat, he⟩

theorem failedStep (h : Halts total rs) :
    rs.find? (fun s => s.status = .errored) =
      if Status.ofReports rs = .errored then rs.getLast? else none := by
  cases h with
  | never hs hl =>
    rw [Status.ofReports_of_sound hs, if_neg (by simp), List.find?_eq_none]
    intro s hm
    simp [(hs s hm).status]
  | @behind front last hs he hl =>
    have hnone : front.find? (fun s => s.status = .errored) = none :=
      List.find?_eq_none.mpr fun s hm => by simp [(hs s hm).status]
    rw [if_pos (Status.ofReports_concat he), List.find?_append, hnone, List.getLast?_concat]
    simp [he]

theorem length_of_succeeded (h : Halts total rs) (hs : Status.ofReports rs = .succeeded) :
    rs.length = total := by
  by_cases hlt : rs.length < total
  · rw [h.status_iff.mpr (h.missing hlt)] at hs
    cases hs
  · have := h.length_le
    omega

/-- The two counters count every result, and at most one of them is a failure. -/
theorem counts (h : Halts total rs) :
    (Summary.ofReports total rs).succeeded + (Summary.ofReports total rs).errored = rs.length ∧
      (Summary.ofReports total rs).errored =
        if Status.ofReports rs = .errored then 1 else 0 := by
  unfold Summary.ofReports
  cases h with
  | never hs hl =>
    rw [Status.ofReports_of_sound hs, filter_succeeded_of_sound hs, filter_errored_of_sound hs]
    exact ⟨rfl, rfl⟩
  | @behind front last hs he hl =>
    rw [if_pos (Status.ofReports_concat he)]
    simp only [List.filter_append, filter_succeeded_of_sound hs, filter_errored_of_sound hs]
    simp [he]

/-- What to do after a run depends on its last result only. -/
theorem nextActions (h : Halts total rs) :
    StepPipeline.nextActions rs =
      if Status.ofReports rs = .succeeded then []
      else if rs.getLast?.bind (·.errorCode) = some Code.runCancelled.name then
        ["Run was cancelled; re-run the pipeline to finish the remaining steps"]
      else
        ["Fix the failing step and re-run; steps that already succeeded must be idempotent"] := by
  unfold StepPipeline.nextActions
  cases h with
  | never hs hl => rw [Status.ofReports_of_sound hs, if_pos rfl]
  | @behind front last hs he hl =>
    have hfront : (front.any fun s => s.errorCode = some Code.runCancelled.name) = false :=
      List.any_eq_false.mpr fun s hm => by simp [(hs s hm).errorCode]
    rw [Status.ofReports_concat he, List.any_append, hfront, List.getLast?_concat]
    simp

end Halts

/-! ## The results of a history -/

namespace Execution

theorem sound_or_tells {a : Execution ω} (h : a.Fresh) :
    a.report.Sound ∨
      a.report.status = .errored ∧ ∃ f, a.FailsWith f ∧ a.report.Tells f := by
  rcases a.conclusion h with ⟨output, -, hr, -⟩ | ⟨f, hf, hr, -⟩
  · rw [hr]; exact Or.inl (StepReport.sound_succeeded _ _ _)
  · rw [hr]; exact Or.inr ⟨rfl, f, hf, StepReport.tells_errored _ _ f⟩

theorem report_names (a : Execution ω) :
    (a.report.aliasName, a.report.type) = (a.aliasName, a.step.type) := by
  unfold report concludeStep
  split
  · rfl
  · split
    · rfl
    · split <;> rfl

end Execution

section
variable [Cancellable ω] {registry : Registry ω} {workDir : String}

theorem history_halts_at {steps : List (Step × String)} {state : State} {w : ω}
    (hf : ∀ a ∈ history registry workDir steps state w, a.Fresh) :
    Halts steps.length ((history registry workDir steps state w).map Execution.report) := by
  induction steps generalizing state w with
  | nil => exact .never (by simp [history]) rfl
  | cons pair rest ih =>
    rw [history_cons _ _ _ _ _ rfl] at hf ⊢
    obtain ⟨hfresh, hrest⟩ := List.forall_mem_cons.mp hf
    rw [List.map_cons]
    rcases Execution.sound_or_tells hfresh with hs | ⟨he, -⟩
    · rw [if_pos hs.status] at hrest ⊢
      generalize hrs : (history registry workDir rest _ _).map Execution.report = rs
      have hrec := ih hrest
      rw [hrs] at hrec
      cases hrec with
      | never hall hl =>
        exact .never (List.forall_mem_cons.mpr ⟨hs, hall⟩) (by simp [hl])
      | behind hall he hl =>
        rw [← List.cons_append]
        exact .behind (List.forall_mem_cons.mpr ⟨hs, hall⟩) he (by simpa using hl)
    · rw [if_neg (by simp [he])]
      show Halts _ ([] ++ [_])
      exact .behind (by simp) he (by simp)

theorem history_names (registry : Registry ω) (workDir : String) (steps : List (Step × String))
    (state : State) (w : ω) :
    ((history registry workDir steps state w).map Execution.report).map
        (fun s => (s.aliasName, s.type)) <+:
      steps.map fun pair => (pair.2, pair.1.type) := by
  have h := (history_steps registry workDir steps state w).map fun pair => (pair.2, pair.1.type)
  rw [List.map_map] at h ⊢
  simpa [Function.comp_def, Execution.report_names] using h

end

/-! ## The shape of a run -/

/-- What the report of a run of `steps` looks like. -/
structure RunReport.WellFormed (steps : List Step) (aliases : List String) (r : RunReport) :
    Prop where
  /-- The results are those of the first steps, in order. -/
  names : r.steps.map (fun s => (s.aliasName, s.type)) <+:
    (steps.zip aliases).map fun pair => (pair.2, pair.1.type)
  front : ∀ s ∈ r.steps.dropLast, s.Sound
  sound : ∀ s ∈ r.steps, s.status = .succeeded → s.Sound
  missing : r.steps.length < steps.length → ∃ s, r.steps.getLast? = some s ∧ s.status = .errored
  status : r.status = .errored ↔ ∃ s, r.steps.getLast? = some s ∧ s.status = .errored
  failed : r.status = .errored → r.failedStep = r.steps.getLast?
  complete : r.status = .succeeded → r.failedStep = none ∧ r.steps.length = steps.length
  total : r.summary.totalSteps = steps.length
  /-- So counting the steps without a result cannot fall below zero. -/
  bound : r.steps.length ≤ steps.length
  notRun : r.summary.notRun = steps.length - r.steps.length
  counts : r.summary.succeeded + r.summary.errored + r.summary.notRun = r.summary.totalSteps
  errored : r.summary.errored = if r.status = .errored then 1 else 0
  idle : r.summary.nextActions = [] ↔ r.status = .succeeded
  advice : r.status = .errored → r.summary.nextActions =
    if r.steps.getLast?.bind (·.errorCode) = some Code.runCancelled.name then
      ["Run was cancelled; re-run the pipeline to finish the remaining steps"]
    else ["Fix the failing step and re-run; steps that already succeeded must be idempotent"]

/-- Everything in a well-formed report follows from where the results stop. -/
theorem wellFormed_of_halts {steps : List Step} {aliases : List String} {rs : List StepReport}
    {state : State}
    (hn : rs.map (fun s => (s.aliasName, s.type)) <+:
      (steps.zip aliases).map fun pair => (pair.2, pair.1.type))
    (h : Halts steps.length rs) :
    RunReport.WellFormed steps aliases
      ⟨.ofReports rs, rs, .ofReports steps.length rs, state⟩ where
  names := hn
  front := h.dropLast
  sound := h.sound
  missing := h.missing
  status := h.status_iff
  failed hs := h.failedStep.trans (if_pos hs)
  complete hs := ⟨h.failedStep.trans (if_neg (by rw [show Status.ofReports rs = _ from hs]; simp)),
    h.length_of_succeeded hs⟩
  total := rfl
  bound := h.length_le
  notRun := rfl
  counts := by
    have hsum := h.counts.1
    have hle := h.length_le
    show (Summary.ofReports steps.length rs).succeeded +
      (Summary.ofReports steps.length rs).errored + (steps.length - rs.length) = steps.length
    omega
  errored := h.counts.2
  idle := by
    show StepPipeline.nextActions rs = [] ↔ Status.ofReports rs = .succeeded
    rw [h.nextActions]
    cases hs : Status.ofReports rs with
    | succeeded => simp
    | errored =>
      simp only [reduceCtorEq, if_false, iff_false]
      split <;> exact List.cons_ne_nil _ _
  advice hs := h.nextActions.trans (if_neg (by rw [show Status.ofReports rs = _ from hs]; simp))

theorem wellFormed_of_run [Cancellable ω] {steps : List Step} {registry : Registry ω}
    {ctx : RunContext} {w : ω} {r : RunReport} (h : (run steps registry ctx w).1 = .ok r) :
    ∃ aliases, resolveAliases steps ctx.aliasStem = .ok aliases ∧ r.WellFormed steps aliases := by
  obtain ⟨aliases, ha, hh, rfl⟩ := run_ok h
  have hf := executions_fresh steps registry ctx w
  refine ⟨aliases, ha, ?_⟩
  rw [hh] at hf ⊢
  have hlen : (steps.zip aliases).length = steps.length := by
    rw [List.length_zip, length_of_resolveAliases ha, Nat.min_self]
  exact wellFormed_of_halts (history_names registry ctx.workDir (steps.zip aliases) .empty w)
    (hlen ▸ history_halts_at hf)

/-- A run has succeeded exactly if every step of its pipeline has a result that says so. -/
theorem RunReport.WellFormed.succeeded_iff {steps : List Step} {aliases : List String}
    {r : RunReport} (h : r.WellFormed steps aliases) (hl : aliases.length = steps.length) :
    r.status = .succeeded ↔ r.steps.map (fun s => (s.type, s.status)) =
      steps.map fun step => (step.type, .succeeded) := by
  constructor
  · intro hs
    obtain ⟨hnone, hlength⟩ := h.complete hs
    have hall : ∀ s ∈ r.steps, s.status = .succeeded := by
      intro s hm
      have hne := List.find?_eq_none.mp hnone s hm
      cases hstatus : s.status with
      | succeeded => rfl
      | errored => exact absurd (by simp [hstatus]) hne
    have hnames := h.names.eq_of_length (by simp [hlength, hl])
    have htypes : r.steps.map (·.type) = steps.map (·.type) := by
      have hsnd := congrArg (List.map Prod.snd) hnames
      simp only [List.map_map, Function.comp_def] at hsnd
      rw [hsnd]
      show (steps.zip aliases).map (Step.type ∘ Prod.fst) = _
      rw [← List.map_map, List.map_fst_zip (by omega)]
    calc r.steps.map (fun s => (s.type, s.status))
        = r.steps.map fun s => (s.type, .succeeded) :=
          List.map_congr_left fun s hm => by rw [hall s hm]
      _ = (r.steps.map (·.type)).map (·, .succeeded) := by rw [List.map_map]; rfl
      _ = steps.map fun step => (step.type, .succeeded) := by rw [htypes, List.map_map]; rfl
  · intro hall
    cases hs : r.status with
    | succeeded => rfl
    | errored =>
      obtain ⟨s, hlast, he⟩ := h.status.mp hs
      have hm := List.mem_map_of_mem (f := fun s => (s.type, s.status)) (List.mem_of_getLast? hlast)
      rw [hall] at hm
      obtain ⟨step, -, hstep⟩ := List.mem_map.mp hm
      have hstatus : Status.succeeded = s.status := congrArg Prod.snd hstep
      rw [he] at hstatus
      cases hstatus

/-- **Shape.** Whatever the runners do, the report of a run is well formed: it has one result for
each step up to the first that did not succeed, and the rest of it agrees with these. An errored
result tells of the failure that stopped the execution behind it. -/
theorem run_shape [Cancellable ω] {steps : List Step} {registry : Registry ω} {ctx : RunContext}
    {w : ω} {r : RunReport} (h : (run steps registry ctx w).1 = .ok r) :
    ∃ aliases, resolveAliases steps ctx.aliasStem = .ok aliases ∧ r.WellFormed steps aliases ∧
      ∀ (i : Nat) (s : StepReport), r.steps[i]? = some s → s.status = .errored →
        ∃ (a : Execution ω) (f : Failure),
          (executions steps registry ctx w)[i]? = some a ∧ a.report = s ∧
          executeStep registry ctx.workDir a.step a.aliasName a.state a.start =
            (a.outcome, a.finish) ∧
          a.FailsWith f ∧ s.Tells f := by
  obtain ⟨aliases, ha, hw⟩ := wellFormed_of_run h
  obtain ⟨-, -, -, rfl⟩ := run_ok h
  refine ⟨aliases, ha, hw, fun i s hi he => ?_⟩
  obtain ⟨a, hia, rfl⟩ : ∃ a, (executions steps registry ctx w)[i]? = some a ∧ a.report = s := by
    simpa [reportOf] using hi
  have hm := List.mem_of_getElem? hia
  rcases Execution.sound_or_tells (executions_fresh steps registry ctx w a hm) with
    hs | ⟨-, f, hff, ht⟩
  · rw [hs.status] at he; cases he
  · exact ⟨a, f, hia, rfl, executions_executes hm, hff, ht⟩

/-- Steps of which the second has no output in its configuration, which its schema demands. -/
def bareSteps : List Step :=
  [⟨none, "echo", []⟩, ⟨some "bare", "strict", []⟩, ⟨none, "echo", []⟩]

/-- A configuration that its schema refuses stops the run. -/
theorem run_shape_bare :
    ∃ r, (run bareSteps echoRegistry ⟨"/box", "step"⟩ ⟨false⟩).1 = .ok r ∧
      r.steps.map (·.error) = [none, some
        "step 'bare' (strict): invalid strict config: \"output\" is a required property"] ∧
      r.summary.notRun = 1 ∧ r.WellFormed bareSteps ["step-0", "bare", "step-2"] := by
  obtain ⟨r, hr, herror, hnot⟩ :
      ∃ r, (run bareSteps echoRegistry ⟨"/box", "step"⟩ ⟨false⟩).1 = .ok r ∧
        r.steps.map (·.error) = [none, some
          "step 'bare' (strict): invalid strict config: \"output\" is a required property"] ∧
        r.summary.notRun = 1 :=
    ⟨_, rfl, by rfl, by rfl⟩
  obtain ⟨aliases, ha, hw, -⟩ := run_shape hr
  cases ha
  exact ⟨r, hr, herror, hnot, hw⟩

end StepPipeline

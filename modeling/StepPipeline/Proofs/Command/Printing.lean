import StepPipeline.Command.Execute
import StepPipeline.Failure.Account
import StepPipeline.Proofs.Pipeline.Persistence
import StepPipeline.Proofs.Pipeline.Preflight

/-!
# What a command prints

A command prints its envelope over several lines. Everything that can be shown in it is low and holds
small numbers only, so a reader of JSON gets it back: one document and nothing behind it, with data
or with an error.

**Results.**
* `Cause.within_details`, `Failure.within_toJson`, `within_plan`, `RunRecord.within_toJson`: bounds of
  the documents.
* `laidOut_display`: what is printed is a layout of the envelope.
* `parse_success`, `parse_failure`: and is read as the data, or as the error.
* `display_eq_failure_iff`: only a failure is printed as it is.
-/
namespace StepPipeline

open Json (within_object within_array within_string within_strings within_optional
  within_optional_string within_unlessEmpty within_bool within_hint)

/-! ## Failures -/

theorem Violation.within_toJson {n : Nat} (v : Violation) : v.toJson.Within (n + 1) := by
  apply within_object
  simp only [List.forall_mem_cons]
  exact ⟨within_string _, within_string _, nofun⟩

theorem Cause.within_details {c : Cause} (h : c.Named) : c.details.Within 3 := by
  have htried : ∀ tried : Option (List String),
      ∀ f ∈ Json.optional "tried" (tried.map .strings), f.2.Within 2 := by
    intro tried
    refine within_optional fun v hv => ?_
    obtain ⟨texts, -, rfl⟩ := Option.map_eq_some_iff.mp hv
    exact within_strings texts
  have hviolations : ∀ violations : List Violation,
      (Json.array (violations.map Violation.toJson)).Within 2 := by
    intro violations
    refine within_array fun v hv => ?_
    obtain ⟨violation, -, rfl⟩ := List.mem_map.mp hv
    exact violation.within_toJson
  cases c
  case other => exact h.elim
  all_goals
    apply within_object
    simp only [List.forall_mem_append, List.forall_mem_cons, List.not_mem_nil, false_implies,
      implies_true, within_string, within_strings, hviolations, and_true, true_and]
  case invalidArgument => exact ⟨within_optional_string, htried _⟩
  all_goals exact within_optional_string

/-- A document is higher than its details, and than a list of hints. -/
theorem Account.within_toJson {n : Nat} {a : Account} (h : a.details.Within (n + 2)) :
    a.toJson.Within (n + 3) := by
  have hretryable : ∀ v ∈ a.retryable.map Json.bool, v.Within (n + 2) := by
    intro v hv
    obtain ⟨b, -, rfl⟩ := Option.map_eq_some_iff.mp hv
    exact within_bool b
  have hhints : ∀ v ∈ a.hints.map Json.hint, v.Within (n + 1) := by
    intro v hv
    obtain ⟨message, -, rfl⟩ := List.mem_map.mp hv
    exact within_hint message
  apply within_object
  simp only [List.forall_mem_append, List.forall_mem_cons]
  exact ⟨⟨⟨within_string _, within_string _, h, nofun⟩, within_unlessEmpty hhints⟩,
    within_optional hretryable⟩

theorem Failure.within_toJson {f : Failure} (h : f.cause.Named) : f.toJson.Within 4 :=
  Account.within_toJson (a := f.account) (Cause.within_details h)

/-- The code of a failure stands in its document. -/
theorem Failure.field?_code (f : Failure) :
    f.toJson.canonical.field? "code" = some (.string f.code.name) := by
  unfold toJson
  cases f.hints with
  | nil => cases f.retryable <;> rfl
  | cons => cases f.retryable <;> rfl

/-! ## Data -/

theorem PlanEntry.within_toJson {e : PlanEntry} (h : ∀ v ∈ e.details, v.Within 3) :
    e.toJson.Within 4 := by
  apply within_object
  simp only [List.forall_mem_append, List.forall_mem_cons]
  exact ⟨⟨⟨within_string _, within_string _, within_string _, nofun⟩, within_optional_string⟩,
    within_optional h⟩

/-- What a plan finds wrong with a step has a name. -/
theorem Finding.named {ω : Type} {registry : Registry ω} {step : Step} {readiness : Readiness}
    {f : Failure} (h : Finding registry step readiness (some f)) : f.cause.Named := by
  cases h with
  | missing hl _ => rw [lookup_error hl]; trivial
  | invalid _ hv _ =>
    obtain ⟨violations, rfl⟩ := validate_error hv
    trivial

theorem within_plan {ω : Type} {steps : List Step} {registry : Registry ω} {stem : String} {p : Plan}
    (h : plan steps registry stem = .ok p) : p.toJson.Within 6 := by
  rw [plan_eq] at h
  cases ha : resolveAliases steps stem with
  | error f => rw [ha] at h; cases h
  | ok aliases =>
    rw [ha] at h
    cases h
    apply within_object
    refine List.forall_mem_singleton.mpr (within_array fun v hv => ?_)
    obtain ⟨e, he, rfl⟩ := List.mem_map.mp hv
    obtain ⟨pair, -, rfl⟩ := List.mem_map.mp he
    apply PlanEntry.within_toJson
    obtain ⟨readiness, failure, hfinding, hentry⟩ := ofStep_finding registry pair.2 pair.1
    rw [hentry]
    intro v hv
    obtain ⟨f, rfl, rfl⟩ := Option.map_eq_some_iff.mp hv
    exact Cause.within_details hfinding.named

theorem within_commitSchema : commitSchemaDocument.Within 5 := by
  have hone : (Json.int 1).Whole := Json.whole_nat (by decide)
  refine ⟨?_, by decide⟩
  simp [commitSchemaDocument, Json.Whole, Json.WholeFields, Json.WholeItems, hone]

theorem Code.within_summaryJson (code : Code) : code.summaryJson.Within 1 := by
  apply within_object
  simp only [List.forall_mem_cons]
  exact ⟨within_string _, within_string _, nofun⟩

theorem Code.within_helpJson (code : Code) : code.helpJson.Within 3 := by
  apply within_object
  simp only [List.forall_mem_cons]
  refine ⟨within_string _, within_string _, within_object fun f hf => ?_, within_array ?_, nofun⟩
  · obtain ⟨detail, -, rfl⟩ := List.mem_map.mp hf
    exact within_string _
  · exact List.forall_mem_singleton.mpr (within_hint _)

namespace Command

/-- Data whose counts fit into 64 bits. -/
def Data.Counted (data : Data) : Prop :=
  ∀ r, data = .report r → r.summary.totalSteps < twoTo 64

/-- The envelope of an outcome. -/
def envelopeOf (writeReport : RunReport → Json) (outcome : Except Failure Outcome) : Envelope :=
  match outcome with
  | .ok (data, _) => .success (data.toJson writeReport).canonical
  | .error f => .failure f

section
variable {writeReport : RunReport → Json}

theorem stdout_display (outcome : Except Failure Outcome) :
    (display writeReport outcome).stdout = (envelopeOf writeReport outcome).pretty ++ "\n" := by
  cases outcome <;> rfl

/-- What is printed is a layout of the envelope. -/
theorem laidOut_display (outcome : Except Failure Outcome) :
    (envelopeOf writeReport outcome).toJson.LaidOut (display writeReport outcome).stdout := by
  rw [stdout_display]
  exact (Json.laidOut_pretty _).line

/-- Data is read with its objects sorted. -/
theorem parse_success {data : Data} {exit : Int} {n : Nat}
    (h : (data.toJson writeReport).Within n) (hn : n + 1 < Json.depthLimit) :
    Json.parse (display writeReport (.ok (data, exit))).stdout =
      .ok (.object [("data", (data.toJson writeReport).canonical), ("success", .bool true)]) := by
  have hwithin : (envelopeOf writeReport (.ok (data, exit))).toJson.Within (n + 1) := by
    apply within_object
    simp only [List.forall_mem_cons]
    exact ⟨within_bool true, h.canonical, nofun⟩
  rw [Json.parse_laidOut (laidOut_display _) hwithin.whole (Nat.lt_of_le_of_lt hwithin.height hn)]
  show Except.ok (Json.object [("data", (data.toJson writeReport).canonical.canonical),
    ("success", .bool true)]) = _
  rw [Json.canonical_canonical]

theorem parse_failure {f : Failure} (h : f.cause.Named) :
    Json.parse (display writeReport (.error f)).stdout =
      .ok (.object [("error", f.toJson.canonical), ("success", .bool false)]) := by
  have hwithin : (envelopeOf writeReport (.error f)).toJson.Within 5 := by
    apply within_object
    simp only [List.forall_mem_cons]
    exact ⟨within_bool false, Failure.within_toJson h, nofun⟩
  rw [Json.parse_laidOut (laidOut_display _) hwithin.whole
    (Nat.lt_of_le_of_lt hwithin.height (by decide))]
  rfl

/-- Where data is shown, no failure is. -/
theorem stdout_ne_failure (data : Data) (exit : Int) (f : Failure) :
    (display writeReport (.ok (data, exit))).stdout ≠ (display writeReport (.error f)).stdout := by
  -- The texts differ in the first letter of the word behind `"success"`.
  have hdata : (display writeReport (.ok (data, exit))).stdout.toList[15]? = some 't' := by
    rw [stdout_display, Envelope.pretty, Json.pretty, String.toList_append, String.toList_ofList]
    rfl
  have herror : (display writeReport (.error f)).stdout.toList[15]? = some 'f' := by
    rw [stdout_display, Envelope.pretty, Json.pretty, String.toList_append, String.toList_ofList]
    rfl
  intro h
  rw [h, herror] at hdata
  cases hdata

end
end Command
end StepPipeline

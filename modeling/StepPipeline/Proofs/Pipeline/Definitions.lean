import StepPipeline.Pipeline.Source

/-!
# Configurations are kept sorted

The configuration of a step is a value whose objects have their fields in order, each key once, on
every level. The type of configurations does not say so; that it is so is seen where they are read.

**Sorted steps (`Step.Sorted`).** The configuration is the canonical form of some value.

**Results.**
* `canonical_of_json`: every value that is read from a document is in canonical form.
* `decode_preserves`: what holds of a record before it is read and is kept by each of its fields
  holds of the record that is read.
* `sorted_of_definition`: so every step that a definition defines is sorted.
-/
namespace StepPipeline

open Document (Node Fault Position Record Decoder)

variable {α : Type}

/-- The configuration of the step is an object as it is kept: sorted on every level. -/
def Step.Sorted (step : Step) : Prop := ∃ value : Json, value.canonical = .object step.config

namespace Document

theorem bind_ok {ε β : Type} {x : Except ε α} {f : α → Except ε β} {b : β}
    (h : (x >>= f) = .ok b) : ∃ a, x = .ok a ∧ f a = .ok b := by
  cases x with
  | error e => cases h
  | ok a => exact ⟨a, rfl, h⟩

theorem map_ok {β : Type} {x : Except Fault α} {f : α → β} {b : β} (h : x.map f = .ok b) :
    ∃ a, x = .ok a ∧ f a = b := by
  cases x with
  | error e => cases h
  | ok a => cases h; exact ⟨a, rfl, rfl⟩

theorem mapError_ok {ε ε' : Type} {x : Except ε α} {g : ε → ε'} {a : α}
    (h : x.mapError g = .ok a) : x = .ok a := by
  cases x with
  | error e => cases h
  | ok b => cases h; rfl

/-! ## Values -/

namespace Node

mutual

/-- What is read as a value is in canonical form. -/
theorem canonical_of_json {v : Json} :
    {node : Node} → node.json = .ok v → ∃ value : Json, value.canonical = v
  | .scalar _ _ value _, h => by
    refine ⟨v, ?_⟩
    unfold json at h
    split at h
    · cases h
    · cases h; rfl
    · cases h; rfl
    · cases h; rfl
    · cases h; rfl
    · cases h; split <;> rfl
  | .sequence frame items, h => by
    unfold json at h
    obtain ⟨_, -, h⟩ := bind_ok h
    obtain ⟨values, hv, h⟩ := bind_ok h
    obtain ⟨_, -, h⟩ := bind_ok h
    obtain ⟨raw, rfl⟩ := canonicalItems_of_json hv
    cases h
    exact ⟨.array raw, rfl⟩
  | .mapping frame entries, h => by
    unfold json at h
    obtain ⟨_, -, h⟩ := bind_ok h
    obtain ⟨fields, hf, h⟩ := bind_ok h
    obtain ⟨_, -, h⟩ := bind_ok h
    obtain ⟨raw, rfl⟩ := canonicalFields_of_json hf
    cases h
    exact ⟨.object raw, rfl⟩

theorem canonicalItems_of_json {vs : List Json} :
    {items : List (Option Fault × Node)} → jsonItems items = .ok vs →
      ∃ values, Json.canonicalItems values = vs
  | [], h => by cases h; exact ⟨[], rfl⟩
  | (_, item) :: rest, h => by
    unfold jsonItems at h
    obtain ⟨v, hv, h⟩ := bind_ok h
    obtain ⟨more, hm, h⟩ := bind_ok h
    obtain ⟨value, rfl⟩ := canonical_of_json hv
    obtain ⟨values, rfl⟩ := canonicalItems_of_json hm
    cases h
    exact ⟨value :: values, rfl⟩

theorem canonicalFields_of_json {fs : Fields} :
    {entries : List (Option Position × Node × Node)} → jsonFields entries = .ok fs →
      ∃ fields, Json.canonicalFields fields = fs
  | [], h => by cases h; exact ⟨[], rfl⟩
  | (_, key, value) :: rest, h => by
    unfold jsonFields at h
    obtain ⟨k, -, h⟩ := bind_ok h
    obtain ⟨v, hv, h⟩ := bind_ok h
    obtain ⟨more, hm, h⟩ := bind_ok h
    obtain ⟨value, rfl⟩ := canonical_of_json hv
    obtain ⟨fields, rfl⟩ := canonicalFields_of_json hm
    cases h
    exact ⟨(k, value) :: fields, rfl⟩

end

end Node

theorem canonical_of_fields {node : Node} {fields : Fields}
    (h : Decoder.fields node = .ok fields) : ∃ value : Json, value.canonical = .object fields := by
  unfold Decoder.fields at h
  split at h
  · obtain ⟨_, -, h⟩ := bind_ok h
    obtain ⟨raw, hraw, h⟩ := bind_ok h
    obtain ⟨_, -, h⟩ := bind_ok h
    obtain ⟨raw, rfl⟩ := Node.canonicalFields_of_json hraw
    cases h
    exact ⟨.object raw, rfl⟩
  · cases h

/-! ## Lists and records -/

theorem forall_of_items {decode : Decoder α} {P : α → Prop}
    (hdecode : ∀ node a, decode node = .ok a → P a) {items : List (Option Fault × Node)}
    {as : List α} (h : Decoder.items decode items = .ok as) : ∀ a ∈ as, P a := by
  induction items generalizing as with
  | nil => cases h; exact nofun
  | cons item rest ih =>
    unfold Decoder.items at h
    obtain ⟨a, ha, h⟩ := bind_ok h
    obtain ⟨more, hm, h⟩ := bind_ok h
    cases h
    exact List.forall_mem_cons.mpr ⟨hdecode _ a ha, ih hm⟩

theorem forall_of_list {decode : Decoder α} {P : α → Prop}
    (hdecode : ∀ node a, decode node = .ok a → P a) {node : Node} {as : List α}
    (h : Decoder.list decode node = .ok as) : ∀ a ∈ as, P a := by
  unfold Decoder.list at h
  split at h
  · obtain ⟨_, -, h⟩ := bind_ok h
    obtain ⟨read, hread, h⟩ := bind_ok h
    obtain ⟨_, -, h⟩ := bind_ok h
    cases h
    exact forall_of_items hdecode hread
  · cases h

namespace Record

variable {r : Record α} {P : α → Prop}
  (hfields : ∀ f ∈ r.fields, ∀ node set, f.read node = .ok set → ∀ a, P a → P (set a))
include hfields

theorem readEntries_preserves {seen seen' : List Nat} {a b : α}
    {entries : List (Option Position × Node × Node)} (ha : P a)
    (h : r.readEntries seen a entries = .ok (seen', b)) : P b := by
  induction entries generalizing seen a with
  | nil => cases h; exact ha
  | cons entry rest ih =>
    unfold readEntries at h
    obtain ⟨index, -, h⟩ := bind_ok h
    split at h
    · obtain ⟨_, -, h⟩ := bind_ok h
      exact ih ha h
    · rename_i i f hf
      split at h
      · cases h
      · obtain ⟨set, hset, h⟩ := bind_ok h
        obtain ⟨j, -, hj⟩ := Option.bind_eq_some_iff.mp hf
        obtain ⟨g, hg, hpair⟩ := Option.map_eq_some_iff.mp hj
        cases hpair
        exact ih (hfields f (List.mem_of_getElem? hg) _ set hset a ha) h

theorem readItems_preserves {frame : Frame} {total i : Nat} {fields : List (Field α)} {a b : α}
    {items : List (Option Fault × Node)} (hsub : ∀ f ∈ fields, f ∈ r.fields) (ha : P a)
    (h : r.readItems frame total a i fields items = .ok b) : P b := by
  induction fields generalizing i a items with
  | nil =>
    cases items with
    | nil =>
      unfold readItems at h
      split at h
      · cases h; exact ha
      · cases h
    | cons item rest => cases h
  | cons f fields ih =>
    obtain ⟨hf, hrest⟩ := List.forall_mem_cons.mp hsub
    cases items with
    | nil =>
      unfold readItems at h
      obtain ⟨_, -, h⟩ := bind_ok h
      split at h
      · exact ih hrest ha h
      · cases h
    | cons item rest =>
      unfold readItems at h
      obtain ⟨set, hset, h⟩ := bind_ok h
      exact ih hrest (hfields f hf _ set hset a ha) h

/-- What holds before a record is read, and is kept by each of its fields, holds when it is read. -/
theorem decode_preserves (hstart : P r.start) {node : Node} {a : α} (h : r.decode node = .ok a) :
    P a := by
  unfold decode at h
  split at h
  · obtain ⟨_, -, h⟩ := bind_ok h
    obtain ⟨⟨seen, b⟩, hread, h⟩ := bind_ok h
    obtain ⟨_, -, h⟩ := bind_ok h
    split at h
    · cases h
    · cases h
      exact readEntries_preserves hfields hstart hread
  · obtain ⟨_, -, h⟩ := bind_ok h
    exact readItems_preserves hfields (fun _ => id) hstart h
  · cases h

end Record
end Document

/-! ## Steps -/

theorem sorted_of_decode {node : Node} {step : Step} (h : Step.decode node = .ok step) :
    step.Sorted := by
  refine Record.decode_preserves ?_ ⟨.object [], rfl⟩ h
  intro f hf value set hset s hs
  simp only [Step.record, List.mem_cons, List.not_mem_nil, or_false] at hf
  rcases hf with rfl | rfl | rfl
  · obtain ⟨aliasName, -, rfl⟩ := Document.map_ok hset
    exact hs
  · obtain ⟨type, -, rfl⟩ := Document.map_ok hset
    exact hs
  · obtain ⟨config, hconfig, rfl⟩ := Document.map_ok hset
    exact Document.canonical_of_fields hconfig

/-- **Definitions.** Every step that a definition defines is sorted. -/
theorem sorted_of_definition {node : Node} {steps : List Step}
    (h : decodeDefinition node = .ok steps) : ∀ step ∈ steps, step.Sorted := by
  have hlist : ∀ {node : Node} {steps : List Step}, Step.decodeList node = .ok steps →
      ∀ step ∈ steps, step.Sorted :=
    Document.forall_of_list fun _ _ => sorted_of_decode
  obtain ⟨_, -, h⟩ := Document.bind_ok h
  unfold definedSteps at h
  dsimp only at h
  split at h
  · rename_i read hread
    cases h
    split at hread
    · refine @Record.decode_preserves _ wrappedSteps (fun steps => ∀ step ∈ steps, step.Sorted) ?_
        nofun _ _ hread
      intro f hf value set hset before _
      rw [List.mem_singleton.mp hf] at hset
      obtain ⟨read, hvalue, rfl⟩ := Document.map_ok hset
      exact hlist hvalue
    · exact hlist hread
  · cases h

end StepPipeline

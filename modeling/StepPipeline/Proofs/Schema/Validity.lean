import StepPipeline.Proofs.Json.Ordered
import StepPipeline.Schema.Check

/-!
# What a valid value looks like

A value is valid if no violation is found in it. Here this is read rule by rule, as a statement
about the value.

**Results.**
* `violations_eq_nil_iff`: a schema is met rule by rule.
* `kinds_iff`, `items_iff`, `members_iff`, `required_iff`: what it takes to meet a rule.
* `picked_of_members`, `valid_member`, `text_member`: what an object of known properties holds.
-/
namespace StepPipeline.Schema

variable {path : String} {value : Json} {fields : Fields} {items : List Json}

theorem violations_eq_nil_iff {schema : Schema} :
    violations path value schema = [] ↔ ∀ rule ∈ schema, ruleViolations path value rule = [] := by
  induction schema with
  | nil => simp [violations]
  | cons rule rest ih => simp [violations, ih]

theorem validate_ok_iff {validator : Validator} {stepType : String} :
    validate validator stepType value = .ok () ↔ validator value = [] := by
  unfold validate
  cases validator value with
  | nil => simp
  | cons first rest => simp

/-! ## Kinds -/

theorem kinds_iff {kind : ValueKind} :
    ruleViolations path value (.kinds [kind]) = [] ↔ kind.admits value = true := by
  simp [ruleViolations, Rule.problems]

theorem kind_of_valid {schema : Schema} {kind : ValueKind} (h : violations path value schema = [])
    (hk : .kinds [kind] ∈ schema) : kind.admits value = true :=
  kinds_iff.mp (violations_eq_nil_iff.mp h _ hk)

theorem string_of_valid {schema : Schema} (h : violations path value schema = [])
    (hk : .kinds [.string] ∈ schema) : ∃ s, value = .string s := by
  have hkind := kind_of_valid h hk
  cases value with
  | string s => exact ⟨s, rfl⟩
  | _ => cases hkind

theorem array_of_valid {schema : Schema} (h : violations path value schema = [])
    (hk : .kinds [.array] ∈ schema) : ∃ items, value = .array items := by
  have hkind := kind_of_valid h hk
  cases value with
  | array items => exact ⟨items, rfl⟩
  | _ => cases hkind

theorem object_of_valid {schema : Schema} (h : violations path value schema = [])
    (hk : .kinds [.object] ∈ schema) : ∃ fields : Fields, value = .object fields := by
  have hkind := kind_of_valid h hk
  cases value with
  | object fields => exact ⟨fields, rfl⟩
  | _ => cases hkind

/-! ## Items and properties -/

theorem items_iff {schema : Schema} :
    ruleViolations path (.array items) (.items schema) = [] ↔
      ∀ (i : Nat) (item : Json), items[i]? = some item →
        violations (path ++ "/" ++ toString i) item schema = [] := by
  simp only [ruleViolations, List.flatMap_eq_nil_iff]
  constructor
  · intro h i item hi
    have hmem : (i, item) ∈ items.mapIdx fun i item => (i, item) := by
      refine List.mem_iff_getElem?.mpr ⟨i, ?_⟩
      rw [List.getElem?_mapIdx, hi]
      rfl
    exact h (i, item) hmem
  · rintro h ⟨i, item⟩ hmem
    obtain ⟨j, hj, he⟩ := List.mem_mapIdx.mp hmem
    rw [Prod.mk.injEq] at he
    obtain ⟨rfl, rfl⟩ := he
    exact h j _ (List.getElem?_eq_getElem hj)

theorem memberViolations_eq (name : String) (known : List (String × List Rule)) :
    memberViolations path name value known = (known.lookup name).map (violations path value) := by
  induction known with
  | nil => rfl
  | cons first rest ih =>
    obtain ⟨key, schema⟩ := first
    unfold memberViolations
    by_cases h : name = key
    · simp [h]
    · have hb : (name == key) = false := by simpa using h
      rw [if_neg h, ih, List.lookup_cons, hb]

/-- Where no others are allowed, every property is a known one. -/
theorem members_iff {known : List (String × List Rule)} :
    ruleViolations path (.object fields) (.members known none) = [] ↔
      ∀ field ∈ fields, ∃ schema, known.lookup field.1 = some schema ∧
        violations (path ++ pointerToken field.1) field.2 schema = [] := by
  have hunexpected : ∀ names : List String,
      (if names.isEmpty then [] else [(⟨path, Rule.unexpectedMessage names⟩ : Violation)]) = [] ↔
        names = [] := by
    intro names
    cases names <;> simp
  simp only [ruleViolations, List.append_eq_nil_iff, List.flatMap_eq_nil_iff, memberViolations_eq,
    hunexpected, List.filter_eq_nil_iff, List.forall_mem_map]
  constructor
  · rintro ⟨hmet, hknown⟩ field hfield
    cases hl : known.lookup field.1 with
    | none => exact absurd (by rw [hl]; rfl) (hknown field hfield)
    | some schema =>
      have h := hmet field hfield
      rw [hl] at h
      exact ⟨schema, rfl, h⟩
  · intro h
    refine ⟨?_, ?_⟩
    · intro field hfield
      obtain ⟨schema, hl, hv⟩ := h field hfield
      rw [hl]
      exact hv
    · intro field hfield
      obtain ⟨schema, hl, -⟩ := h field hfield
      simp [hl]

theorem required_iff {names : List String} :
    ruleViolations path (.object fields) (.required names) = [] ↔
      ∀ name ∈ names, ∃ v, fields.get? name = some v := by
  simp only [ruleViolations, Rule.problems, List.map_eq_nil_iff, List.filter_eq_nil_iff,
    Option.isNone_iff_eq_none, ← Option.ne_none_iff_exists', Fields.get?, ne_eq]

/-! ## Objects of known properties -/

section
variable {known : List (String × List Rule)} {name : String} {schema : Schema}

/-- Its properties are those that it has of the known ones. -/
theorem picked_of_members (hf : fields.Ordered) (hn : (known.map (·.1)).Pairwise (· < ·))
    (h : ruleViolations path (.object fields) (.members known none) = []) :
    fields = fields.picked (known.map (·.1)) := by
  refine Fields.eq_picked hn hf ?_
  intro field hfield
  obtain ⟨schema, hl, -⟩ := members_iff.mp h field hfield
  obtain ⟨before, after, rfl, -⟩ := List.lookup_eq_some_iff.mp hl
  simp

theorem valid_member (h : ruleViolations path (.object fields) (.members known none) = [])
    (hl : known.lookup name = some schema) (hv : fields.get? name = some value) :
    ∃ place, violations place value schema = [] := by
  obtain ⟨schema', hl', hvalid⟩ := members_iff.mp h _ (Fields.mem_of_get? hv)
  obtain rfl : schema' = schema := Option.some.inj (hl'.symm.trans hl)
  exact ⟨_, hvalid⟩

theorem exists_optional {α : Type} {f : α → Json} {found : Option Json}
    (h : ∀ v, found = some v → ∃ a, v = f a) : ∃ a : Option α, found = a.map f := by
  cases found with
  | none => exact ⟨none, rfl⟩
  | some v =>
    obtain ⟨a, rfl⟩ := h v rfl
    exact ⟨some a, rfl⟩

theorem text_member (h : ruleViolations path (.object fields) (.members known none) = [])
    (hl : known.lookup name = some schema) (hk : .kinds [.string] ∈ schema) :
    ∃ text : Option String, fields.get? name = text.map .string := by
  refine exists_optional ?_
  intro v hv
  obtain ⟨place, hvalid⟩ := valid_member h hl hv
  exact string_of_valid hvalid hk

end

end StepPipeline.Schema

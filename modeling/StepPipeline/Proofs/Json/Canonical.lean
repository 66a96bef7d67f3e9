import StepPipeline.Proofs.Json.Layouts
import StepPipeline.Proofs.Json.Ordered

/-!
# Values in canonical form

Bringing a value into canonical form twice changes nothing the second time, and makes it neither
higher nor its numbers any other.

**Bounds (`Within`).** The numbers of the value are whole and fit into 64 bits, and no more than so
many arrays and objects stand inside each other: what a reader of its text asks for.

**Results.**
* `canonical_canonical`: the canonical form is its own canonical form.
* `within_canonical`: it is within the bounds of the value.
-/
namespace StepPipeline

namespace Fields

/-- A field behind all others is put at the end. -/
theorem insert_last {key : String} {value : Json} {fields : Fields}
    (h : ∀ field ∈ fields, field.1 < key) : fields.insert key value = fields ++ [(key, value)] := by
  induction fields with
  | nil => rfl
  | cons first rest ih =>
    obtain ⟨k, v⟩ := first
    obtain ⟨hk, hrest⟩ := List.forall_mem_cons.mp h
    have hlt : ¬ key < k := fun hlt => String.lt_irrefl k (String.lt_trans hk hlt)
    have hne : ¬ key = k := fun he => String.lt_irrefl k (he ▸ hk)
    rw [insert, if_neg hlt, if_neg hne, ih hrest]
    rfl

/-- Fields in order stay as they are. -/
theorem sorted_of_ordered {fields : Fields} (h : Ordered fields) : fields.sorted = fields := by
  have hfoldl : ∀ (back front : Fields), Ordered (front ++ back) →
      back.foldl (fun acc field => acc.insert field.1 field.2) front = front ++ back := by
    intro back
    induction back with
    | nil => intro front _; exact (List.append_nil front).symm
    | cons field back ih =>
      intro front hordered
      have hbefore : ∀ f ∈ front, f.1 < field.1 := fun f hf =>
        (List.pairwise_append.mp hordered).2.2 f hf field List.mem_cons_self
      have hput : front.insert field.1 field.2 = front ++ [field] := insert_last hbefore
      rw [List.append_cons] at hordered ⊢
      have hrest := ih (front ++ [field]) hordered
      rw [← hput] at hrest ⊢
      exact hrest
  exact hfoldl fields [] h

end Fields

namespace Json

/-! ## The canonical form again -/

theorem canonicalFields_of_canonical {fields : Fields} (h : ∀ f ∈ fields, f.2.canonical = f.2) :
    canonicalFields fields = fields := by
  induction fields with
  | nil => rfl
  | cons f rest ih =>
    obtain ⟨hf, hrest⟩ := List.forall_mem_cons.mp h
    rw [canonicalFields, hf, ih hrest]

theorem canonicalItems_of_canonical {values : List Json} (h : ∀ v ∈ values, v.canonical = v) :
    canonicalItems values = values := by
  induction values with
  | nil => rfl
  | cons v rest ih =>
    obtain ⟨hv, hrest⟩ := List.forall_mem_cons.mp h
    rw [canonicalItems, hv, ih hrest]

theorem canonicalItems_strings (texts : List String) :
    canonicalItems (texts.map string) = texts.map string :=
  canonicalItems_of_canonical fun v hv => by
    obtain ⟨text, -, rfl⟩ := List.mem_map.mp hv
    rfl

theorem canonical_strings (texts : List String) : (strings texts).canonical = strings texts :=
  congrArg array (canonicalItems_strings texts)

mutual

/-- The canonical form is its own canonical form. -/
theorem canonical_canonical : (v : Json) → v.canonical.canonical = v.canonical
  | null => rfl
  | bool _ => rfl
  | number _ => rfl
  | string _ => rfl
  | array values => congrArg array (canonicalItems_canonicalItems values)
  | object fields => by
    have hsame : canonicalFields (Fields.sorted (canonicalFields fields)) =
        Fields.sorted (canonicalFields fields) := by
      apply canonicalFields_of_canonical
      intro f hf
      exact canonical_of_mem fields f (Fields.mem_of_mem_sorted hf)
    simp only [canonical, hsame, Fields.sorted_of_ordered (Fields.ordered_sorted _)]

theorem canonicalItems_canonicalItems : (values : List Json) →
    canonicalItems (canonicalItems values) = canonicalItems values
  | [] => rfl
  | v :: rest => by
    simp only [canonicalItems, canonical_canonical v, canonicalItems_canonicalItems rest]

theorem canonical_of_mem : (fields : List (String × Json)) →
    ∀ f ∈ canonicalFields fields, f.2.canonical = f.2
  | [] => nofun
  | (_, v) :: rest => List.forall_mem_cons.mpr ⟨canonical_canonical v, canonical_of_mem rest⟩

end

/-! ## Bounds -/

theorem heightItems_le_iff {n : Nat} {values : List Json} :
    heightItems values ≤ n ↔ ∀ v ∈ values, v.height ≤ n := by
  induction values with
  | nil => simp [heightItems]
  | cons v rest ih =>
    rw [List.forall_mem_cons, ← ih, heightItems]
    exact Nat.max_le

theorem heightFields_le_iff {n : Nat} {fields : Fields} :
    heightFields fields ≤ n ↔ ∀ f ∈ fields, f.2.height ≤ n := by
  induction fields with
  | nil => simp [heightFields]
  | cons f rest ih =>
    rw [List.forall_mem_cons, ← ih, heightFields]
    exact Nat.max_le

/-- The numbers of the value are whole and fit into 64 bits, and it is at most `n` high. -/
structure Within (n : Nat) (v : Json) : Prop where
  whole : v.Whole
  height : v.height ≤ n

section
variable {n m : Nat} {v : Json}

theorem Within.mono (h : v.Within n) (hn : n ≤ m) : v.Within m :=
  ⟨h.whole, Nat.le_trans h.height hn⟩

theorem within_string (s : String) : (string s).Within n :=
  ⟨trivial, Nat.zero_le n⟩

theorem within_bool (b : Bool) : (bool b).Within n :=
  ⟨trivial, Nat.zero_le n⟩

theorem within_nat {m : Nat} (h : m < twoTo 64) : (nat m).Within n :=
  ⟨whole_nat h, Nat.zero_le n⟩

theorem within_array {values : List Json} (h : ∀ v ∈ values, v.Within n) :
    (array values).Within (n + 1) :=
  ⟨whole_array fun v hv => (h v hv).whole,
    Nat.succ_le_succ (heightItems_le_iff.mpr fun v hv => (h v hv).height)⟩

theorem within_object {fields : Fields} (h : ∀ f ∈ fields, f.2.Within n) :
    (object fields).Within (n + 1) :=
  ⟨whole_object fun f hf => (h f hf).whole,
    Nat.succ_le_succ (heightFields_le_iff.mpr fun f hf => (h f hf).height)⟩

theorem within_strings (texts : List String) : (strings texts).Within (n + 1) := by
  apply within_array
  intro v hv
  obtain ⟨text, -, rfl⟩ := List.mem_map.mp hv
  exact within_string text

theorem within_optional {key : String} {value : Option Json} (h : ∀ v ∈ value, v.Within n) :
    ∀ f ∈ optional key value, f.2.Within n := by
  cases value with
  | none => exact nofun
  | some v =>
    intro f hf
    rw [List.mem_singleton.mp hf]
    exact h v rfl

theorem within_optional_string {key : String} {text : Option String} :
    ∀ f ∈ optional key (text.map string), f.2.Within n := by
  refine within_optional fun v hv => ?_
  obtain ⟨text, -, rfl⟩ := Option.map_eq_some_iff.mp hv
  exact within_string text

theorem within_unlessEmpty {key : String} {values : List Json} (h : ∀ v ∈ values, v.Within n) :
    ∀ f ∈ unlessEmpty key values, f.2.Within (n + 1) := by
  cases values with
  | nil => exact nofun
  | cons v rest =>
    intro f hf
    rw [List.mem_singleton.mp hf]
    exact within_array h

/-- Some bound holds of all of finitely many values. -/
theorem exists_within {values : List Json} (h : ∀ v ∈ values, v.Whole) :
    ∃ n, ∀ v ∈ values, v.Within n :=
  ⟨heightItems values, fun v hv => ⟨h v hv, heightItems_le_iff.mp (Nat.le_refl _) v hv⟩⟩

end

mutual

/-- The canonical form is within the bounds of the value. -/
theorem within_canonical : (v : Json) → v.Whole → v.canonical.Within v.height
  | null, _ => ⟨trivial, Nat.le_refl 0⟩
  | bool b, _ => within_bool b
  | number x, h => ⟨h, Nat.le_refl 0⟩
  | string s, _ => within_string s
  | array values, h => within_array (within_canonicalItems values h)
  | object fields, h => by
    apply within_object
    intro f hf
    exact within_canonicalFields fields h f (Fields.mem_of_mem_sorted hf)

theorem within_canonicalItems : (values : List Json) → WholeItems values →
    ∀ v ∈ canonicalItems values, v.Within (heightItems values)
  | [], _ => nofun
  | v :: rest, ⟨hv, hrest⟩ => by
    refine List.forall_mem_cons.mpr ⟨?_, fun w hw => ?_⟩
    · exact (within_canonical v hv).mono (Nat.le_max_left _ _)
    · exact (within_canonicalItems rest hrest w hw).mono (Nat.le_max_right _ _)

theorem within_canonicalFields : (fields : List (String × Json)) → WholeFields fields →
    ∀ f ∈ canonicalFields fields, f.2.Within (heightFields fields)
  | [], _ => nofun
  | (_, v) :: rest, ⟨hv, hrest⟩ => by
    refine List.forall_mem_cons.mpr ⟨?_, fun f hf => ?_⟩
    · exact (within_canonical v hv).mono (Nat.le_max_left _ _)
    · exact (within_canonicalFields rest hrest f hf).mono (Nat.le_max_right _ _)

end

theorem Within.canonical {n : Nat} {v : Json} (h : v.Within n) : v.canonical.Within n :=
  (within_canonical v h.whole).mono h.height

end Json
end StepPipeline

import StepPipeline.Json.Basic

/-!
# Values as data

The fields of an object that has been read as data are in the order of their keys, each key once.

**Order (`Fields.Ordered`).** The keys increase strictly.

**Results.**
* `ordered_sorted`: sorting brings the fields into order, and brings in no other field
  (`mem_of_mem_sorted`).
* `eq_picked`: ordered fields are known from what is found under their keys.
-/
namespace StepPipeline

namespace Fields

/-- The keys increase. -/
def Ordered (fields : Fields) : Prop :=
  fields.Pairwise fun a b => a.1 < b.1

theorem mem_of_mem_insert {key : String} {value : Json} {fields : Fields} {field : String × Json}
    (h : field ∈ fields.insert key value) : field = (key, value) ∨ field ∈ fields := by
  induction fields with
  | nil => exact Or.inl (List.mem_singleton.mp h)
  | cons first rest ih =>
    obtain ⟨k, v⟩ := first
    unfold insert at h
    split at h
    · exact List.mem_cons.mp h
    · split at h
      · rcases List.mem_cons.mp h with rfl | h
        · exact Or.inl rfl
        · exact Or.inr (List.mem_cons_of_mem _ h)
      · rcases List.mem_cons.mp h with rfl | h
        · exact Or.inr List.mem_cons_self
        · rcases ih h with h | h
          · exact Or.inl h
          · exact Or.inr (List.mem_cons_of_mem _ h)

theorem ordered_insert (key : String) (value : Json) {fields : Fields} (h : Ordered fields) :
    Ordered (fields.insert key value) := by
  induction fields with
  | nil => exact List.pairwise_singleton _ _
  | cons first rest ih =>
    obtain ⟨k, v⟩ := first
    obtain ⟨hfirst, hrest⟩ := List.pairwise_cons.mp h
    unfold insert
    split
    · rename_i hlt
      refine List.pairwise_cons.mpr ⟨?_, h⟩
      intro field hfield
      rcases List.mem_cons.mp hfield with rfl | hfield
      · exact hlt
      · exact String.lt_trans hlt (hfirst field hfield)
    · rename_i hnlt
      split
      · rename_i heq
        subst heq
        exact List.pairwise_cons.mpr ⟨hfirst, hrest⟩
      · rename_i hne
        have hlt : k < key := Std.lt_of_le_of_ne (String.not_lt.mp hnlt) (Ne.symm hne)
        refine List.pairwise_cons.mpr ⟨?_, ih hrest⟩
        intro field hfield
        rcases mem_of_mem_insert hfield with rfl | hfield
        · exact hlt
        · exact hfirst field hfield

/-- Sorting keeps what holds of every field. -/
theorem sorted_induction {P : Fields → Prop} (fields : Fields) (hnil : P [])
    (hinsert : ∀ field ∈ fields, ∀ done, P done → P (done.insert field.1 field.2)) :
    P fields.sorted := by
  unfold sorted
  generalize ([] : Fields) = done at hnil
  induction fields generalizing done with
  | nil => exact hnil
  | cons first rest ih =>
    refine ih (fun field hfield => hinsert field (List.mem_cons_of_mem _ hfield)) _ ?_
    exact hinsert first List.mem_cons_self _ hnil

theorem ordered_sorted (fields : Fields) : Ordered fields.sorted := by
  refine sorted_induction fields List.Pairwise.nil ?_
  intro field _ done h
  exact ordered_insert _ _ h

theorem mem_of_mem_sorted {fields : Fields} {field : String × Json} (h : field ∈ fields.sorted) :
    field ∈ fields := by
  have hall : ∀ f ∈ fields.sorted, f ∈ fields := by
    refine @sorted_induction (fun done => ∀ f ∈ done, f ∈ fields) fields nofun ?_
    intro g hg done hdone f hf
    rcases mem_of_mem_insert hf with rfl | hf
    · exact hg
    · exact hdone f hf
  exact hall field h

/-- The fields under the given names, as far as they are there. -/
def picked (names : List String) (fields : Fields) : Fields :=
  names.flatMap fun name => Json.optional name (fields.get? name)

theorem get?_cons_self (key : String) (value : Json) (rest : Fields) :
    Fields.get? ((key, value) :: rest) key = some value := by
  simp [get?]

theorem get?_cons_of_ne {key name : String} (h : name ≠ key) (value : Json) (rest : Fields) :
    Fields.get? ((key, value) :: rest) name = Fields.get? rest name := by
  have hb : (name == key) = false := by simpa using h
  simp [get?, List.lookup_cons, hb]

theorem mem_of_get? {fields : Fields} {name : String} {value : Json}
    (h : fields.get? name = some value) : (name, value) ∈ fields := by
  induction fields with
  | nil => cases h
  | cons first rest ih =>
    obtain ⟨k, v⟩ := first
    by_cases hk : name = k
    · subst hk
      rw [get?_cons_self] at h
      cases h
      exact List.mem_cons_self
    · rw [get?_cons_of_ne hk] at h
      exact List.mem_cons_of_mem _ (ih h)

theorem get?_of_mem {fields : Fields} (h : (fields.map (·.1)).Nodup) {name : String}
    {value : Json} (hm : (name, value) ∈ fields) : fields.get? name = some value := by
  induction fields with
  | nil => cases hm
  | cons first rest ih =>
    obtain ⟨hfirst, hrest⟩ := List.nodup_cons.mp h
    rcases List.mem_cons.mp hm with rfl | hm
    · exact get?_cons_self _ _ _
    · have hne : name ≠ first.1 := by
        rintro rfl
        exact hfirst (List.mem_map.mpr ⟨_, hm, rfl⟩)
      rw [get?_cons_of_ne hne]
      exact ih hrest hm

theorem get?_of_lt {fields : Fields} {name : String} (h : ∀ field ∈ fields, name < field.1) :
    fields.get? name = none := by
  cases hg : fields.get? name with
  | none => rfl
  | some value => exact absurd (h _ (mem_of_get? hg)) (String.lt_irrefl name)

theorem picked_nil (names : List String) : picked names [] = [] :=
  List.flatMap_eq_nil_iff.mpr fun _ _ => rfl

theorem picked_cons_of_lt {key : String} {value : Json} {rest : Fields} {names : List String}
    (h : ∀ name ∈ names, key < name) : picked names ((key, value) :: rest) = picked names rest := by
  unfold picked
  rw [List.flatMap_def, List.flatMap_def]
  refine congrArg List.flatten (List.map_congr_left ?_)
  intro name hname
  rw [get?_cons_of_ne (Ne.symm (String.ne_of_lt (h name hname)))]

/-- Ordered fields are known from what is found under their names. -/
theorem eq_picked {names : List String} (hn : names.Pairwise (· < ·)) {fields : Fields}
    (hf : Ordered fields) (hk : ∀ field ∈ fields, field.1 ∈ names) :
    fields = picked names fields := by
  induction names generalizing fields with
  | nil =>
    cases fields with
    | nil => rfl
    | cons first _ => exact absurd (hk first List.mem_cons_self) List.not_mem_nil
  | cons name names ih =>
    obtain ⟨hname, hnames⟩ := List.pairwise_cons.mp hn
    have hpicked : picked (name :: names) fields =
        Json.optional name (fields.get? name) ++ picked names fields := List.flatMap_cons
    rw [hpicked]
    cases fields with
    | nil => rw [picked_nil]; rfl
    | cons first rest =>
      obtain ⟨k, v⟩ := first
      obtain ⟨hfirst, hrest⟩ := List.pairwise_cons.mp hf
      -- The first name is either the first key or comes before all keys.
      by_cases heq : k = name
      · subst heq
        have hkeys : ∀ field ∈ rest, field.1 ∈ names := by
          intro field hfield
          have hne : field.1 ≠ k := Ne.symm (String.ne_of_lt (hfirst field hfield))
          exact (List.mem_cons.mp (hk field (List.mem_cons_of_mem _ hfield))).resolve_left hne
        rw [get?_cons_self, picked_cons_of_lt hname, ← ih hnames hrest hkeys]
        rfl
      · have hk_mem : k ∈ names := (List.mem_cons.mp (hk _ List.mem_cons_self)).resolve_left heq
        have hlt : ∀ field ∈ (k, v) :: rest, name < field.1 := by
          intro field hfield
          rcases List.mem_cons.mp hfield with rfl | hfield
          · exact hname k hk_mem
          · exact String.lt_trans (hname k hk_mem) (hfirst field hfield)
        have hkeys : ∀ field ∈ (k, v) :: rest, field.1 ∈ names := by
          intro field hfield
          have hne : field.1 ≠ name := Ne.symm (String.ne_of_lt (hlt field hfield))
          exact (List.mem_cons.mp (hk field hfield)).resolve_left hne
        rw [get?_of_lt hlt, ← ih hnames hf hkeys]
        rfl

end Fields

namespace Json

theorem mem_canonicalFields {fields : Fields} {field : String × Json}
    (h : field ∈ canonicalFields fields) : ∃ inner : Json, field.2 = inner.canonical := by
  induction fields with
  | nil => cases h
  | cons first rest ih =>
    obtain ⟨k, v⟩ := first
    rcases List.mem_cons.mp h with rfl | h
    · exact ⟨v, rfl⟩
    · exact ih h

/-- An object that is data has its fields in order, and these are data. -/
theorem canonical_object {value : Json} {fields : Fields} (h : value.canonical = .object fields) :
    fields.Ordered ∧ ∀ field ∈ fields, ∃ inner : Json, field.2 = inner.canonical := by
  cases value <;> cases h
  refine ⟨Fields.ordered_sorted _, ?_⟩
  intro field hfield
  exact mem_canonicalFields (Fields.mem_of_mem_sorted hfield)

end Json
end StepPipeline

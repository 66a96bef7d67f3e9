import StepPipeline.Pipeline.State
import Mathlib.Data.List.Induction

/-!
# Merges into the shared state

Outputs are offered to the shared state one behind the other, and not every offer is taken: an
alias keeps the first output it was given. Whatever was offered before, a reader then learns one of
three things about an alias: nothing is there, something is there and has the wrong shape, or the
value that was stored.

**Merges (`ofMerges`).** The state behind a sequence of merges that starts with nothing. A merge
that fails leaves the state as it is.

**Answers (`Reads`).** What `outputFields`, `field` and `text` answer, each by what is stored: no
answer, a value or a failure.

**Results.**
* `writeOnce_ofMerges`: contents, order and number of the entries, read off the merges.
* `reads`: the answers about an alias, in any state.
* `merges_write_once`: both for every sequence of merges; a merge is refused exactly if its alias
  was used before, and no answer depends on merges under other aliases.
-/
namespace StepPipeline

namespace State

variable {s : State} {aliasName key : String} {output : Json} {calls : List (String × Json)}

/-! ## One merge -/

theorem merge_of_free (h : s.get? aliasName = none) (output : Json) :
    ∃ next, s.merge aliasName output = .ok next ∧
      next.entries = s.entries ++ [(aliasName, output)] := by
  unfold merge
  rw [dif_pos h]
  exact ⟨_, rfl, rfl⟩

theorem merge_of_taken (h : s.get? aliasName ≠ none) (output : Json) :
    s.merge aliasName output = .error (.of (.aliasExists aliasName)) := by
  unfold merge
  rw [dif_neg h]

/-- The state behind a merge; one that fails leaves it as it is. -/
def afterMerge (s : State) (call : String × Json) : State :=
  match s.merge call.1 call.2 with
  | .ok next => next
  | .error _ => s

theorem merge_eq_afterMerge (h : s.get? aliasName = none) (output : Json) :
    s.merge aliasName output = .ok (s.afterMerge (aliasName, output)) := by
  obtain ⟨next, hm, -⟩ := merge_of_free h output
  unfold afterMerge
  rw [hm]

theorem entries_afterMerge_of_free (h : s.get? aliasName = none) :
    (s.afterMerge (aliasName, output)).entries = s.entries ++ [(aliasName, output)] := by
  obtain ⟨next, hm, he⟩ := merge_of_free h output
  unfold afterMerge
  rw [hm]
  exact he

theorem afterMerge_of_taken (h : s.get? aliasName ≠ none) :
    s.afterMerge (aliasName, output) = s := by
  unfold afterMerge
  rw [merge_of_taken h]

theorem entries_prefix_afterMerge (s : State) (call : String × Json) :
    s.entries <+: (s.afterMerge call).entries := by
  obtain ⟨aliasName, output⟩ := call
  by_cases h : s.get? aliasName = none
  · rw [entries_afterMerge_of_free h]
    exact List.prefix_append _ _
  · simp only [afterMerge_of_taken h, List.prefix_refl]

/-! ## Merges in a row -/

/-- The state behind a sequence of merges, the first into nothing. -/
def ofMerges (calls : List (String × Json)) : State :=
  calls.foldl afterMerge empty

theorem ofMerges_concat (calls : List (String × Json)) (call : String × Json) :
    ofMerges (calls ++ [call]) = (ofMerges calls).afterMerge call := by
  simp [ofMerges]

/-- Entries are appended and never changed. -/
theorem entries_prefix_ofMerges (calls more : List (String × Json)) :
    (ofMerges calls).entries <+: (ofMerges (calls ++ more)).entries := by
  induction more using List.reverseRec with
  | nil => simp
  | append_singleton more call ih =>
    rw [← List.append_assoc, ofMerges_concat]
    exact ih.trans (entries_prefix_afterMerge _ call)

/-- The contents of a state are those of a sequence of merges, of which the first under an alias
counts. -/
structure WriteOnce (calls : List (String × Json)) (s : State) : Prop where
  get : ∀ aliasName, s.get? aliasName = calls.lookup aliasName
  contains : ∀ aliasName, s.contains aliasName = (calls.lookup aliasName).isSome
  aliases : s.aliases = (calls.map (·.1)).eraseDups
  size : s.size = (calls.map (·.1)).eraseDups.length

theorem WriteOnce.of_get_aliases
    (hg : ∀ aliasName, s.get? aliasName = calls.lookup aliasName)
    (ha : s.aliases = (calls.map (·.1)).eraseDups) : WriteOnce calls s where
  get := hg
  contains aliasName := by
    unfold State.contains
    rw [hg]
  aliases := ha
  size := by
    rw [← ha]
    exact (List.length_map _).symm

theorem WriteOnce.get_eq_none_iff (h : WriteOnce calls s) :
    s.get? aliasName = none ↔ aliasName ∉ calls.map (·.1) := by
  rw [h.get]
  exact Fields.get?_eq_none_iff

/-- One more merge: it adds an entry under a new alias, and nothing under one that was used. -/
theorem WriteOnce.concat (h : WriteOnce calls s) (call : String × Json) :
    WriteOnce (calls ++ [call]) (s.afterMerge call) := by
  obtain ⟨name, output⟩ := call
  by_cases hn : s.get? name = none
  · have hfresh := h.get_eq_none_iff.mp hn
    refine .of_get_aliases ?_ ?_
    · intro aliasName
      have hs := h.get aliasName
      unfold State.get? Fields.get? at hs ⊢
      rw [entries_afterMerge_of_free hn, List.lookup_append, List.lookup_append, hs]
    · have ha := h.aliases
      unfold State.aliases at ha ⊢
      have hkept : [name].removeAll (calls.map (·.1)) = [name] := by
        simp [List.removeAll, hfresh]
      rw [entries_afterMerge_of_free hn, List.map_append, ha, List.map_append,
        List.eraseDups_append, List.map_singleton, hkept]
      rfl
  · have hused : name ∈ calls.map (·.1) := by
      by_contra hfresh
      exact hn (h.get_eq_none_iff.mpr hfresh)
    rw [afterMerge_of_taken hn]
    refine .of_get_aliases ?_ ?_
    · intro aliasName
      rw [h.get, List.lookup_append]
      by_cases he : aliasName = name
      · -- The entry that the refused merge meets is found before it.
        subst he
        obtain ⟨v, hv⟩ := Option.ne_none_iff_exists'.mp hn
        rw [← h.get, hv]
        rfl
      · have hb : (aliasName == name) = false := by simpa using he
        simp [List.lookup_cons, hb]
    · have hremoved : [name].removeAll (calls.map (·.1)) = [] := by
        simp [List.removeAll, hused]
      rw [h.aliases, List.map_append, List.eraseDups_append, List.map_singleton, hremoved]
      simp

theorem writeOnce_ofMerges (calls : List (String × Json)) : WriteOnce calls (ofMerges calls) := by
  induction calls using List.reverseRec with
  | nil => exact .of_get_aliases (fun _ => rfl) rfl
  | append_singleton calls call ih =>
    rw [ofMerges_concat]
    exact ih.concat call

/-- What becomes of an output that is offered behind a sequence of merges. -/
structure Offered (calls : List (String × Json)) (aliasName : String) (output : Json) : Prop where
  refused_iff : ∀ f, (ofMerges calls).merge aliasName output = .error f ↔
    aliasName ∈ calls.map (·.1) ∧ f = .of (.aliasExists aliasName)
  code : ∀ f, (ofMerges calls).merge aliasName output = .error f →
    f.code.name = "state.alias_exists"
  refused : aliasName ∈ calls.map (·.1) → ofMerges (calls ++ [(aliasName, output)]) = ofMerges calls
  taken : aliasName ∉ calls.map (·.1) →
    (ofMerges calls).merge aliasName output = .ok (ofMerges (calls ++ [(aliasName, output)])) ∧
      (ofMerges (calls ++ [(aliasName, output)])).entries =
        (ofMerges calls).entries ++ [(aliasName, output)]

theorem offered (calls : List (String × Json)) (aliasName : String) (output : Json) :
    Offered calls aliasName output := by
  have hfree : (ofMerges calls).get? aliasName = none ↔ aliasName ∉ calls.map (·.1) :=
    (writeOnce_ofMerges calls).get_eq_none_iff
  by_cases hn : (ofMerges calls).get? aliasName = none
  · have hfresh := hfree.mp hn
    have hm := merge_eq_afterMerge hn output
    refine ⟨?_, ?_, fun hused => absurd hused hfresh, fun _ => ?_⟩
    · intro f
      rw [hm]
      exact ⟨nofun, fun h => absurd h.1 hfresh⟩
    · intro f
      rw [hm]
      exact nofun
    · rw [ofMerges_concat]
      exact ⟨hm, entries_afterMerge_of_free hn⟩
  · have hused : aliasName ∈ calls.map (·.1) := not_not.mp (mt hfree.mpr hn)
    refine ⟨?_, ?_, fun _ => ?_, fun hfresh => absurd hused hfresh⟩
    · intro f
      rw [merge_of_taken hn]
      constructor
      · intro h
        cases h
        exact ⟨hused, rfl⟩
      · rintro ⟨-, rfl⟩
        rfl
    · intro f hf
      rw [merge_of_taken hn] at hf
      cases hf
      rfl
    · rw [ofMerges_concat]
      exact afterMerge_of_taken hn

/-! ## What a reader learns -/

/-- The alias has no output, or one that is an object without the field. -/
def Lacks (s : State) (aliasName key : String) : Prop :=
  s.get? aliasName = none ∨
    ∃ fields : Fields, s.get? aliasName = some (.object fields) ∧ fields.get? key = none

/-- The output of the alias is an object with the value under the key. -/
def Stores (s : State) (aliasName key : String) (value : Json) : Prop :=
  ∃ fields : Fields, s.get? aliasName = some (.object fields) ∧ fields.get? key = some value

/-- The alias has an output that is not an object; the failure that says so names no field. -/
def NoObject (s : State) (aliasName : String) (f : Failure) : Prop :=
  ∃ value, s.get? aliasName = some value ∧ (∀ fields, value ≠ .object fields) ∧
    f = .of (.typeMismatch aliasName none "an object" (describe value))

/-- The field is there and is not a text, and the failure that says so names it. -/
def NoText (s : State) (aliasName key : String) (f : Failure) : Prop :=
  ∃ value, s.Stores aliasName key value ∧ (∀ text, value ≠ .string text) ∧
    f = .of (.typeMismatch aliasName (some key) "a string" (describe value))

/-- What the readers answer, each answer with what is stored when they give it. -/
structure Reads (s : State) (aliasName key : String) : Prop where
  fields_none : s.outputFields aliasName = .ok none ↔ s.get? aliasName = none
  fields_some : ∀ fields,
    s.outputFields aliasName = .ok (some fields) ↔ s.get? aliasName = some (.object fields)
  fields_error : ∀ f, s.outputFields aliasName = .error f ↔ s.NoObject aliasName f
  field_none : s.field aliasName key = .ok none ↔ s.Lacks aliasName key
  field_some : ∀ value, s.field aliasName key = .ok (some value) ↔ s.Stores aliasName key value
  field_error : ∀ f, s.field aliasName key = .error f ↔ s.NoObject aliasName f
  text_none : s.text aliasName key = .ok none ↔ s.Lacks aliasName key
  text_some : ∀ text,
    s.text aliasName key = .ok (some text) ↔ s.Stores aliasName key (.string text)
  text_error : ∀ f,
    s.text aliasName key = .error f ↔ s.NoObject aliasName f ∨ s.NoText aliasName key f
  text_null : s.Stores aliasName key .null →
    s.text aliasName key = .error (.of (.typeMismatch aliasName (some key) "a string" "null"))
  code : ∀ f, s.NoObject aliasName f ∨ s.NoText aliasName key f →
    f.code.name = "state.type_mismatch"

section
variable (s aliasName key)

theorem outputFields_none_iff :
    s.outputFields aliasName = .ok none ↔ s.get? aliasName = none := by
  unfold outputFields
  split <;> simp_all

theorem outputFields_some_iff (fields : Fields) :
    s.outputFields aliasName = .ok (some fields) ↔ s.get? aliasName = some (.object fields) := by
  unfold outputFields
  split <;> simp_all

theorem outputFields_error_iff (f : Failure) :
    s.outputFields aliasName = .error f ↔ s.NoObject aliasName f := by
  unfold outputFields NoObject
  split
  · rename_i hg
    simp [hg]
  · rename_i fields hg
    simp [hg]
  · rename_i value hobject hg
    rw [hg]
    constructor
    · intro h
      cases h
      exact ⟨value, rfl, hobject, rfl⟩
    · rintro ⟨_, hv, -, rfl⟩
      cases hv
      rfl

/-- A field is looked up in the fields of the output. -/
theorem field_ok_iff (found : Option Json) :
    s.field aliasName key = .ok found ↔
      ∃ fields, s.outputFields aliasName = .ok fields ∧ fields.bind (·.get? key) = found := by
  unfold field
  cases s.outputFields aliasName <;> simp [Except.map]

theorem field_none_iff : s.field aliasName key = .ok none ↔ s.Lacks aliasName key := by
  rw [field_ok_iff]
  constructor
  · rintro ⟨_ | fields, ho, hk⟩
    · exact Or.inl ((outputFields_none_iff s aliasName).mp ho)
    · exact Or.inr ⟨fields, (outputFields_some_iff s aliasName fields).mp ho, hk⟩
  · rintro (hn | ⟨fields, hf, hk⟩)
    · exact ⟨none, (outputFields_none_iff s aliasName).mpr hn, rfl⟩
    · exact ⟨some fields, (outputFields_some_iff s aliasName fields).mpr hf, hk⟩

theorem field_some_iff (value : Json) :
    s.field aliasName key = .ok (some value) ↔ s.Stores aliasName key value := by
  rw [field_ok_iff]
  constructor
  · rintro ⟨_ | fields, ho, hk⟩
    · cases hk
    · exact ⟨fields, (outputFields_some_iff s aliasName fields).mp ho, hk⟩
  · rintro ⟨fields, hf, hk⟩
    exact ⟨some fields, (outputFields_some_iff s aliasName fields).mpr hf, hk⟩

theorem field_error_iff (f : Failure) :
    s.field aliasName key = .error f ↔ s.NoObject aliasName f := by
  rw [← outputFields_error_iff]
  unfold field
  cases s.outputFields aliasName <;> simp [Except.map]

/-- A field that is there and is no text is told apart from one that is a text. -/
theorem text_of_field {value : Json} (h : s.field aliasName key = .ok (some value)) :
    (∃ text, value = .string text ∧ s.text aliasName key = .ok (some text)) ∨
    ((∀ text, value ≠ .string text) ∧ s.text aliasName key =
      .error (.of (.typeMismatch aliasName (some key) "a string" (describe value)))) := by
  unfold text
  rw [h]
  cases value with
  | string text => exact Or.inl ⟨text, rfl, rfl⟩
  | _ => exact Or.inr ⟨nofun, rfl⟩

theorem text_none_iff : s.text aliasName key = .ok none ↔ s.Lacks aliasName key := by
  rw [← field_none_iff]
  cases hf : s.field aliasName key with
  | error f => simp [text, hf, bind, Except.bind]
  | ok found =>
    cases found with
    | none => simp [text, hf, bind, Except.bind, pure, Except.pure]
    | some value =>
      rcases text_of_field s aliasName key hf with ⟨text, rfl, ht⟩ | ⟨-, ht⟩ <;> simp [ht]

theorem text_some_iff (text : String) :
    s.text aliasName key = .ok (some text) ↔ s.Stores aliasName key (.string text) := by
  rw [← field_some_iff]
  cases hf : s.field aliasName key with
  | error f => simp [State.text, hf, bind, Except.bind]
  | ok found =>
    cases found with
    | none => simp [State.text, hf, bind, Except.bind, pure, Except.pure]
    | some value =>
      rcases text_of_field s aliasName key hf with ⟨found, rfl, ht⟩ | ⟨hs, ht⟩
      · simp [ht]
      · simp [ht, hs text]

theorem text_error_iff (f : Failure) :
    s.text aliasName key = .error f ↔ s.NoObject aliasName f ∨ s.NoText aliasName key f := by
  unfold NoText
  simp only [← field_error_iff s aliasName key, ← field_some_iff]
  cases hf : s.field aliasName key with
  | error g => simp [text, hf, bind, Except.bind]
  | ok found =>
    cases found with
    | none => simp [text, hf, bind, Except.bind, pure, Except.pure]
    | some value =>
      rcases text_of_field s aliasName key hf with ⟨found, rfl, ht⟩ | ⟨hs, ht⟩
      · simp [ht]
      · rw [ht]
        simp [hs, eq_comm]

theorem code_of_misshapen (f : Failure) (h : s.NoObject aliasName f ∨ s.NoText aliasName key f) :
    f.code.name = "state.type_mismatch" := by
  rcases h with ⟨value, -, -, rfl⟩ | ⟨value, -, -, rfl⟩ <;> rfl

theorem reads : Reads s aliasName key where
  fields_none := outputFields_none_iff s aliasName
  fields_some := outputFields_some_iff s aliasName
  fields_error := outputFields_error_iff s aliasName
  field_none := field_none_iff s aliasName key
  field_some := field_some_iff s aliasName key
  field_error := field_error_iff s aliasName key
  text_none := text_none_iff s aliasName key
  text_some := text_some_iff s aliasName key
  text_error := text_error_iff s aliasName key
  text_null h := (text_error_iff s aliasName key _).mpr (Or.inr ⟨.null, h, nofun, rfl⟩)
  code := code_of_misshapen s aliasName key

end

/-- Nothing that is asked about an alias tells two states apart. -/
structure AlikeAt (s t : State) (aliasName key : String) : Prop where
  get : s.get? aliasName = t.get? aliasName
  contains : s.contains aliasName = t.contains aliasName
  fields : s.outputFields aliasName = t.outputFields aliasName
  field : s.field aliasName key = t.field aliasName key
  text : s.text aliasName key = t.text aliasName key

theorem alikeAt_of_get {s t : State} (h : s.get? aliasName = t.get? aliasName) (key : String) :
    AlikeAt s t aliasName key := by
  have hfields : s.outputFields aliasName = t.outputFields aliasName := by
    unfold outputFields
    rw [h]
  have hfield : s.field aliasName key = t.field aliasName key := by
    unfold State.field
    rw [hfields]
  refine ⟨h, ?_, hfields, hfield, ?_⟩
  · unfold State.contains
    rw [h]
  · unfold State.text
    rw [hfield]

theorem lookup_filter (aliasName : String) (calls : List (String × Json)) :
    (calls.filter (·.1 = aliasName)).lookup aliasName = calls.lookup aliasName := by
  induction calls with
  | nil => rfl
  | cons call rest ih =>
    obtain ⟨name, output⟩ := call
    by_cases h : name = aliasName
    · simp [h]
    · have hb : (aliasName == name) = false := by simpa using Ne.symm h
      simp [h, List.lookup_cons, hb, ih]

/-! ## Any sequence of merges -/

/-- Behind any merges, the first under each alias counts and stays, in order; a merge is refused
exactly under an alias that was used, and leaves nothing behind. The readers answer by what is
stored, and their answers about an alias come from the merges under it. -/
theorem merges_write_once (calls : List (String × Json)) :
    WriteOnce calls (ofMerges calls) ∧
    (∀ aliasName output, Offered calls aliasName output) ∧
    (∀ more, (ofMerges calls).entries <+: (ofMerges (calls ++ more)).entries) ∧
    (∀ aliasName key, Reads (ofMerges calls) aliasName key) ∧
    (∀ others aliasName key,
      others.filter (·.1 = aliasName) = calls.filter (·.1 = aliasName) →
      AlikeAt (ofMerges others) (ofMerges calls) aliasName key) := by
  refine ⟨writeOnce_ofMerges calls, offered calls, entries_prefix_ofMerges calls,
    fun aliasName key => reads _ aliasName key, ?_⟩
  intro others aliasName key h
  apply alikeAt_of_get
  rw [(writeOnce_ofMerges others).get, (writeOnce_ofMerges calls).get, ← lookup_filter, h,
    lookup_filter]

example : (ofMerges [("a", .null), ("b", .bool true), ("a", .bool false)]).aliases = ["a", "b"] :=
  by decide

end State
end StepPipeline

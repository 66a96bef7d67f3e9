import StepPipeline.Document.Decode

/-!
# Reading records from values

A value has no faults of a text, so a record is read from an object field by field, in the order in
which the fields stand.

**Results.**
* `readEntries_of`: how one field changes the record.
* `decode_object`: the record is read once its fields are, if none is missing.
* `decode_of_reads`: and it is read from fields that stand in its order, some of them left out
  (`Reads`).
* `list_map`: a list is read item by item.
-/
namespace StepPipeline.Document

variable {α β : Type}

namespace Record

variable {r : Record α} {seen : List Nat}

/-- A field that has not been read before is read, and changes the record. -/
theorem readEntries_read {i : Nat} {name : String} {f : Field α} {value : Json} {set : α → α}
    (hf : r.fields[i]? = some f) (hi : r.fieldAt? (.plain (.text name)) = .ok (some i))
    (hs : i ∉ seen) (hr : f.read (.ofJson value) = .ok set) (a : α) (rest : Fields) :
    r.readEntries seen a (Node.ofFields ((name, value) :: rest)) =
      r.readEntries (i :: seen) (set a) (Node.ofFields rest) := by
  have hc : seen.contains i = false := by simpa using hs
  simp only [Node.ofFields, readEntries, bind, Except.bind, hi, Option.bind_some, hf,
    Option.map_some, hc, hr, Bool.false_eq_true, if_false]

theorem read_of {name : String} {presence : Presence} {decode : Decoder β} {set : β → α → α}
    {value : Json} {b : β} (hb : decode (.ofJson value) = .ok b) :
    (Field.of name presence decode set).read (.ofJson value) = .ok (set b) := by
  show (decode (.ofJson value)).map set = .ok (set b)
  rw [hb]
  rfl

theorem readEntries_of {i : Nat} {name : String} {presence : Presence} {decode : Decoder β}
    {set : β → α → α} {value : Json} {b : β}
    (hf : r.fields[i]? = some (.of name presence decode set))
    (hi : r.fieldAt? (.plain (.text name)) = .ok (some i)) (hs : i ∉ seen)
    (hb : decode (.ofJson value) = .ok b) (a : α) (rest : Fields) :
    r.readEntries seen a (Node.ofFields ((name, value) :: rest)) =
      r.readEntries (i :: seen) (set b a) (Node.ofFields rest) :=
  readEntries_read hf hi hs (read_of hb) a rest

theorem readEntries_nil (seen : List Nat) (a : α) :
    r.readEntries seen a (Node.ofFields []) = .ok (seen, a) :=
  rfl

/-- The record read from an object's fields, if no required field is missing. -/
theorem decode_object {fields : Fields} {a : α}
    (hr : r.readEntries [] r.start (Node.ofFields fields) = .ok (seen, a))
    (hm : firstMissing seen 0 r.fields = none) : r.decode (.ofJson (.object fields)) = .ok a := by
  simp only [Node.ofJson, decode, bind, Except.bind, Frame.enter, Frame.finish, Frame.plain, hr, hm]
  rfl

/-! ## Fields in order -/

theorem firstMissing_eq_none {fields : List (Field α)} {i : Nat}
    (h : ∀ j f, fields[j]? = some f → f.presence = .required → i + j ∈ seen) :
    firstMissing seen i fields = none := by
  induction fields generalizing i with
  | nil => rfl
  | cons f rest ih =>
    have hf : ¬ (f.presence = .required ∧ (!seen.contains i) = true) := by
      rintro ⟨hp, hc⟩
      have hi : i ∈ seen := h 0 f rfl hp
      rw [List.contains_iff_mem.mpr hi] at hc
      cases hc
    rw [firstMissing, if_neg hf]
    refine ih fun j g hg hp => ?_
    have hj := h (j + 1) g hg hp
    rwa [show i + 1 + j = i + (j + 1) by omega]

/-- From `a` on, as long as only fields before the `i`th have been seen, `fields` bring the record to
`b`, and no field is missing then that must be there. -/
def Reads (r : Record α) (i : Nat) (a : α) (fields : Fields) (b : α) : Prop :=
  ∀ seen : List Nat, (∀ j ∈ seen, j < i) → ∃ seen', seen ⊆ seen' ∧
    (∀ j f, i ≤ j → r.fields[j]? = some f → f.presence = .required → j ∈ seen') ∧
    r.readEntries seen a (Node.ofFields fields) = .ok (seen', b)

namespace Reads

variable {i : Nat} {name : String} {presence : Presence} {decode : Decoder β}
  {set : β → α → α} {a c : α} {b : β} {rest : Fields}

theorem nil (h : r.fields.length ≤ i) : r.Reads i a [] a := by
  intro seen hs
  refine ⟨seen, List.Subset.refl _, fun j f hj hf _ => ?_, rfl⟩
  have hlt := (List.getElem?_eq_some_iff.mp hf).1
  omega

theorem read {f : Field α} {set : α → α} (hf : r.fields[i]? = some f)
    (hi : r.fieldAt? (.plain (.text name)) = .ok (some i)) {v : Json}
    (hr : f.read (.ofJson v) = .ok set) (h : r.Reads (i + 1) (set a) rest c) :
    r.Reads i a ((name, v) :: rest) c := by
  intro seen hs
  have hnew : i ∉ seen := fun hi => Nat.lt_irrefl i (hs i hi)
  obtain ⟨seen', hsub, hreq, hread⟩ := h (i :: seen)
    (List.forall_mem_cons.mpr ⟨Nat.lt_succ_self i, fun j hj => Nat.lt_succ_of_lt (hs j hj)⟩)
  refine ⟨seen', List.Subset.trans (List.subset_cons_self i seen) hsub, fun j f hj hfj hp => ?_, ?_⟩
  · rcases Nat.eq_or_lt_of_le hj with rfl | hj
    · exact hsub List.mem_cons_self
    · exact hreq j f hj hfj hp
  · rw [readEntries_read hf hi hnew hr, hread]

/-- A field that may be left out need not be there. -/
theorem skip {f : Field α} (hf : r.fields[i]? = some f) (hp : f.presence ≠ .required)
    (h : r.Reads (i + 1) a rest c) : r.Reads i a rest c := by
  intro seen hs
  obtain ⟨seen', hsub, hreq, hread⟩ := h seen fun j hj => Nat.lt_succ_of_lt (hs j hj)
  refine ⟨seen', hsub, fun j g hj hgj hr => ?_, hread⟩
  rcases Nat.eq_or_lt_of_le hj with rfl | hj
  · rw [hf] at hgj
    cases hgj
    exact absurd hr hp
  · exact hreq j g hj hgj hr

/-- A field that the record does not know is passed over. -/
theorem unknown (hi : r.fieldAt? (.plain (.text name)) = .ok none) {v : Json}
    (hv : (Node.ofJson v).pass = .ok ()) (h : r.Reads i a rest c) :
    r.Reads i a ((name, v) :: rest) c := by
  intro seen hs
  obtain ⟨seen', hsub, hreq, hread⟩ := h seen hs
  refine ⟨seen', hsub, hreq, ?_⟩
  simpa only [Node.ofFields, readEntries, bind, Except.bind, hi, Option.bind_none, hv] using hread

theorem field (hf : r.fields[i]? = some (.of name presence decode set))
    (hi : r.fieldAt? (.plain (.text name)) = .ok (some i)) {v : Json}
    (hb : decode (.ofJson v) = .ok b) (h : r.Reads (i + 1) (set b a) rest c) :
    r.Reads i a ((name, v) :: rest) c :=
  read hf hi (read_of hb) h

/-- A field that may be left out is read if it is there. -/
theorem optional (hf : r.fields[i]? = some (.of name presence decode set))
    (hi : r.fieldAt? (.plain (.text name)) = .ok (some i)) (hp : presence ≠ .required)
    {value : Option Json} (hb : ∀ v ∈ value, decode (.ofJson v) = .ok b)
    (hn : value = none → set b a = a) (h : r.Reads (i + 1) (set b a) rest c) :
    r.Reads i a (Json.optional name value ++ rest) c := by
  cases value with
  | some v => exact field hf hi (hb v rfl) h
  | none =>
    rw [hn rfl] at h
    exact skip hf hp h

/-- So is a list that is left out when it is empty. -/
theorem unlessEmpty (hf : r.fields[i]? = some (.of name presence decode set))
    (hi : r.fieldAt? (.plain (.text name)) = .ok (some i)) (hp : presence ≠ .required)
    {items : List Json} (hb : decode (.ofJson (.array items)) = .ok b)
    (hn : items = [] → set b a = a) (h : r.Reads (i + 1) (set b a) rest c) :
    r.Reads i a (Json.unlessEmpty name items ++ rest) c := by
  cases items with
  | nil =>
    have hnone : ∀ v ∈ (none : Option Json), decode (.ofJson v) = .ok b := nofun
    exact optional hf hi hp hnone (fun _ => hn rfl) h
  | cons v items => exact field hf hi hb h

end Reads

/-- The record read from an object whose fields stand in the order of the record. -/
theorem decode_of_reads {fields : Fields} {b : α} (h : r.Reads 0 r.start fields b) :
    r.decode (.ofJson (.object fields)) = .ok b := by
  obtain ⟨seen, -, hreq, hread⟩ := h [] nofun
  refine decode_object hread (firstMissing_eq_none fun j f hf hp => ?_)
  rw [Nat.zero_add]
  exact hreq j f (Nat.zero_le j) hf hp

end Record

/-- What is not `null` is read as what is always there. -/
theorem optional_of_ne {decode : Decoder α} {v : Json} (h : v ≠ .null) :
    Decoder.optional decode (.ofJson v) = (decode (.ofJson v)).map some := by
  cases v with
  | null => exact absurd rfl h
  | _ => rfl

theorem optional_object {decode : Decoder α} {fields : Fields} {a : α}
    (h : decode (.ofJson (.object fields)) = .ok a) :
    Decoder.optional decode (.ofJson (.object fields)) = .ok (some a) := by
  have hne : Json.object fields ≠ .null := nofun
  rw [optional_of_ne hne, h]
  rfl

theorem items_map {decode : Decoder β} {encode : α → Json} {g : α → β} {as : List α}
    (h : ∀ a ∈ as, decode (.ofJson (encode a)) = .ok (g a)) :
    Decoder.items decode (Node.ofItems (as.map encode)) = .ok (as.map g) := by
  induction as with
  | nil => rfl
  | cons a rest ih =>
    obtain ⟨ha, hrest⟩ := List.forall_mem_cons.mp h
    simp only [List.map_cons, Node.ofItems, Decoder.items, ha, ih hrest]
    rfl

/-- A list is read item by item. -/
theorem list_map {decode : Decoder β} {encode : α → Json} {g : α → β} {as : List α}
    (h : ∀ a ∈ as, decode (.ofJson (encode a)) = .ok (g a)) :
    Decoder.list decode (.ofJson (.array (as.map encode))) = .ok (as.map g) := by
  simp only [Node.ofJson, Decoder.list, items_map h]
  rfl

theorem list_text (texts : List String) :
    Decoder.list Node.text (.ofJson (.strings texts)) = .ok texts := by
  have h := @list_map _ _ Node.text Json.string id texts fun _ _ => rfl
  rw [List.map_id] at h
  exact h

end StepPipeline.Document

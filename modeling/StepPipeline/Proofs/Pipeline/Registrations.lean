import Mathlib.Data.List.Induction
import Mathlib.Data.List.Nodup
import StepPipeline.Proofs.Pipeline.Invocations
import StepPipeline.Proofs.Text.Octets

/-!
# Filling a registry

Runners are offered to a registry one behind the other, each under its own name and with the
document of a schema, and not every offer is taken: a name stays with the runner that got it, and a
document must write a schema. Whatever was offered, the registry then knows each name by the one
offer that was taken under it.

The reading of the documents is left open: which of them are accepted, and what the accepted ones
demand.

**Offers (`Offer`, `Registry.ofOffers`).** The registry behind a sequence of offers that starts with
nothing. A refused offer leaves it as it is.

**Taken offers (`Registry.taken`).** Those that were not refused when they were made.

**Results.**
* `insert_perm`, `insert_ordered`: an entry more, in its place.
* `filed_ofOffers`: behind any offers the entries are those of the offers that were taken, in order.
* `offers_answered`: which offers are refused, and for what; what is found under each name.
-/
namespace StepPipeline

variable {ω : Type}

/-- A runner with the name and the schema that it is to be registered under. -/
structure Offer (ω : Type) where
  name : String
  runner : Runner ω
  document : Json

/-- The offer that an entry was made from. -/
def Registration.offer (entry : Registration ω) : Offer ω :=
  ⟨entry.name, entry.runner, entry.document⟩

/-! ## One offer -/

theorem Reading.code_of_compile {read : Reading} {stepType : String} {document : Json} {f : Failure}
    (h : read.compile stepType document = .error f) : f.code.name = "config.invalid_value" := by
  unfold Reading.compile at h
  cases hr : read document with
  | error problem =>
    rw [hr] at h
    cases h
    rfl
  | ok validator =>
    rw [hr] at h
    cases h

namespace Registry

/-- Registers what is offered, by a reading of its document. -/
def offer (read : Reading) (r : Registry ω) (o : Offer ω) : Except Failure (Registry ω) :=
  registerBy read r o.name o.runner o.document

/-- The registry behind an offer; one that is refused leaves it as it is. -/
def afterOffer (read : Reading) (r : Registry ω) (o : Offer ω) : Registry ω :=
  match offer read r o with
  | .ok next => next
  | .error _ => r

section
variable {read : Reading} {r : Registry ω} {o : Offer ω} {name : String}

theorem get?_eq_none_iff : r.get? name = none ↔ name ∉ r.stepTypes := by
  unfold get? stepTypes
  rw [List.find?_eq_none, List.mem_map]
  simp

theorem offer_of_occupied (h : o.name ∈ r.stepTypes) :
    offer read r o = .error (.of (.stepAlreadyRegistered o.name)) := by
  obtain ⟨entry, he⟩ := Option.ne_none_iff_exists'.mp (mt get?_eq_none_iff.mp (not_not.mpr h))
  unfold offer registerBy
  rw [he]

theorem offer_of_invalid {f : Failure} (h : o.name ∉ r.stepTypes)
    (hc : read.compile o.name o.document = .error f) : offer read r o = .error f := by
  unfold offer registerBy
  rw [get?_eq_none_iff.mpr h, hc]
  rfl

theorem offer_of_valid {validator : Validator} (h : o.name ∉ r.stepTypes)
    (hc : read.compile o.name o.document = .ok validator) :
    offer read r o = .ok ⟨insert ⟨o.name, o.runner, o.document, validator⟩ r.entries⟩ := by
  unfold offer registerBy
  rw [get?_eq_none_iff.mpr h, hc]
  rfl

/-- An offer is refused for its name, or else for its schema; otherwise it is taken. -/
theorem offer_cases (read : Reading) (r : Registry ω) (o : Offer ω) :
    (o.name ∈ r.stepTypes ∧ offer read r o = .error (.of (.stepAlreadyRegistered o.name))) ∨
    (o.name ∉ r.stepTypes ∧ ∃ f, read.compile o.name o.document = .error f ∧
      offer read r o = .error f) ∨
    (o.name ∉ r.stepTypes ∧ ∃ validator, read.compile o.name o.document = .ok validator ∧
      offer read r o = .ok ⟨insert ⟨o.name, o.runner, o.document, validator⟩ r.entries⟩) := by
  by_cases hn : o.name ∈ r.stepTypes
  · exact Or.inl ⟨hn, offer_of_occupied hn⟩
  · cases hc : read.compile o.name o.document with
    | error f => exact Or.inr (Or.inl ⟨hn, f, rfl, offer_of_invalid hn hc⟩)
    | ok validator => exact Or.inr (Or.inr ⟨hn, validator, rfl, offer_of_valid hn hc⟩)

end

/-! ## An entry in its place -/

section
variable {entry : Registration ω} {entries : List (Registration ω)}

theorem insert_perm (entry : Registration ω) (entries : List (Registration ω)) :
    (insert entry entries).Perm (entry :: entries) := by
  induction entries with
  | nil => exact .refl _
  | cons first rest ih =>
    unfold insert
    split
    · exact .refl _
    · exact (ih.cons first).trans (.swap entry first rest)

theorem insert_ordered (hfree : entry.name ∉ entries.map (·.name))
    (h : entries.Pairwise fun a b => a.name < b.name) :
    (insert entry entries).Pairwise fun a b => a.name < b.name := by
  induction entries with
  | nil => exact List.pairwise_singleton _ _
  | cons first rest ih =>
    obtain ⟨hfirst, hrest⟩ := List.pairwise_cons.mp h
    obtain ⟨hne, hfree⟩ : entry.name ≠ first.name ∧ entry.name ∉ rest.map (·.name) := by
      rwa [List.map_cons, List.mem_cons, not_or] at hfree
    unfold insert
    split
    · rename_i hlt
      refine List.pairwise_cons.mpr ⟨List.forall_mem_cons.mpr ⟨hlt, fun e he => ?_⟩, h⟩
      exact String.lt_trans hlt (hfirst e he)
    · rename_i hnlt
      have hlt : first.name < entry.name :=
        Std.lt_of_le_of_ne (String.not_lt.mp hnlt) (Ne.symm hne)
      refine List.pairwise_cons.mpr ⟨fun e he => ?_, ih hfree hrest⟩
      rcases mem_insert he with rfl | he
      · exact hlt
      · exact hfirst e he

end

/-! ## Offers in a row -/

/-- The registry behind a sequence of offers, the first to an empty one. -/
def ofOffers (read : Reading) (offers : List (Offer ω)) : Registry ω :=
  offers.foldl (afterOffer read) empty

/-- The offers that are taken, one behind the other. -/
def takenFrom (read : Reading) (r : Registry ω) : List (Offer ω) → List (Offer ω)
  | [] => []
  | o :: rest =>
    match offer read r o with
    | .ok next => o :: takenFrom read next rest
    | .error _ => takenFrom read r rest

/-- The offers to an empty registry that are taken. -/
def taken (read : Reading) (offers : List (Offer ω)) : List (Offer ω) :=
  takenFrom read empty offers

section
variable {read : Reading} {offers : List (Offer ω)} {o : Offer ω}

theorem ofOffers_concat (read : Reading) (offers : List (Offer ω)) (o : Offer ω) :
    ofOffers read (offers ++ [o]) = afterOffer read (ofOffers read offers) o := by
  simp [ofOffers]

theorem takenFrom_append (read : Reading) (r : Registry ω) (offers more : List (Offer ω)) :
    takenFrom read r (offers ++ more) =
      takenFrom read r offers ++ takenFrom read (offers.foldl (afterOffer read) r) more := by
  induction offers generalizing r with
  | nil => rfl
  | cons first rest ih =>
    rw [List.cons_append, List.foldl_cons, takenFrom, takenFrom, afterOffer]
    cases offer read r first with
    | error f => exact ih r
    | ok next => exact congrArg (first :: ·) (ih next)

theorem taken_append (read : Reading) (offers more : List (Offer ω)) :
    taken read (offers ++ more) = taken read offers ++ takenFrom read (ofOffers read offers) more :=
  takenFrom_append read empty offers more

theorem concat_of_refused {f : Failure} (h : offer read (ofOffers read offers) o = .error f) :
    ofOffers read (offers ++ [o]) = ofOffers read offers ∧
      taken read (offers ++ [o]) = taken read offers := by
  rw [ofOffers_concat, taken_append, afterOffer, takenFrom, h]
  exact ⟨rfl, List.append_nil _⟩

theorem concat_of_taken {next : Registry ω} (h : offer read (ofOffers read offers) o = .ok next) :
    ofOffers read (offers ++ [o]) = next ∧
      taken read (offers ++ [o]) = taken read offers ++ [o] := by
  rw [ofOffers_concat, taken_append, afterOffer, takenFrom, h]
  exact ⟨rfl, rfl⟩

/-- An offer is taken when it is made, or never. -/
theorem mem_taken_iff : o ∈ taken read offers ↔ ∃ front back next,
    offers = front ++ o :: back ∧ offer read (ofOffers read front) o = .ok next := by
  constructor
  · intro h
    induction offers using List.reverseRec with
    | nil => cases h
    | append_singleton offers last ih =>
      cases hl : offer read (ofOffers read offers) last with
      | error f =>
        rw [(concat_of_refused hl).2] at h
        obtain ⟨front, back, next, rfl, hok⟩ := ih h
        exact ⟨front, back ++ [last], next, by simp, hok⟩
      | ok next =>
        rw [(concat_of_taken hl).2, List.mem_append, List.mem_singleton] at h
        rcases h with h | rfl
        · obtain ⟨front, back, next, rfl, hok⟩ := ih h
          exact ⟨front, back ++ [last], next, by simp, hok⟩
        · exact ⟨offers, [], next, rfl, hl⟩
  · rintro ⟨front, back, next, rfl, hok⟩
    rw [taken_append, takenFrom, hok]
    exact List.mem_append_right _ List.mem_cons_self

end

/-! ## What a registry holds -/

/-- The entries are those of the offers that were taken, with what their documents ask for, in order
of the names. -/
structure Filed (read : Reading) (offers : List (Offer ω)) (r : Registry ω) : Prop where
  compiled : ∀ entry ∈ r.entries, read.compile entry.name entry.document = .ok entry.validator
  entries : (r.entries.map Registration.offer).Perm (taken read offers)
  ordered : r.entries.Pairwise fun a b => a.name < b.name

section
variable {read : Reading} {offers : List (Offer ω)} {r : Registry ω}

theorem Filed.mem_stepTypes_iff (h : Filed read offers r) {name : String} :
    name ∈ r.stepTypes ↔ name ∈ (taken read offers).map (·.name) := by
  rw [← (h.entries.map (·.name)).mem_iff, List.map_map]
  exact Iff.rfl

theorem Filed.nodup (h : Filed read offers r) : r.stepTypes.Nodup := by
  unfold stepTypes
  refine List.Pairwise.map _ (fun a b hlt => ?_) h.ordered
  rintro he
  rw [he] at hlt
  exact String.lt_irrefl _ hlt

/-- A name leads to the one entry that has it. -/
theorem Filed.lookup (h : Filed read offers r) {entry : Registration ω} (he : entry ∈ r.entries) :
    r.lookup entry.name = .ok entry := by
  unfold Registry.lookup
  cases hg : r.get? entry.name with
  | none => exact absurd (List.mem_map_of_mem he) (get?_eq_none_iff.mp hg)
  | some found =>
    have hfound : found ∈ r.entries := List.mem_of_find?_eq_some hg
    have hname : found.name = entry.name := by simpa using List.find?_some hg
    rw [List.inj_on_of_nodup_map h.nodup hfound he hname]

theorem lookup_of_not_mem {name : String} (h : name ∉ r.stepTypes) :
    r.lookup name = .error (.of (.stepNotFound name r.stepTypes)) := by
  unfold Registry.lookup
  rw [get?_eq_none_iff.mpr h]

/-- One more offer. -/
theorem Filed.concat (h : Filed read offers (ofOffers read offers)) (o : Offer ω) :
    Filed read (offers ++ [o]) (ofOffers read (offers ++ [o])) := by
  rcases offer_cases read (ofOffers read offers) o with
    ⟨-, hr⟩ | ⟨-, f, -, hr⟩ | ⟨hn, validator, hc, hr⟩
  · obtain ⟨ho, ht⟩ := concat_of_refused hr
    rw [ho]
    exact ⟨h.compiled, ht ▸ h.entries, h.ordered⟩
  · obtain ⟨ho, ht⟩ := concat_of_refused hr
    rw [ho]
    exact ⟨h.compiled, ht ▸ h.entries, h.ordered⟩
  · obtain ⟨ho, ht⟩ := concat_of_taken hr
    rw [ho]
    refine ⟨fun entry he => ?_, ?_, insert_ordered hn h.ordered⟩
    · rcases mem_insert he with rfl | he
      · exact hc
      · exact h.compiled entry he
    rw [ht]
    refine ((insert_perm _ _).map Registration.offer).trans ?_
    exact (h.entries.cons o).trans (List.perm_append_singleton o (taken read offers)).symm

end

theorem filed_ofOffers (read : Reading) (offers : List (Offer ω)) :
    Filed read offers (ofOffers read offers) := by
  induction offers using List.reverseRec with
  | nil => exact ⟨nofun, .refl _, .nil⟩
  | append_singleton offers o ih => exact ih.concat o

/-! ## Any sequence of offers -/

/-- What becomes of an offer behind others. -/
structure Answered (read : Reading) (offers : List (Offer ω)) (o : Offer ω) : Prop where
  /-- A name that was taken stays with its offer, whatever the new schema is. -/
  occupied : ∀ f, offer read (ofOffers read offers) o = .error f ∧
      f.code.name = "step.already_registered" ↔
    o.name ∈ (taken read offers).map (·.name) ∧ f = .of (.stepAlreadyRegistered o.name)
  /-- A free name, also one that was only offered in vain, fails for its schema alone. -/
  invalid : ∀ f, offer read (ofOffers read offers) o = .error f ∧
      f.code.name = "config.invalid_value" ↔
    o.name ∉ (taken read offers).map (·.name) ∧ read.compile o.name o.document = .error f
  accepted : (∃ next, offer read (ofOffers read offers) o = .ok next) ↔
    o.name ∉ (taken read offers).map (·.name) ∧
      ∃ validator, read.compile o.name o.document = .ok validator
  codes : ∀ f, offer read (ofOffers read offers) o = .error f →
    f.code.name = "step.already_registered" ∨ f.code.name = "config.invalid_value"
  /-- A refused offer changes nothing. -/
  refused : ∀ f, offer read (ofOffers read offers) o = .error f →
    ofOffers read (offers ++ [o]) = ofOffers read offers ∧
      taken read (offers ++ [o]) = taken read offers
  filed : ∀ next, offer read (ofOffers read offers) o = .ok next →
    ofOffers read (offers ++ [o]) = next ∧ taken read (offers ++ [o]) = taken read offers ++ [o]

/-- What a registry knows behind a sequence of offers. -/
structure Knows (read : Reading) (offers : List (Offer ω)) (r : Registry ω) : Prop where
  taken_iff : ∀ o, o ∈ taken read offers ↔ ∃ front back next,
    offers = front ++ o :: back ∧ offer read (ofOffers read front) o = .ok next
  /-- One offer is taken under a name. -/
  once : ((taken read offers).map (·.name)).Nodup
  /-- Under its name it is found, with its runner, its document and what that asks for. -/
  found : ∀ o ∈ taken read offers, ∃ validator,
    read.compile o.name o.document = .ok validator ∧
    r.lookup o.name = .ok ⟨o.name, o.runner, o.document, validator⟩ ∧
    ∀ entry, r.lookup o.name = .ok entry → ∀ config,
      entry.validate o.name config = .ok () ↔ validator config = []
  /-- Under any other name nothing is found, and the failure lists all names. -/
  missing : ∀ name ∉ (taken read offers).map (·.name), ∃ f, r.lookup name = .error f ∧
    f = .of (.stepNotFound name r.stepTypes) ∧ f.code.name = "step.not_found" ∧
    f.details.field? "registered" = some (.strings r.stepTypes)
  /-- The entries are the offers that were taken, each with its own name and runner. -/
  entries : (r.entries.map Registration.offer).Perm (taken read offers)
  stepTypes : ∀ name, name ∈ r.stepTypes ↔ name ∈ (taken read offers).map (·.name)
  size : r.entries.length = (taken read offers).length
  /-- The names increase, compared by their octets. -/
  ordered : r.stepTypes.Pairwise fun a b => Utf8.encode a < Utf8.encode b

section
variable {read : Reading} {offers : List (Offer ω)} {r : Registry ω}

theorem answered (read : Reading) (offers : List (Offer ω)) (o : Offer ω) :
    Answered read offers o := by
  have hnames : o.name ∈ (ofOffers read offers).stepTypes ↔
      o.name ∈ (taken read offers).map (·.name) :=
    (filed_ofOffers read offers).mem_stepTypes_iff
  have hcodes : "step.already_registered" ≠ "config.invalid_value" := by decide
  have htaken : (Failure.of (.stepAlreadyRegistered o.name)).code.name =
      "step.already_registered" := rfl
  rcases offer_cases read (ofOffers read offers) o with
    ⟨hn, hr⟩ | ⟨hn, g, hc, hr⟩ | ⟨hn, validator, hc, hr⟩
  · have hold := hnames.mp hn
    refine ⟨fun f => ?_, fun f => ?_, ?_, fun f hf => ?_, fun _ => concat_of_refused,
      fun _ => concat_of_taken⟩
    · rw [hr, Except.error.injEq, and_iff_right hold]
      exact ⟨fun h => h.1.symm, fun h => ⟨h.symm, h ▸ htaken⟩⟩
    · refine iff_of_false ?_ fun h => h.1 hold
      rw [hr]
      rintro ⟨⟨⟩, hcode⟩
      exact hcodes hcode
    · refine iff_of_false ?_ fun h => h.1 hold
      rw [hr]
      exact nofun
    · rw [hr] at hf
      cases hf
      exact Or.inl rfl
  · have hfree := mt hnames.mpr hn
    have hcode := Reading.code_of_compile hc
    refine ⟨fun f => ?_, fun f => ?_, ?_, fun f hf => ?_, fun _ => concat_of_refused,
      fun _ => concat_of_taken⟩
    · refine iff_of_false ?_ fun h => hfree h.1
      rw [hr]
      rintro ⟨⟨⟩, hcode'⟩
      exact hcodes (hcode'.symm.trans hcode)
    · rw [hr, hc, and_iff_right hfree, Except.error.injEq, Except.error.injEq]
      exact and_iff_left_of_imp fun h => h ▸ hcode
    · rw [hr, hc]
      exact iff_of_false nofun nofun
    · rw [hr] at hf
      cases hf
      exact Or.inr hcode
  · have hfree := mt hnames.mpr hn
    refine ⟨fun f => ?_, fun f => ?_, ?_, fun f hf => ?_, fun _ => concat_of_refused,
      fun _ => concat_of_taken⟩
    · rw [hr]
      exact iff_of_false nofun fun h => hfree h.1
    · rw [hr, hc]
      exact iff_of_false nofun nofun
    · exact iff_of_true ⟨_, hr⟩ ⟨hfree, validator, hc⟩
    · rw [hr] at hf
      cases hf

/-- A taken offer has its entry. -/
theorem Filed.exists_entry (h : Filed read offers r) {o : Offer ω} (ho : o ∈ taken read offers) :
    ∃ validator, read.compile o.name o.document = .ok validator ∧
      r.lookup o.name = .ok ⟨o.name, o.runner, o.document, validator⟩ := by
  obtain ⟨entry, he, rfl⟩ := List.mem_map.mp (h.entries.mem_iff.mpr ho)
  exact ⟨entry.validator, h.compiled entry he, h.lookup he⟩

theorem Filed.knows (h : Filed read offers r) : Knows read offers r where
  taken_iff _ := mem_taken_iff
  once := by
    have hperm := h.entries.map (·.name)
    rw [List.map_map] at hperm
    exact hperm.nodup_iff.mp h.nodup
  found o ho := by
    obtain ⟨validator, hc, hl⟩ := h.exists_entry ho
    refine ⟨validator, hc, hl, fun entry he config => ?_⟩
    rw [hl] at he
    cases he
    exact Schema.validate_ok_iff
  missing name hn :=
    ⟨_, lookup_of_not_mem (mt h.mem_stepTypes_iff.mp hn), rfl, rfl, rfl⟩
  entries := h.entries
  stepTypes _ := h.mem_stepTypes_iff
  size := by
    rw [← h.entries.length_eq, List.length_map]
  ordered := List.Pairwise.map _ (fun _ _ => Utf8.encode_lt) h.ordered

end

/-- **Registration.** Whatever runners are offered under whatever names, and whatever the documents of
their schemas are read as: an offer is refused exactly if its name was taken before or its document
cannot be read, and then changes nothing. Each name leads to the one offer that was taken under it,
the names are in order, and no other name leads anywhere. -/
theorem offers_answered (read : Reading) (offers : List (Offer ω)) :
    (∀ (r : Registry ω) o, offer .own r o = r.register o.name o.runner o.document) ∧
    (∀ o, Answered read offers o) ∧ Knows read offers (ofOffers read offers) :=
  ⟨fun _ _ => rfl, answered read offers, (filed_ofOffers read offers).knows⟩

end Registry
end StepPipeline

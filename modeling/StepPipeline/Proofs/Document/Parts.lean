import StepPipeline.Proofs.Pipeline.Definitions

/-!
# What the fields of a record hold

A record that was read from a node holds in each field what the decoder of the field makes of one
part of the node: the value behind a key of an object, or the item at a place of an array. If the
node has no such part, the field is as it was at the start.

**Parts (`Record.part?`).** The part of a node that belongs to the field with a name.

**Slots (`Record.Slot`).** A projection of a record that reading one of its fields sets, and reading
the others does not change.

**Results.**
* `gives_of_decode`: what a slot holds once the record is read.
* `Decoder.Gives.part`: the same for a record inside a record, which may be missing itself.
-/
namespace StepPipeline.Document

variable {α β : Type}

/-- What there is if `decode` reads the part, or the default for want of a part. -/
def Decoder.Gives (decode : Decoder β) (default : β) : Option Node → β → Prop
  | none, b => b = default
  | some part, b => decode part = .ok b

/-- The text that an optional field holds is the text that stands there. -/
theorem Decoder.Gives.text {part : Option Node} {b : Option String}
    (h : (Decoder.optional Node.text).Gives none part b) :
    b = part.bind fun node => node.text.toOption := by
  cases part with
  | none => exact h
  | some node =>
    change Decoder.optional Node.text node = .ok b at h
    show b = node.text.toOption
    unfold Decoder.optional at h
    split at h
    · cases h
      rfl
    · obtain ⟨s, hs, rfl⟩ := map_ok h
      rw [hs]
      rfl

namespace Record

/-- The value of the first entry whose key names the field at a position. -/
def entryAt? (r : Record α) (i : Nat) (entries : List (Option Position × Node × Node)) :
    Option Node :=
  (entries.find? fun entry => (r.fieldAt? entry.2.1).toOption.join = some i).map (·.2.2)

/-- The part of a node that belongs to the field at a position. -/
def partAt? (r : Record α) (i : Nat) : Node → Option Node
  | .mapping _ entries => r.entryAt? i entries
  | .sequence _ items => items[i]?.map (·.2)
  | .scalar .. => none

/-- The part of a node that belongs to the field with a name. -/
def part? (r : Record α) (name : String) (node : Node) : Option Node :=
  (r.fields.findIdx? fun f => f.name = name).bind fun i => r.partAt? i node

/-- Reading the field at the position sets what is projected; no other field changes it. -/
structure Slot (r : Record α) (i : Nat) (decode : Decoder β) (get : α → β) : Prop where
  own : ∃ f, r.fields[i]? = some f ∧ ∀ node set, f.read node = .ok set →
    ∃ b, decode node = .ok b ∧ ∀ a, get (set a) = b
  other : ∀ f ∈ r.fields.eraseIdx i, ∀ node set, f.read node = .ok set → ∀ a, get (set a) = get a

/-- A field that is set to what its decoder reads. -/
theorem Slot.of {r : Record α} {i : Nat} {name : String} {presence : Presence} {decode : Decoder β}
    {set : β → α → α} {get : α → β} (hf : r.fields[i]? = some (.of name presence decode set))
    (hget : ∀ b a, get (set b a) = b)
    (hother : ∀ f ∈ r.fields.eraseIdx i, ∀ node set, f.read node = .ok set →
      ∀ a, get (set a) = get a) : r.Slot i decode get where
  own := by
    refine ⟨_, hf, fun node set hset => ?_⟩
    obtain ⟨b, hb, rfl⟩ := map_ok hset
    exact ⟨b, hb, hget b⟩
  other := hother

section
variable {r : Record α} {i : Nat} {decode : Decoder β} {get : α → β} (hs : r.Slot i decode get)
include hs

theorem readEntries_gives {seen seen' : List Nat} {a b : α}
    {entries : List (Option Position × Node × Node)}
    (h : r.readEntries seen a entries = .ok (seen', b)) :
    decode.Gives (get a) (if i ∈ seen then none else r.entryAt? i entries) (get b) := by
  obtain ⟨own, hown, hreads⟩ := hs.own
  have hother (j : Nat) (f : Field α) (hj : j ≠ i) (hf : r.fields[j]? = some f) :=
    hs.other f (List.mem_eraseIdx_iff_getElem?.mpr ⟨j, hj, hf⟩)
  induction entries generalizing seen a with
  | nil =>
    cases h
    split <;> rfl
  | cons entry rest ih =>
    obtain ⟨place, key, value⟩ := entry
    unfold readEntries at h
    obtain ⟨index, hindex, h⟩ := bind_ok h
    have hskip (hne : index ≠ some i) :
        r.entryAt? i ((place, key, value) :: rest) = r.entryAt? i rest := by
      have hjoin : (r.fieldAt? key).toOption.join = index := by rw [hindex]; rfl
      simp only [entryAt?, List.find?_cons, hjoin, hne, decide_false]
    split at h
    · rename_i hnone
      obtain ⟨_, -, h⟩ := bind_ok h
      rw [hskip (by rintro rfl; simp [hown] at hnone)]
      exact ih h
    · rename_i j f hf
      obtain ⟨j', rfl, hj⟩ := Option.bind_eq_some_iff.mp hf
      obtain ⟨g, hg, hpair⟩ := Option.map_eq_some_iff.mp hj
      cases hpair
      split at h
      · cases h
      rename_i hseen
      obtain ⟨set, hset, h⟩ := bind_ok h
      have hrest := ih h
      by_cases hji : j = i
      · -- The entry of the field: no entry behind it is one.
        subst hji
        rw [hown] at hg
        cases hg
        obtain ⟨b', hb', hget⟩ := hreads _ _ hset
        have hjoin : (r.fieldAt? key).toOption.join = some j := by rw [hindex]; rfl
        have hfound : r.entryAt? j ((place, key, value) :: rest) = some value := by
          simp [entryAt?, hjoin]
        rw [if_pos List.mem_cons_self, hget] at hrest
        rw [if_neg (by simpa using hseen), hfound]
        exact (show get b = b' from hrest) ▸ hb'
      · rw [hother j _ hji hg _ _ hset] at hrest
        rw [hskip fun he => hji (Option.some.inj he)]
        have hmem : i ∈ j :: seen ↔ i ∈ seen := by simp [Ne.symm hji]
        simpa only [hmem] using hrest

theorem readItems_gives {frame : Frame} {total j : Nat} {fields : List (Field α)} {a b : α}
    {items : List (Option Fault × Node)} (hf : r.fields.drop j = fields)
    (h : r.readItems frame total a j fields items = .ok b) :
    decode.Gives (get a) (if i < j then none else items[i - j]?.map (·.2)) (get b) := by
  obtain ⟨own, hown, hreads⟩ := hs.own
  have hother (j : Nat) (f : Field α) (hj : j ≠ i) (hf : r.fields[j]? = some f) :=
    hs.other f (List.mem_eraseIdx_iff_getElem?.mpr ⟨j, hj, hf⟩)
  induction fields generalizing j a items with
  | nil =>
    cases items with
    | nil =>
      unfold readItems at h
      split at h
      · cases h
        split <;> rfl
      · cases h
    | cons item rest => cases h
  | cons f fields ih =>
    obtain ⟨hj, hdrop⟩ : r.fields[j]? = some f ∧ r.fields.drop (j + 1) = fields := by
      rw [← List.drop_drop, hf, ← List.head?_drop, hf]
      exact ⟨rfl, rfl⟩
    cases items with
    | nil =>
      unfold readItems at h
      obtain ⟨_, -, h⟩ := bind_ok h
      split at h
      · simpa using ih hdrop h
      · cases h
    | cons item rest =>
      unfold readItems at h
      obtain ⟨set, hset, h⟩ := bind_ok h
      have hrest := ih hdrop h
      rcases Nat.lt_trichotomy i j with hlt | rfl | hlt
      · rw [if_pos (Nat.lt_succ_of_lt hlt), hother j f (Nat.ne_of_gt hlt) hj _ _ hset] at hrest
        rw [if_pos hlt]
        exact hrest
      · rw [hown] at hj
        cases hj
        obtain ⟨b', hb', hget⟩ := hreads _ _ hset
        rw [if_pos (Nat.lt_succ_self i), hget] at hrest
        rw [if_neg (Nat.lt_irrefl i), Nat.sub_self]
        exact (show get b = b' from hrest) ▸ hb'
      · obtain ⟨k, rfl⟩ := Nat.exists_eq_add_of_lt hlt
        rw [if_neg (by omega), hother j f (by omega) hj _ _ hset,
          show j + k + 1 - (j + 1) = k by omega] at hrest
        rw [if_neg (by omega), show j + k + 1 - j = k + 1 by omega]
        exact hrest

/-- What a slot holds when the record is read. -/
theorem gives_of_decode {name : String}
    (hi : (r.fields.findIdx? fun f => f.name = name) = some i) {node : Node} {a : α}
    (h : r.decode node = .ok a) : decode.Gives (get r.start) (r.part? name node) (get a) := by
  rw [part?, hi, Option.bind_some]
  unfold Record.decode at h
  split at h
  · obtain ⟨_, -, h⟩ := bind_ok h
    obtain ⟨⟨seen, b⟩, hread, h⟩ := bind_ok h
    obtain ⟨_, -, h⟩ := bind_ok h
    split at h
    · cases h
    · cases h
      exact readEntries_gives hs hread
  · obtain ⟨_, -, h⟩ := bind_ok h
    exact readItems_gives hs rfl h
  · cases h

end
end Record

/-- A record that may be missing, and a slot of it. -/
theorem Decoder.Gives.part {r : Record α} {i : Nat} {decode : Decoder β} {get : α → β}
    {name : String} {part : Option Node} {a : α} (h : r.decode.Gives r.start part a)
    (hs : r.Slot i decode get) (hi : (r.fields.findIdx? fun f => f.name = name) = some i) :
    decode.Gives (get r.start) (part.bind (r.part? name)) (get a) := by
  cases part with
  | none => exact congrArg get h
  | some node => exact Record.gives_of_decode hs hi h

end StepPipeline.Document

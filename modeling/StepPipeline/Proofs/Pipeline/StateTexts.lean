import StepPipeline.Commit.Config
import StepPipeline.Proofs.Pipeline.Merges
import StepPipeline.Proofs.Pipeline.Persistence

/-!
# Texts of the shared state

The state is written as one object, an alias after the other as they were merged. Inside the outputs
the fields of an object are in the order of their keys; at the top the order is that of the merges,
and it is not lost: it is in the text, and a reader of the text has it.

**States that can be read (`Readable`).** Every output is data with whole numbers, and no deeper
than a reader goes.

**Results.**
* `decodeText_laidOut`: what is read from any layout of such a state is the state.
* `eq_of_laidOut`: a layout belongs to one state only, so the order of the merges shows in it.
* `commitMessage_congr`: the message of a commit depends on the outputs alone.
* `merged_state_read`: what the merges have put into a state is found behind its text, and every
  reader answers as before.
-/
namespace StepPipeline

namespace State

/-- The outputs are data with whole numbers, and a reader goes as deep as they are. -/
structure Readable (s : State) : Prop where
  plain : ∀ f ∈ s.entries, f.2.Plain
  height : ∀ f ∈ s.entries, f.2.height + 1 < Json.depthLimit

section
variable {s t : State} {text : String}

theorem Readable.within_toJson (h : s.Readable) : s.toJson.Within (Json.depthLimit - 2 + 1) :=
  Json.within_object fun f hf => ⟨(h.plain f hf).1, Nat.le_sub_of_add_le (h.height f hf)⟩

/-- **Reading.** Every layout of a state is read as the state. -/
theorem decodeText_laidOut (h : s.Readable) (htext : s.toJson.LaidOut text) :
    Json.decodeText decode text = .ok s := by
  have hwithin := h.within_toJson
  have hheight : s.toJson.height < Json.depthLimit :=
    Nat.lt_of_le_of_lt hwithin.height (by decide)
  exact (htext.readFrom hwithin.whole hheight).decodeText blind_decode (decode_toJson h.plain)

/-- **Order.** States that have a layout in common have the same entries in the same order. -/
theorem eq_of_laidOut (hs : s.Readable) (hst : s.toJson.LaidOut text) (ht : t.Readable)
    (htt : t.toJson.LaidOut text) : s = t :=
  Except.ok.inj ((decodeText_laidOut hs hst).symm.trans (decodeText_laidOut ht htt))

/-- The descriptions of steps depend on the outputs, and not on their order. -/
theorem descriptions_congr (h : ∀ aliasName, s.get? aliasName = t.get? aliasName)
    (names : List String) : descriptions s names = descriptions t names := by
  induction names with
  | nil => rfl
  | cons aliasName rest ih =>
    rw [descriptions, descriptions, (alikeAt_of_get (h aliasName) messageField).text, ih]

theorem commitMessage_congr (h : ∀ aliasName, s.get? aliasName = t.get? aliasName)
    (config : CommitConfig) : commitMessage s config = commitMessage t config := by
  rw [commitMessage, commitMessage, descriptions_congr h]

end

/-- The state is read from the text, and is the one that the merges have made. -/
structure ReadBack (calls : List (String × Json)) (text : String) (t : State) : Prop where
  read : Json.decodeText decode text = .ok t
  /-- The same aliases in the same order, each with its output. -/
  entries : t.entries = (ofMerges calls).entries
  /-- The aliases are in the order of the merges, and the first output under each is there. -/
  writeOnce : WriteOnce calls t
  alike : ∀ aliasName key, AlikeAt t (ofMerges calls) aliasName key
  message : ∀ config, commitMessage t config = commitMessage (ofMerges calls) config

theorem readBack_laidOut {calls : List (String × Json)} (h : (ofMerges calls).Readable)
    {text : String} (htext : (ofMerges calls).toJson.LaidOut text) :
    ReadBack calls text (ofMerges calls) where
  read := decodeText_laidOut h htext
  entries := rfl
  writeOnce := writeOnce_ofMerges calls
  alike _ _ := alikeAt_of_get rfl _
  message := commitMessage_congr fun _ => rfl

/-- **State texts.** The state behind any merges is written, over several lines or in one, as a
layout of its value. Let its outputs be data with whole numbers and no deeper than a reader goes.

* Each of its layouts is read as a state with the same aliases in the same order and the same
  outputs; a reader of it gets the answers that the merges have determined, and the message of every
  commit is the one that it was.
* No layout of it is also one of a state with other entries, or with the same in another order. -/
theorem merged_state_read (calls : List (String × Json)) (h : (ofMerges calls).Readable) :
    (ofMerges calls).toJson.LaidOut (ofMerges calls).toJson.compact ∧
    (ofMerges calls).toJson.LaidOut (ofMerges calls).toJson.pretty ∧
    (∀ text, (ofMerges calls).toJson.LaidOut text → ∃ t, ReadBack calls text t) ∧
    ∀ text, (ofMerges calls).toJson.LaidOut text → ∀ other : State, other.Readable →
      other.toJson.LaidOut text → other.entries = (ofMerges calls).entries := by
  refine ⟨Json.laidOut_compact _, Json.laidOut_pretty _, fun text htext => ?_,
    fun text htext other hother hlaid => ?_⟩
  · exact ⟨_, readBack_laidOut h htext⟩
  · rw [eq_of_laidOut hother hlaid h htext]

/-- Merges that are not in the order of their aliases, one of them refused. -/
def mixedCalls : List (String × Json) :=
  [("zoo", .object [("commitMessage", .string "say \"hi\"\n")]),
    ("a\\b", .object [("n", .int (-3)), ("o", .object [])]), ("zoo", .bool true), ("", .null)]

theorem readable_mixed : (ofMerges mixedCalls).Readable where
  plain := by
    have hentries : (ofMerges mixedCalls).entries =
        [("zoo", .object [("commitMessage", .string "say \"hi\"\n")]),
          ("a\\b", .object [("n", .int (-3)), ("o", .object [])]), ("", .null)] := rfl
    have hcount : (Number.whole (-3)).InRange := by decide
    rw [hentries]
    simp only [List.forall_mem_cons]
    exact ⟨⟨⟨trivial, trivial⟩, rfl⟩, ⟨⟨⟨-3, rfl, hcount⟩, trivial, trivial⟩, rfl⟩,
      ⟨trivial, rfl⟩, nofun⟩
  height := by decide

/-- The same outputs, merged the other way round. -/
def reversedCalls : List (String × Json) := (ofMerges mixedCalls).entries.reverse

theorem readable_reversed : (ofMerges reversedCalls).Readable where
  plain f hf := readable_mixed.plain f (List.mem_reverse.mp hf)
  height f hf := readable_mixed.height f (List.mem_reverse.mp hf)

/-- What is read back has the aliases in the order of the merges, and describes the commit. The same
outputs in another order are not written so. -/
theorem merged_state_read_mixed :
    (∃ t, Json.decodeText decode (ofMerges mixedCalls).toJson.compact = .ok t ∧
      t.aliases = ["zoo", "a\\b", ""] ∧ t.get? "zoo" ≠ some (.bool true) ∧
      t.text "zoo" "commitMessage" = .ok (some "say \"hi\"\n") ∧
      commitMessage t ⟨"", none, ["", "zoo"], none⟩ =
        .error (.of (.typeMismatch "" none "an object" "null"))) ∧
    ¬ (ofMerges reversedCalls).toJson.LaidOut (ofMerges mixedCalls).toJson.compact := by
  obtain ⟨hcompact, -, hread, honly⟩ := merged_state_read mixedCalls readable_mixed
  obtain ⟨t, ht⟩ := hread _ hcompact
  refine ⟨⟨t, ht.read, ?_, ?_, ?_, ?_⟩, fun hlaid => ?_⟩
  · rw [ht.writeOnce.aliases]
    rfl
  · rw [ht.writeOnce.get]
    show some (Json.object _) ≠ some (.bool true)
    exact nofun
  · rw [(ht.alike "zoo" "commitMessage").text]
    rfl
  · rw [ht.message]
    rfl
  · have hsame := honly _ hcompact _ readable_reversed hlaid
    have haliases := congrArg (List.map (·.1)) hsame
    exact absurd haliases (by decide)

end State
end StepPipeline

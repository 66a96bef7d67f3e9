import StepPipeline.Proofs.Document.Records
import StepPipeline.Proofs.Json.RoundTrip
import StepPipeline.Proofs.Pipeline.Outputs

/-!
# Records that are kept

A record is written as a text and read from it later. Where the record says something, the text says
it; but a result whose output is `null` has a field that holds `null`, and a reader takes such a
field for one that is not there. The shared state has no fields that may be missing, and keeps its
`null`. So what is read back agrees with what was kept except in these outputs (`restored`), and
after that a result and the shared state no longer say the same of its step.

**Results.**
* `decode_toJson` of results, summaries, states and records: what is read from the value that each
  is written as.
* `kept_record_read`: what is read from the text of a run's record. It is the record, and is written
  as the same text again, exactly if no step has put out `null`.
-/
namespace StepPipeline

open Document (Decoder Field Node)
open Document.Decoder (Blind)
open Document.Record (blind_field blind_decode)

/-! ## Results -/

theorem Json.within_hint {n : Nat} (message : String) : (hint message).Within (n + 1) :=
  within_object (List.forall_mem_singleton.mpr (within_string message))

theorem Status.decode_toJson (s : Status) : decode (.ofJson s.toJson) = .ok s := by
  cases s <;> rfl

/-- The output as a reader finds it: `null` is taken for nothing. -/
def StepReport.restoredOutput (s : StepReport) : Option Json :=
  match s.output with
  | some .null => none
  | output => output

namespace StepReport

/-- The result as a reader finds it. -/
def restored (s : StepReport) : StepReport :=
  { s with output := s.restoredOutput }

theorem restored_of_ne {s : StepReport} (h : s.output ≠ some .null) : s.restored = s := by
  unfold restored restoredOutput
  split
  · contradiction
  · rfl

theorem restoredOutput_ne_null (s : StepReport) : s.restoredOutput ≠ some .null := by
  unfold restoredOutput
  split
  · exact nofun
  · assumption

theorem read_output {s : StepReport} (h : ∀ v ∈ s.output, v.Plain) :
    ∀ v ∈ s.output, Decoder.optional Node.json (.ofJson v) = .ok s.restoredOutput := by
  intro v hv
  have hs : s.output = some v := hv
  unfold restoredOutput
  rw [hs]
  by_cases hnull : v = .null
  · subst hnull
    rfl
  · rw [Document.optional_of_ne hnull, (h v hv).json]
    cases v with
    | null => exact absurd rfl hnull
    | _ => rfl

theorem read_hints (messages : List String) :
    decodeHints (.ofJson (.array (messages.map .hint))) = .ok messages := by
  have h := @Document.list_map _ _ (Document.Record.decode ⟨"struct Hint",
    [.of "message" .required Node.text fun message _ => message], ""⟩) Json.hint id messages
    fun _ _ => rfl
  rw [List.map_id] at h
  exact h

theorem read_text (text : Option String) :
    ∀ v ∈ text.map Json.string, Decoder.optional Node.text (.ofJson v) = .ok text := by
  cases text with
  | none => exact nofun
  | some text => rintro v ⟨⟩; rfl

/-- What is read of a result: all of it, but for an output that is `null`. -/
theorem decode_toJson {s : StepReport} (h : ∀ v ∈ s.output, v.Plain) :
    record.decode (.ofJson s.toJson) = .ok s.restored := by
  have htext (text : String) : Node.text (.ofJson (.string text)) = .ok text := rfl
  have hstatus := s.status.decode_toJson
  have hfields : s.toJson = .object (("alias", .string s.aliasName) :: ("type", .string s.type) ::
      ("status", s.status.toJson) :: (Json.optional "output" s.output ++
        (Json.optional "error" (s.error.map .string) ++
          (Json.optional "error_code" (s.errorCode.map .string) ++
            (Json.unlessEmpty "hints" (s.hints.map .hint) ++ []))))) := by
    simp [toJson]
  rw [hfields]
  refine Document.Record.decode_of_reads ?_
  refine .field rfl rfl (htext s.aliasName) ?_
  refine .field rfl rfl (htext s.type) ?_
  refine .field rfl rfl hstatus ?_
  refine .optional rfl rfl (by decide) (read_output h) ?_ ?_
  · intro hs
    rw [restoredOutput, hs]
    rfl
  refine .optional rfl rfl (by decide) (read_text s.error) ?_ ?_
  · intro hs
    have hnone : s.error = none := Option.map_eq_none_iff.mp hs
    rw [hnone]
    rfl
  refine .optional rfl rfl (by decide) (read_text s.errorCode) ?_ ?_
  · intro hs
    have hnone : s.errorCode = none := Option.map_eq_none_iff.mp hs
    rw [hnone]
    rfl
  refine .unlessEmpty rfl rfl (by decide) (read_hints s.hints) ?_ (.nil (Nat.le_refl 7))
  intro hs
  have hnil : s.hints = [] := List.map_eq_nil_iff.mp hs
  rw [hnil]
  rfl

theorem blind_read : Blind record.decode := by
  refine blind_decode ?_
  simp only [record, List.forall_mem_cons]
  have hhints : Blind decodeHints := by
    refine Decoder.blind_list (blind_decode ?_)
    simp only [List.forall_mem_cons]
    exact ⟨blind_field Decoder.blind_text _ _ _, nofun⟩
  exact ⟨blind_field Decoder.blind_text _ _ _, blind_field Decoder.blind_text _ _ _,
    blind_field Decoder.blind_choice _ _ _,
    blind_field (Decoder.blind_optional Decoder.blind_json) _ _ _,
    blind_field (Decoder.blind_optional Decoder.blind_text) _ _ _,
    blind_field (Decoder.blind_optional Decoder.blind_text) _ _ _,
    blind_field hhints _ _ _, nofun⟩

theorem within_toJson {n : Nat} {s : StepReport} (h : ∀ v ∈ s.output, v.Within (n + 2)) :
    s.toJson.Within (n + 3) := by
  refine Json.within_object ?_
  simp only [List.mem_append, or_imp, forall_and]
  refine ⟨⟨⟨⟨?_, Json.within_optional h⟩, Json.within_optional_string⟩,
    Json.within_optional_string⟩, Json.within_unlessEmpty fun v hv => ?_⟩
  · simp only [List.forall_mem_cons]
    exact ⟨Json.within_string _, Json.within_string _, Json.within_string _, nofun⟩
  · obtain ⟨message, -, rfl⟩ := List.mem_map.mp hv
    exact Json.within_hint message

/-- The value that a result with a `null` output is written as, and the one it is read back as. -/
theorem fields_of_null {s : StepReport} (h : s.output = some .null) :
    ∃ front back : Fields, s.toJson = .object (front ++ ("output", .null) :: back) ∧
      s.restored.toJson = .object (front ++ back) := by
  refine ⟨[("alias", .string s.aliasName), ("type", .string s.type), ("status", s.status.toJson)],
    Json.optional "error" (s.error.map .string)
      ++ Json.optional "error_code" (s.errorCode.map .string)
      ++ Json.unlessEmpty "hints" (s.hints.map .hint), ?_, ?_⟩
  · simp [toJson, h, Json.optional]
  · simp [toJson, restored, restoredOutput, h, Json.optional]

theorem height_restored (s : StepReport) : s.restored.toJson.height ≤ s.toJson.height := by
  by_cases h : s.output = some .null
  · obtain ⟨front, back, hkept, hread⟩ := fields_of_null h
    rw [hkept, hread]
    show Json.heightFields _ + 1 ≤ Json.heightFields _ + 1
    simp only [Json.heightFields_append, Json.heightFields]
    omega
  · exact Nat.le_of_eq (by rw [restored_of_ne h])

/-- A result is read back as it was exactly if it is written again as it was. -/
theorem toJson_restored_iff {s : StepReport} :
    s.restored.toJson = s.toJson ↔ s.output ≠ some .null := by
  constructor
  · intro h hnull
    obtain ⟨front, back, hkept, hread⟩ := fields_of_null hnull
    rw [hkept, hread] at h
    have hlength := congrArg List.length (Json.object.inj h)
    simp at hlength
  · intro h
    rw [restored_of_ne h]

end StepReport

/-! ## Summaries -/

namespace Summary

theorem decode_toJson (s : Summary) : record.decode (.ofJson s.toJson) = .ok s := by
  have hcount (n : Nat) : Decoder.count (.ofJson (.nat n)) = .ok n := by
    have hn : 0 ≤ (n : Int) := Int.natCast_nonneg n
    simp only [Json.nat, Node.ofJson, Node.plain, Decoder.count, if_pos hn, Int.toNat_natCast]
  have hfields : s.toJson = .object (("total_steps", .nat s.totalSteps) ::
      ("succeeded", .nat s.succeeded) :: ("errored", .nat s.errored) ::
        ("not_run", .nat s.notRun) ::
          (Json.unlessEmpty "next_actions" (s.nextActions.map .string) ++ [])) := by
    simp [toJson]
  rw [hfields]
  refine Document.Record.decode_of_reads ?_
  refine .field rfl rfl (hcount _) ?_
  refine .field rfl rfl (hcount _) ?_
  refine .field rfl rfl (hcount _) ?_
  refine .field rfl rfl (hcount _) ?_
  refine .unlessEmpty rfl rfl (by decide) (Document.list_text s.nextActions) ?_
    (.nil (Nat.le_refl 5))
  intro hs
  have hnil : s.nextActions = [] := List.map_eq_nil_iff.mp hs
  rw [hnil]
  rfl

theorem blind_read : Blind record.decode := by
  refine blind_decode ?_
  simp only [record, List.forall_mem_cons]
  exact ⟨blind_field Decoder.blind_count _ _ _, blind_field Decoder.blind_count _ _ _,
    blind_field Decoder.blind_count _ _ _, blind_field Decoder.blind_count _ _ _,
    blind_field (Decoder.blind_list Decoder.blind_text) _ _ _, nofun⟩

/-- No number of the summary exceeds that of the steps. -/
def Bounded (s : Summary) (total : Nat) : Prop :=
  s.totalSteps ≤ total ∧ s.succeeded ≤ total ∧ s.errored ≤ total ∧ s.notRun ≤ total

theorem within_toJson {n : Nat} {s : Summary} {total : Nat} (h : s.Bounded total)
    (ht : total < twoTo 64) : s.toJson.Within (n + 2) := by
  obtain ⟨htotal, hsucceeded, herrored, hnotRun⟩ := h
  refine Json.within_object ?_
  simp only [List.mem_append, or_imp, forall_and, List.forall_mem_cons]
  refine ⟨⟨Json.within_nat (by omega), Json.within_nat (by omega), Json.within_nat (by omega),
    Json.within_nat (by omega), nofun⟩, Json.within_unlessEmpty fun v hv => ?_⟩
  obtain ⟨action, -, rfl⟩ := List.mem_map.mp hv
  exact Json.within_string action

end Summary

/-! ## The shared state -/

namespace Fields

theorem put_of_not_mem {key : String} {fields : Fields} (h : key ∉ fields.map (·.1)) (value : Json) :
    fields.put key value = fields ++ [(key, value)] := by
  induction fields with
  | nil => rfl
  | cons f rest ih =>
    rw [List.map_cons, List.mem_cons, not_or] at h
    show (if key = f.1 then _ else f :: put key value rest) = _
    rw [if_neg h.1, ih h.2]
    rfl

end Fields

namespace State

/-- Fields that no two of which have a key in common are put one behind the other. -/
theorem entries_foldl {fields : Fields} {s : State}
    (h : (s.entries.map (·.1) ++ fields.map (·.1)).Nodup) :
    (fields.foldl (fun s (aliasName, output) => s.put aliasName output) s).entries =
      s.entries ++ fields := by
  induction fields generalizing s with
  | nil => exact (List.append_nil _).symm
  | cons f rest ih =>
    have hf : f.1 ∉ s.entries.map (·.1) := fun hm =>
      (List.nodup_append.mp h).2.2 _ hm _ List.mem_cons_self rfl
    have hput : (s.put f.1 f.2).entries = s.entries ++ [f] := Fields.put_of_not_mem hf f.2
    rw [List.foldl_cons, ih, hput, List.append_assoc]
    · rfl
    · rw [hput, List.map_append, List.append_assoc]
      exact h

theorem ofFields_entries (s : State) : ofFields s.entries = s := by
  have h : (ofFields s.entries).entries = [] ++ s.entries := entries_foldl s.distinct
  obtain ⟨entries, distinct⟩ := s
  generalize ofFields entries = t at h
  obtain ⟨entries', _⟩ := t
  cases h
  rfl

theorem decode_toJson {s : State} (h : ∀ f ∈ s.entries, f.2.Plain) :
    decode (.ofJson s.toJson) = .ok s := by
  have hfields : Decoder.fieldsAsWritten (.ofJson s.toJson) = .ok s.entries := by
    have hjson : Node.jsonFields (Node.ofFields s.entries) = .ok s.entries := by
      rw [Json.jsonFields_ofFields s.entries (Json.wholeFields_iff.mpr fun f hf => (h f hf).1),
        Json.canonicalFields_plain h]
    simp only [toJson, Node.ofJson, Decoder.fieldsAsWritten, hjson]
    rfl
  unfold decode
  rw [hfields]
  show Except.ok (ofFields s.entries) = _
  rw [ofFields_entries]

theorem blind_decode : Blind decode :=
  Decoder.blind_map Decoder.blind_fieldsAsWritten ofFields

end State

/-! ## Records -/

namespace RunRecord

/-- The record as a reader finds it. -/
def restored (r : RunRecord) : RunRecord :=
  { r with report := { r.report with steps := r.report.steps.map StepReport.restored } }

/-- The identity and the times of the record are read as they are written. -/
structure Stamped (r : RunRecord) : Prop where
  id : Uuid.decode (.ofJson (.string r.id.toString)) = .ok r.id
  startedAt : Instant.decode (.ofJson (.string r.startedAt.toString)) = .ok r.startedAt
  finishedAt : Instant.decode (.ofJson (.string r.finishedAt.toString)) = .ok r.finishedAt

/-- Every output of the record is data with whole numbers, in the results and in the state. -/
structure Plain (r : RunRecord) : Prop where
  outputs : ∀ s ∈ r.report.steps, ∀ v ∈ s.output, v.Plain
  entries : ∀ f ∈ r.report.state.entries, f.2.Plain

theorem decode_toJson {r : RunRecord} (hs : r.Stamped) (hp : r.Plain) :
    decode (.ofJson r.toJson) = .ok r.restored := by
  have hsteps : Decoder.list StepReport.record.decode
      (.ofJson (.array (r.report.steps.map StepReport.toJson))) =
        .ok (r.report.steps.map StepReport.restored) :=
    Document.list_map fun s hm => StepReport.decode_toJson (hp.outputs s hm)
  refine Document.Record.decode_of_reads ?_
  refine .field rfl rfl hs.id ?_
  refine .field rfl rfl r.report.status.decode_toJson ?_
  refine .field rfl rfl hsteps ?_
  refine .field rfl rfl r.report.summary.decode_toJson ?_
  refine .field rfl rfl (State.decode_toJson hp.entries) ?_
  refine .field rfl rfl hs.startedAt ?_
  refine .field rfl rfl hs.finishedAt ?_
  exact .nil (Nat.le_refl 7)

theorem blind_read : Blind decode := by
  refine blind_decode ?_
  simp only [record, List.forall_mem_cons]
  exact ⟨blind_field Decoder.blind_notated _ _ _, blind_field Decoder.blind_choice _ _ _,
    blind_field (Decoder.blind_list StepReport.blind_read) _ _ _,
    blind_field Summary.blind_read _ _ _, blind_field State.blind_decode _ _ _,
    blind_field Decoder.blind_notated _ _ _, blind_field Decoder.blind_notated _ _ _, nofun⟩

theorem within_toJson {n : Nat} {r : RunRecord}
    (houtputs : ∀ s ∈ r.report.steps, ∀ v ∈ s.output, v.Within (n + 2))
    (hentries : ∀ f ∈ r.report.state.entries, f.2.Within (n + 3)) {total : Nat}
    (hb : r.report.summary.Bounded total) (ht : total < twoTo 64) : r.toJson.Within (n + 5) := by
  have hsteps : (Json.array (r.report.steps.map StepReport.toJson)).Within (n + 4) := by
    refine Json.within_array fun v hv => ?_
    obtain ⟨s, hm, rfl⟩ := List.mem_map.mp hv
    exact StepReport.within_toJson (houtputs s hm)
  refine Json.within_object ?_
  simp only [List.forall_mem_cons, RunReport.fields, List.cons_append, List.nil_append]
  exact ⟨Json.within_string _, Json.within_string _, hsteps, Summary.within_toJson hb ht,
    Json.within_object hentries, Json.within_string _, Json.within_string _, nofun⟩

theorem whole_toJson {r : RunRecord} (hp : r.Plain) {total : Nat}
    (hb : r.report.summary.Bounded total) (ht : total < twoTo 64) : r.toJson.Whole := by
  obtain ⟨n, hn⟩ := @Json.exists_within (r.report.steps.filterMap (·.output)) fun v hv => by
    obtain ⟨s, hs, hv⟩ := List.mem_filterMap.mp hv
    exact (hp.outputs s hs v hv).1
  obtain ⟨m, hm⟩ := @Json.exists_within (r.report.state.entries.map (·.2)) fun v hv => by
    obtain ⟨f, hf, rfl⟩ := List.mem_map.mp hv
    exact (hp.entries f hf).1
  refine (within_toJson (n := n + m) (fun s hs v hv => ?_) (fun f hf => ?_) hb ht).whole
  · exact (hn v (List.mem_filterMap.mpr ⟨s, hs, hv⟩)).mono (by omega)
  · exact (hm f.2 (List.mem_map_of_mem hf)).mono (by omega)

theorem plain_restored {r : RunRecord} (hp : r.Plain) : r.restored.Plain where
  outputs := by
    intro s hm v hv
    obtain ⟨kept, hkept, rfl⟩ := List.mem_map.mp hm
    refine hp.outputs kept hkept v ?_
    change kept.restoredOutput = some v at hv
    unfold StepReport.restoredOutput at hv
    split at hv
    · cases hv
    · exact hv
  entries := hp.entries

theorem height_restored (r : RunRecord) : r.restored.toJson.height ≤ r.toJson.height := by
  have hsteps := @Json.heightItems_map_le _ r.report.steps (fun s => s.restored.toJson)
    StepReport.toJson fun s _ => s.height_restored
  show Json.heightFields _ + 1 ≤ Json.heightFields _ + 1
  simp only [restored, RunReport.fields, Json.heightFields_append, Json.heightFields, Json.height,
    List.map_map, Function.comp_def]
  omega

theorem toJson_restored_iff {r : RunRecord} :
    r.restored.toJson = r.toJson ↔ ∀ s ∈ r.report.steps, s.output ≠ some .null := by
  have hsteps : r.restored.toJson = r.toJson ↔
      (r.report.steps.map StepReport.restored).map StepReport.toJson =
        r.report.steps.map StepReport.toJson := by
    simp [toJson, restored, RunReport.fields]
  rw [hsteps, List.map_map, List.map_inj_left]
  exact forall₂_congr fun s _ => StepReport.toJson_restored_iff

theorem restored_of_ne {r : RunRecord} (h : ∀ s ∈ r.report.steps, s.output ≠ some .null) :
    r.restored = r := by
  have hsteps : r.report.steps.map StepReport.restored = r.report.steps := by
    rw [List.map_congr_left fun s hs => StepReport.restored_of_ne (h s hs), List.map_id']
  unfold restored
  rw [hsteps]

end RunRecord

/-! ## Runs -/

section
variable {ω : Type} [Cancellable ω] {steps : List Step} {registry : Registry ω} {ctx : RunContext}
  {w : ω}

/-- What a run says in its results and in its state: an output is an entry of the state. -/
theorem entry?_of_run {r : RunReport} (h : (run steps registry ctx w).1 = .ok r) {s : StepReport}
    (hs : s ∈ r.steps) {v : Json} (hv : s.output = some v) : s.entry? = some (s.aliasName, v) := by
  obtain ⟨-, -, -, rfl⟩ := run_ok h
  obtain ⟨a, ha, rfl⟩ := List.mem_map.mp hs
  rcases Execution.conclusion (executions_fresh steps registry ctx w a ha) with
    ⟨output, -, hr, -⟩ | ⟨f, -, hr, -⟩
  · rw [hr] at hv ⊢
    cases hv
    rfl
  · rw [hr] at hv
    cases hv

theorem entries_of_run {r : RunReport} (h : (run steps registry ctx w).1 = .ok r) :
    r.state.entries = r.steps.filterMap StepReport.entry? := by
  obtain ⟨-, -, -, rfl⟩ := run_ok h
  exact entries_reportOf steps registry ctx w

theorem bounded_of_run {r : RunReport} (h : (run steps registry ctx w).1 = .ok r) :
    r.summary.Bounded steps.length := by
  obtain ⟨-, -, -, rfl⟩ := run_ok h
  have hle := length_executions_le steps registry ctx w
  have hfilter (p : StepReport → Bool) :
      (((executions steps registry ctx w).map Execution.report).filter p).length ≤ steps.length :=
    Nat.le_trans (List.length_filter_le _ _) (by rwa [List.length_map])
  exact ⟨Nat.le_refl _, hfilter _, hfilter _, Nat.sub_le _ _⟩

/-- The entries of the state are outputs of the results. -/
theorem entries_all_of_run {P : Json → Prop} {r : RunReport}
    (h : (run steps registry ctx w).1 = .ok r) (hp : ∀ s ∈ r.steps, ∀ v ∈ s.output, P v) :
    ∀ f ∈ r.state.entries, P f.2 := by
  intro f hf
  rw [entries_of_run h] at hf
  obtain ⟨s, hs, he⟩ := List.mem_filterMap.mp hf
  exact hp s hs f.2 (StepReport.output_of_entry? he)

/-- Read back, the results stand for what is in the state unless one of them has lost a `null`. -/
theorem restored_agrees_iff {r : RunRecord} (h : (run steps registry ctx w).1 = .ok r.report) :
    r.restored.report.state.entries = r.restored.report.steps.filterMap StepReport.entry? ↔
      ∀ s ∈ r.report.steps, s.output ≠ some .null := by
  constructor
  · intro hagree s hs hnull
    have hentry : (s.aliasName, Json.null) ∈ r.report.state.entries := by
      rw [entries_of_run h]
      exact List.mem_filterMap.mpr ⟨s, hs, entry?_of_run h hs hnull⟩
    change r.report.state.entries = _ at hagree
    rw [hagree] at hentry
    obtain ⟨t, ht, he⟩ := List.mem_filterMap.mp hentry
    obtain ⟨kept, -, rfl⟩ := List.mem_map.mp ht
    -- No result has the output `null` once it has been read back.
    exact kept.restoredOutput_ne_null (StepReport.output_of_entry? he)
  · intro hne
    rw [RunRecord.restored_of_ne hne]
    exact entries_of_run h

/-- **Kept records.** The record of a run, whatever its steps have put out and however it ended, is
read from its text with the state as it was and the results as they were, except that an output that
is `null` is read as none. So it is written as the same text again, and its results agree with its
state, exactly if no step has put out `null`; then it is the record that was kept. -/
theorem kept_record_read {r : RunRecord} (hrun : (run steps registry ctx w).1 = .ok r.report)
    (hstamped : r.Stamped) (hplain : ∀ s ∈ r.report.steps, ∀ v ∈ s.output, v.Plain)
    (hcount : steps.length < twoTo 64) (hheight : r.toJson.height < Json.depthLimit) :
    Json.decodeText RunRecord.decode r.toJson.compact = .ok r.restored ∧
      r.restored.report.state = r.report.state ∧
      ((∀ s ∈ r.report.steps, s.output ≠ some .null) → r.restored = r) ∧
      (r.restored.toJson.compact = r.toJson.compact ↔
        ∀ s ∈ r.report.steps, s.output ≠ some .null) ∧
      (r.restored.report.state.entries =
          r.restored.report.steps.filterMap StepReport.entry? ↔
        ∀ s ∈ r.report.steps, s.output ≠ some .null) ∧
      ∀ s ∈ r.report.steps, s.output = some .null →
        s.restored.output = none ∧ r.report.state.get? s.aliasName = some .null := by
  have hp : r.Plain := ⟨hplain, entries_all_of_run hrun hplain⟩
  have hbounded := bounded_of_run hrun
  have hwhole := RunRecord.whole_toJson hp hbounded hcount
  have hread := RunRecord.decode_toJson hstamped hp
  refine ⟨Json.decodeText_compact RunRecord.blind_read hwhole hheight hread, rfl,
    RunRecord.restored_of_ne, ?_, restored_agrees_iff hrun, fun s hs hnull => ⟨?_, ?_⟩⟩
  · rw [← RunRecord.toJson_restored_iff]
    refine ⟨fun htext => ?_, fun h => congrArg Json.compact h⟩
    have hwhole' := RunRecord.whole_toJson (RunRecord.plain_restored hp) hbounded hcount
    exact Json.compact_injective hwhole' (Nat.lt_of_le_of_lt r.height_restored hheight) hwhole
      hheight htext
  · show s.restoredOutput = none
    unfold StepReport.restoredOutput
    rw [hnull]
  · refine Fields.get?_of_mem r.report.state.distinct ?_
    rw [entries_of_run hrun]
    exact List.mem_filterMap.mpr ⟨s, hs, entry?_of_run hrun hs hnull⟩

end

/-- Two steps, the first of which puts out `null`. -/
def markSteps : List Step :=
  [⟨some "mark", "echo", [("output", .null)]⟩,
    ⟨none, "echo", [("output", .object [("count", .int 3)])]⟩]

/-- The record of their run. -/
def markRecord : RunRecord where
  id := ⟨0x67e5504410b1426f9247bb680e5fe0c8⟩
  report :=
    ⟨.succeeded, [.succeeded "mark" "echo" (some .null),
      .succeeded "step-1" "echo" (some (.object [("count", .int 3)]))], ⟨2, 2, 0, 0, []⟩,
      { entries := [("mark", .null), ("step-1", .object [("count", .int 3)])] }⟩
  startedAt := ⟨1704164645, 0⟩
  finishedAt := ⟨1704164646, 0⟩

theorem stamped_mark : markRecord.Stamped where
  id := by
    have h : Uuid.read markRecord.id.toString.toList = .ok markRecord.id := by
      rw [Uuid.toString, String.toList_ofList]
      rfl
    simp only [Uuid.decode, Node.ofJson, Node.plain, Decoder.notated, h]
    rfl
  startedAt := by
    have h : Instant.read markRecord.startedAt.toString.toList = .ok markRecord.startedAt := by
      rw [Instant.toString, String.toList_ofList]
      rfl
    simp only [Instant.decode, Node.ofJson, Node.plain, Decoder.notated, h]
    rfl
  finishedAt := by
    have h : Instant.read markRecord.finishedAt.toString.toList = .ok markRecord.finishedAt := by
      rw [Instant.toString, String.toList_ofList]
      rfl
    simp only [Instant.decode, Node.ofJson, Node.plain, Decoder.notated, h]
    rfl

theorem plain_mark : ∀ s ∈ markRecord.report.steps, ∀ v ∈ s.output, v.Plain := by
  have hcount : (Number.whole 3).InRange := by decide
  simp only [markRecord, List.forall_mem_cons]
  refine ⟨?_, ?_, fun _ h => absurd h List.not_mem_nil⟩
  · rintro v ⟨⟩
    exact ⟨trivial, rfl⟩
  · rintro v ⟨⟩
    exact ⟨⟨⟨3, rfl, hcount⟩, trivial⟩, rfl⟩

/-- A `null` that a step has put out is kept, and found in the state, but no longer in the result of
the step; the text that is written then is another one. -/
theorem kept_record_read_mark :
    (run markSteps echoRegistry ⟨"/box", "step"⟩ ⟨false⟩).1 = .ok markRecord.report ∧
      Json.decodeText RunRecord.decode markRecord.toJson.compact = .ok markRecord.restored ∧
      markRecord.restored.report.steps.map (·.output) =
        [none, some (.object [("count", .int 3)])] ∧
      markRecord.restored.report.state.get? "mark" = some .null ∧
      markRecord.restored.toJson.compact ≠ markRecord.toJson.compact := by
  have hrun : (run markSteps echoRegistry ⟨"/box", "step"⟩ ⟨false⟩).1 = .ok markRecord.report := rfl
  obtain ⟨hread, -, -, htext, -, hnull⟩ :=
    kept_record_read hrun stamped_mark plain_mark (by decide) (by decide)
  refine ⟨hrun, hread, rfl, (hnull _ List.mem_cons_self rfl).2, fun h => ?_⟩
  exact htext.mp h _ List.mem_cons_self rfl

end StepPipeline

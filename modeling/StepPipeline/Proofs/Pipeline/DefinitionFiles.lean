import StepPipeline.Pipeline.Source
import StepPipeline.Proofs.Files.Walk
import StepPipeline.Proofs.Json.RoundTrip
import StepPipeline.Proofs.Pipeline.Definitions
import StepPipeline.Proofs.Text.Octets
import Mathlib.Data.List.Forall2

/-!
# Definition files are read as they are written

A step leaves out an alias that it does not have and a configuration that is empty, and a reader
takes a field that is missing for just that. So a file with the steps of a pipeline defines these
steps, whichever shape it has and whatever else stands beside them.

**Documents (`Step.WrittenAs`, `Defines`).** A step, its alias under `alias` or `as`; the list of
the steps, bare or under `steps` among other fields.

**Results.**
* `Step.decode_writtenAs`: a step is read as it was.
* `decodeDefinition_defines`: so are the steps of a definition.
* `isYaml_eq_false`: which files are read as JSON.
* `definition_files_load`: the steps of a file, from any text in which a reader finds the document;
  every layout of the document is one, if its numbers are whole and it is not too deep.
-/
namespace StepPipeline

open Document (Decoder Node Record mapError_ok)
open Document.Decoder (Blind)
open Document.Node (Holds)
open Document.Record (blind_field blind_decode)

/-! ## Steps -/

/-- The step as a document, its alias under `key`. -/
def Step.written (key : String) (step : Step) : Json :=
  .object (Json.optional key (step.aliasName.map .string) ++ [("type", .string step.type)]
    ++ Json.optional "config" (if step.config.isEmpty then none else some (.object step.config)))

/-- The documents of a step: its own, and the one that calls the alias `as`. -/
def Step.WrittenAs (step : Step) (doc : Json) : Prop :=
  doc = step.toJson ∨ doc = step.written "as"

theorem Step.WrittenAs.key {step : Step} {doc : Json} (h : step.WrittenAs doc) :
    ∃ key, (key = "alias" ∨ key = "as") ∧ doc = step.written key := by
  rcases h with rfl | rfl
  · exact ⟨"alias", Or.inl rfl, rfl⟩
  · exact ⟨"as", Or.inr rfl, rfl⟩

/-- An object that is data is read with the fields that it has. -/
theorem fields_plain {fields : Fields} (h : (Json.object fields).Plain) :
    Decoder.fields (.ofJson (.object fields)) = .ok fields := by
  obtain ⟨hwhole, hcanonical⟩ := h
  have hread := Json.jsonFields_ofFields fields hwhole
  have hsorted : Fields.sorted (Json.canonicalFields fields) = fields := Json.object.inj hcanonical
  simp only [Node.ofJson, Decoder.fields, bind, Except.bind, Document.Frame.enter,
    Document.Frame.finish, Document.Frame.plain, hread, hsorted]
  rfl

/-- A step is read as it was. -/
theorem Step.decode_written {key : String} (hk : key = "alias" ∨ key = "as") {step : Step}
    (h : (Json.object step.config).Plain) : Step.decode (.ofJson (step.written key)) = .ok step := by
  obtain ⟨aliasName, type, config⟩ := step
  have htext (text : String) : Node.text (.ofJson (.string text)) = .ok text := rfl
  have hfields : Step.written key ⟨aliasName, type, config⟩ =
      .object (Json.optional key (aliasName.map .string) ++ (("type", .string type) ::
        (Json.optional "config" (if config.isEmpty then none else some (.object config)) ++ []))) := by
    simp [Step.written]
  -- Behind the alias, both kinds of steps have the same fields.
  have hrest (named : Option String) : Step.record.Reads 1 ⟨named, "", []⟩
      (("type", .string type) ::
        (Json.optional "config" (if config.isEmpty then none else some (.object config)) ++ []))
      ⟨named, type, config⟩ := by
    refine .field rfl rfl (htext type) ?_
    refine .optional (b := config) rfl rfl (by decide) ?_ ?_ (.nil (Nat.le_refl 3))
    · intro v hv
      split at hv
      · cases hv
      · cases hv
        exact fields_plain h
    · intro hnone
      cases config with
      | nil => rfl
      | cons f more => simp at hnone
  rw [hfields]
  refine Record.decode_of_reads ?_
  cases aliasName with
  | none => exact .skip rfl (by decide) (hrest none)
  | some name =>
    have hfield : Step.record.fieldAt? (.plain (.text key)) = .ok (some 0) := by
      rcases hk with rfl | rfl <;> rfl
    exact .read rfl hfield rfl (hrest (some name))

theorem Step.decode_writtenAs {step : Step} {doc : Json} (h : step.WrittenAs doc)
    (hc : (Json.object step.config).Plain) : Step.decode (.ofJson doc) = .ok step := by
  obtain ⟨key, hkey, rfl⟩ := h.key
  exact decode_written hkey hc

theorem blind_step : Blind Step.decode := by
  refine blind_decode ?_
  simp only [Step.record, List.forall_mem_cons]
  exact ⟨Decoder.blind_map (Decoder.blind_optional Decoder.blind_text) _,
    blind_field Decoder.blind_text _ _ _, blind_field Decoder.blind_fields _ _ _,
    fun _ h => absurd h List.not_mem_nil⟩

theorem Step.whole_writtenAs {step : Step} {doc : Json} (h : step.WrittenAs doc)
    (hc : (Json.object step.config).Whole) : doc.Whole := by
  obtain ⟨key, -, rfl⟩ := h.key
  refine Json.whole_object ?_
  simp only [List.mem_append, or_imp, forall_and]
  refine ⟨⟨?_, ?_⟩, ?_⟩
  · apply Json.whole_optional
    intro v hv
    obtain ⟨_, -, rfl⟩ := Option.map_eq_some_iff.mp hv
    trivial
  · simp only [List.forall_mem_cons]
    exact ⟨trivial, nofun⟩
  · apply Json.whole_optional
    intro v hv
    split at hv
    · cases hv
    · cases hv
      exact hc

/-! ## Definitions -/

/-- The documents of the steps, one for each. -/
abbrev Written (steps : List Step) (docs : List Json) : Prop :=
  List.Forall₂ Step.WrittenAs steps docs

theorem decodeList_written {steps : List Step} {docs : List Json} (h : Written steps docs)
    (hconfig : ∀ step ∈ steps, (Json.object step.config).Plain) :
    Step.decodeList (.ofJson (.array docs)) = .ok steps := by
  have hitems : Decoder.items Step.decode (Node.ofItems docs) = .ok steps := by
    induction h with
    | nil => rfl
    | cons hw _ ih =>
      obtain ⟨hplain, hrest⟩ := List.forall_mem_cons.mp hconfig
      simp only [Node.ofItems, Decoder.items, Step.decode_writtenAs hw hplain, ih hrest]
      rfl
  simp only [Node.ofJson, Step.decodeList, Decoder.list, hitems]
  rfl

theorem whole_written {steps : List Step} {docs : List Json} (h : Written steps docs)
    (hconfig : ∀ step ∈ steps, (Json.object step.config).Whole) : ∀ doc ∈ docs, doc.Whole := by
  induction h with
  | nil => exact nofun
  | cons hw _ ih =>
    obtain ⟨hwhole, hrest⟩ := List.forall_mem_cons.mp hconfig
    exact List.forall_mem_cons.mpr ⟨Step.whole_writtenAs hw hwhole, ih hrest⟩

/-- The documents that define steps, and what else stands in them. -/
inductive Defines (docs : List Json) : (others : Fields) → Json → Prop
  | bare : Defines docs [] (.array docs)
  | wrapped (front back : Fields) (h : ∀ f ∈ front ++ back, f.1 ≠ "steps") :
    Defines docs (front ++ back) (.object (front ++ ("steps", .array docs) :: back))

/-- The decoder that is chosen by the shape of a definition. -/
def shapeDecoder : Node → Decoder (List Step)
  | .mapping .. => wrappedSteps.decode
  | _ => Step.decodeList

theorem definedSteps_eq (node : Node) :
    definedSteps node = (shapeDecoder node node).mapError fun _ => noDefinition := by
  unfold definedSteps
  cases node with
  | mapping frame entries =>
    dsimp only [shapeDecoder]
    cases wrappedSteps.decode (.mapping frame entries) <;> rfl
  | scalar lead front value passed =>
    dsimp only [shapeDecoder]
    cases Step.decodeList (.scalar lead front value passed) <;> rfl
  | sequence frame items =>
    dsimp only [shapeDecoder]
    cases Step.decodeList (.sequence frame items) <;> rfl

/-- A value and a node that holds it have one shape. -/
theorem shapeDecoder_of_holds {doc : Json} {node : Node} (h : Holds doc node) :
    shapeDecoder node = shapeDecoder (.ofJson doc) := by
  cases h <;> rfl

theorem blind_shapeDecoder (node : Node) : Blind (shapeDecoder node) := by
  have hlist : Blind Step.decodeList := Decoder.blind_list blind_step
  have hwrapped : Blind wrappedSteps.decode := by
    refine blind_decode ?_
    simp only [wrappedSteps, List.forall_mem_cons]
    exact ⟨blind_field hlist _ _ _, fun _ h => absurd h List.not_mem_nil⟩
  cases node with
  | mapping => exact @hwrapped
  | scalar => exact @hlist
  | sequence => exact @hlist

theorem blind_definition : Blind decodeDefinition := by
  intro doc node steps hh ha
  unfold decodeDefinition at ha ⊢
  rw [Node.check_of_holds hh]
  rw [Node.check_of_holds (Node.holds_ofJson doc)] at ha
  change definedSteps (.ofJson doc) = .ok steps at ha
  show definedSteps node = .ok steps
  rw [definedSteps_eq] at ha ⊢
  rw [shapeDecoder_of_holds hh, blind_shapeDecoder _ hh (mapError_ok ha)]
  rfl

/-- Other fields than the steps are passed over. -/
theorem reads_others {others rest : Fields} {i : Nat} {a c : List Step}
    (h : ∀ f ∈ others, f.1 ≠ "steps") (hr : wrappedSteps.Reads i a rest c) :
    wrappedSteps.Reads i a (others ++ rest) c := by
  induction others with
  | nil => exact hr
  | cons f others ih =>
    obtain ⟨hf, hothers⟩ := List.forall_mem_cons.mp h
    have hunknown : wrappedSteps.fieldAt? (.plain (.text f.1)) = .ok none := by
      simp [Record.fieldAt?, wrappedSteps, Document.Field.of, Node.plain, Ne.symm hf]
    exact .unknown hunknown (Node.pass_of_holds (Node.holds_ofJson f.2)) (ih hothers)

/-- The steps of a definition are read as they were. -/
theorem decodeDefinition_defines {steps : List Step} {docs : List Json} (hw : Written steps docs)
    (hconfig : ∀ step ∈ steps, (Json.object step.config).Plain) {others : Fields} {doc : Json}
    (h : Defines docs others doc) : decodeDefinition (.ofJson doc) = .ok steps := by
  have hlist := decodeList_written hw hconfig
  unfold decodeDefinition
  rw [Node.check_of_holds (Node.holds_ofJson doc)]
  show definedSteps (.ofJson doc) = _
  unfold definedSteps
  cases h with
  | bare =>
    rw [Node.ofJson] at hlist ⊢
    simp only [hlist]
  | wrapped front back hothers =>
    have hfront : ∀ f ∈ front, f.1 ≠ "steps" := fun f hf =>
      hothers f (List.mem_append_left back hf)
    have hback : ∀ f ∈ back, f.1 ≠ "steps" := fun f hf =>
      hothers f (List.mem_append_right front hf)
    have hnil : wrappedSteps.Reads 1 steps [] steps := .nil (Nat.le_refl 1)
    have hend : wrappedSteps.Reads 1 steps back steps := by
      simpa using reads_others hback hnil
    have hdecode : wrappedSteps.decode
        (.ofJson (.object (front ++ ("steps", .array docs) :: back))) = .ok steps :=
      Record.decode_of_reads (reads_others hfront (.field rfl rfl hlist hend))
    rw [Node.ofJson] at hdecode ⊢
    simp only [hdecode]

theorem whole_defines {docs : List Json} {others : Fields} {doc : Json}
    (h : Defines docs others doc) (hsteps : ∀ v ∈ docs, v.Whole)
    (hothers : ∀ f ∈ others, f.2.Whole) : doc.Whole := by
  cases h with
  | bare => exact Json.whole_array hsteps
  | wrapped front back _ =>
    refine Json.whole_object ?_
    intro f hf
    rcases List.mem_append.mp hf with hf | hf
    · exact hothers f (List.mem_append_left back hf)
    · rcases List.mem_cons.mp hf with rfl | hf
      · exact Json.whole_array hsteps
      · exact hothers f (List.mem_append_right front hf)

/-! ## Files -/

/-- The file's name ends with the text. -/
def NamedWith (path ending : String) : Prop :=
  ∃ name, Path.fileName? path = some name ∧ ending.toList <:+ name.toList

/-- A name with an extension ends with a dot and the extension. -/
theorem namedWith_of_extension {path extension : String}
    (h : Path.extension? path = some extension) : NamedWith path ("." ++ extension) := by
  unfold Path.extension? at h
  split at h
  · cases h
  rename_i name hname
  dsimp only at h
  refine ⟨name, hname, ?_⟩
  generalize hback : name.toList.reverse = back at h
  have hsplit := @List.takeWhile_append_dropWhile _ (· ≠ '.') back
  have hdrop : back.drop (back.takeWhile (· ≠ '.')).length = back.dropWhile (· ≠ '.') :=
    calc back.drop (back.takeWhile (· ≠ '.')).length
        = (back.takeWhile (· ≠ '.') ++ back.dropWhile (· ≠ '.')).drop
            (back.takeWhile (· ≠ '.')).length := by rw [hsplit]
      _ = back.dropWhile (· ≠ '.') := List.drop_left
  rw [hdrop] at h
  cases hrest : back.dropWhile (· ≠ '.') with
  | nil =>
    rw [hrest] at h
    cases h
  | cons c rest =>
    have hdot : c = '.' := by
      have := List.head?_dropWhile_not (· ≠ '.') back
      rw [hrest] at this
      simpa using this
    rw [hrest] at h
    cases rest with
    | nil => cases h
    | cons d more =>
      cases h
      refine ⟨(d :: more).reverse, ?_⟩
      have hsides : name.toList =
          (back.takeWhile (· ≠ '.') ++ back.dropWhile (· ≠ '.')).reverse := by
        rw [hsplit, ← hback, List.reverse_reverse]
      rw [hsides, hrest, hdot]
      simp

/-- Only files whose names end so are read as YAML. -/
theorem isYaml_eq_false {path : String} (hyaml : ¬ NamedWith path ".yaml")
    (hyml : ¬ NamedWith path ".yml") : isYaml path = false := by
  unfold isYaml
  split
  · rename_i extension h
    have hnamed := namedWith_of_extension h
    simp only [Bool.or_eq_false_iff, decide_eq_false_iff_not]
    constructor
    · rintro rfl
      exact hyaml hnamed
    · rintro rfl
      exact hyml hnamed
  · rfl

theorem readFile_encode {fs : FileSystem} {path text : String}
    (h : fs.get path = .ok (.file (Utf8.encode text))) : Settings.readFile fs path = .ok text := by
  have hread : fs.readText path = .ok text := by
    simp only [FileSystem.readText, bind, Except.bind, h, Utf8.decode?_encode]
    rfl
  unfold Settings.readFile
  rw [hread]
  rfl

section
variable {fs : FileSystem} {path text : String} (hyaml : ¬ NamedWith path ".yaml")
  (hyml : ¬ NamedWith path ".yml") (hfile : fs.get path = .ok (.file (Utf8.encode text)))
  {steps : List Step} {docs : List Json} (hwritten : Written steps docs)
  (hconfig : ∀ step ∈ steps, (Json.object step.config).Plain) {others : Fields} {doc : Json}
  (hdoc : Defines docs others doc)
include hyaml hyml hfile hwritten hconfig hdoc

/-- The steps are loaded from any text that the definition is read from. -/
theorem loadSteps_defines (htext : doc.ReadFrom text) : loadSteps fs path = .ok steps := by
  have hread := htext.decodeText blind_definition (decodeDefinition_defines hwritten hconfig hdoc)
  unfold loadSteps readDefinition
  rw [readFile_encode hfile, isYaml_eq_false hyaml hyml]
  show ((Json.decodeText decodeDefinition text).mapError _).mapError _ = _
  rw [hread]
  rfl

/-- **Round trip.** A file whose name does not end as that of a YAML file, and whose text is that of
a definition of the steps, is loaded as these steps. -/
theorem definition_files_load :
    (doc.ReadFrom text → loadSteps fs path = .ok steps) ∧
    ((∀ f ∈ others, f.2.Whole) → doc.height < Json.depthLimit →
      text = doc.compact ∨ text = doc.pretty ∨ doc.LaidOut text → loadSteps fs path = .ok steps) := by
  have hload := loadSteps_defines hyaml hyml hfile hwritten hconfig hdoc
  refine ⟨hload, ?_⟩
  intro hothers hheight htext
  have hwhole : doc.Whole :=
    whole_defines hdoc (whole_written hwritten fun step hs => (hconfig step hs).1) hothers
  have hlaid : doc.LaidOut text := by
    rcases htext with rfl | rfl | htext
    · exact Json.laidOut_compact doc
    · exact Json.laidOut_pretty doc
    · exact htext
  exact hload (hlaid.readFrom hwhole hheight)

end

/-- Steps with and without an alias. -/
def notedStep : Step :=
  ⟨some "notes", "git-commit", [("path", .string "notes"), ("retries", .nat 2)]⟩

def namelessStep : Step := ⟨some "", "git-commit", []⟩

def bareStep : Step := ⟨none, "note", [("tags", .array [])]⟩

def flowDocs : List Json := [notedStep.written "as", namelessStep.toJson, bareStep.toJson]

def flowDocument : Json :=
  .object ([("version", .nat 1)] ++ ("steps", .array flowDocs) :: [("owner", .null)])

/-- A root directory with the file. -/
def flowFiles : FileSystem :=
  ⟨.directory [("flow.json", .file (Utf8.encode flowDocument.pretty))], []⟩

theorem get_flow : flowFiles.get "/flow.json" = .ok (.file (Utf8.encode flowDocument.pretty)) := by
  unfold FileSystem.get
  rw [FileSystem.resolve_absolute _ "/flow.json" ["flow.json"] (by decide)]
  simp [flowFiles, FileTree.walk, FileTree.at?, FileTree.child?, bind, Except.bind, pure,
    Except.pure]

theorem namedWith_flow {ending : String}
    (h : ¬ ending.toList <:+ "flow.json".toList) : ¬ NamedWith "/flow.json" ending := by
  have hname : Path.fileName? "/flow.json" = some "flow.json" := by decide
  rintro ⟨name, hfile, hends⟩
  rw [hname] at hfile
  cases hfile
  exact h hends

theorem definition_files_load_flow :
    loadSteps flowFiles "/flow.json" = .ok [notedStep, namelessStep, bareStep] := by
  have hwritten : Written [notedStep, namelessStep, bareStep] flowDocs :=
    .cons (Or.inr rfl) (.cons (Or.inl rfl) (.cons (Or.inl rfl) .nil))
  have hplain : ∀ step ∈ [notedStep, namelessStep, bareStep], (Json.object step.config).Plain := by
    simp only [List.forall_mem_cons]
    exact ⟨⟨⟨trivial, Json.whole_nat (by decide), trivial⟩, rfl⟩, ⟨trivial, rfl⟩,
      ⟨⟨trivial, trivial⟩, rfl⟩, nofun⟩
  have hdoc : Defines flowDocs [("version", .nat 1), ("owner", .null)] flowDocument :=
    .wrapped [("version", .nat 1)] [("owner", .null)] (by decide)
  refine (definition_files_load (namedWith_flow (by decide)) (namedWith_flow (by decide)) get_flow
    hwritten hplain hdoc).2 ?_ (by decide) (Or.inr (Or.inl rfl))
  simp only [List.forall_mem_cons]
  exact ⟨Json.whole_nat (by decide), trivial, nofun⟩

end StepPipeline

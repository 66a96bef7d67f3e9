import StepPipeline.Commit.Step
import StepPipeline.Proofs.Document.Records
import StepPipeline.Proofs.Json.Canonical
import StepPipeline.Proofs.Schema.Validity
import StepPipeline.Rehearsal.Stage

/-!
# The schema of the commit step and its configuration

The configuration of a commit step is described twice: by the schema that a step must meet before it
runs, and by the record that the step reads. Here the two are compared for every value.

**Data (`configData`).** The fields of a configuration in the order of their keys, from what they
hold. Reading and writing are described on these.

**Results.**
* `decode_configData`, `canonical_config`: what is read from such fields, and that it is written as
  them, but for an empty list of steps.
* `configData_of_valid`: a value without violations consists of such fields.
* `valid_config_decodes`: so a value without violations can be read, and nothing of it is lost.
-/
namespace StepPipeline

variable {ω : Type}

open Document (Node)

/-! ## Reading and writing data -/

/-- The fields of an identity, in order. -/
def Identity.data (identity : Identity) : Fields :=
  Json.optional "email" (identity.email.map .string)
    ++ Json.optional "name" (identity.name.map .string)

/-- The fields of a configuration, in order. -/
def configData (author : Option Identity) (message : Option String) (aliases : Option (List String))
    (path : String) : Fields :=
  Json.optional "author" (author.map fun identity => .object identity.data)
    ++ (Json.optional "message" (message.map .string)
    ++ (Json.optional "messageFromSteps" (aliases.map .strings) ++ [("path", .string path)]))

theorem decode_identity (identity : Identity) :
    Identity.decode (.ofJson (.object identity.data)) = .ok identity := by
  obtain ⟨name, email⟩ := identity
  cases name <;> cases email <;> rfl

section
variable {seen : List Nat} {c : CommitConfig} {rest : Fields}

open Document.Record (readEntries_of)

theorem read_path (path : String) (h : 0 ∉ seen) :
    CommitConfig.record.readEntries seen c (Node.ofFields (("path", .string path) :: rest)) =
      CommitConfig.record.readEntries (0 :: seen) { c with path } (Node.ofFields rest) :=
  @readEntries_of _ _ CommitConfig.record _ 0 _ _ _ _ _ _ rfl rfl h rfl c rest

theorem read_message (message : String) (h : 1 ∉ seen) :
    CommitConfig.record.readEntries seen c (Node.ofFields (("message", .string message) :: rest)) =
      CommitConfig.record.readEntries (1 :: seen) { c with message := some message }
        (Node.ofFields rest) :=
  @readEntries_of _ _ CommitConfig.record _ 1 _ _ _ _ _ _ rfl rfl h rfl c rest

theorem read_aliases (aliases : List String) (h : 2 ∉ seen) :
    CommitConfig.record.readEntries seen c
        (Node.ofFields (("messageFromSteps", .strings aliases) :: rest)) =
      CommitConfig.record.readEntries (2 :: seen) { c with messageFromSteps := aliases }
        (Node.ofFields rest) :=
  @readEntries_of _ _ CommitConfig.record _ 2 _ _ _ _ _ _ rfl rfl h (Document.list_text aliases) c
    rest

theorem read_author (author : Identity) (h : 3 ∉ seen) :
    CommitConfig.record.readEntries seen c
        (Node.ofFields (("author", .object author.data) :: rest)) =
      CommitConfig.record.readEntries (3 :: seen) { c with author := some author }
        (Node.ofFields rest) :=
  @readEntries_of _ _ CommitConfig.record _ 3 _ _ _ _ _ _ rfl rfl h
    (Document.optional_object (decode_identity author)) c rest

end

theorem decode_configData (author : Option Identity) (message : Option String)
    (aliases : Option (List String)) (path : String) :
    CommitConfig.decode (.ofJson (.object (configData author message aliases path))) =
      .ok ⟨path, message, aliases.getD [], author⟩ := by
  have hread : ∃ seen, CommitConfig.record.readEntries [] CommitConfig.record.start
      (Node.ofFields (configData author message aliases path)) =
        .ok (0 :: seen, ⟨path, message, aliases.getD [], author⟩) := by
    have hstart : CommitConfig.record.start = ⟨"", none, [], none⟩ := rfl
    cases author <;> cases message <;> cases aliases <;>
      simp [configData, Json.optional, hstart, read_author, read_message, read_aliases, read_path,
        Document.Record.readEntries_nil]
  obtain ⟨seen, hread⟩ := hread
  refine Document.Record.decode_object hread ?_
  simp [Document.Record.firstMissing, CommitConfig.record, Document.Field.of]

theorem canonical_identity (identity : Identity) :
    identity.toJson.canonical = .object identity.data := by
  obtain ⟨name, email⟩ := identity
  cases name <;> cases email <;> rfl

theorem canonical_config (path : String) (message : Option String) (aliases : List String)
    (author : Option Identity) :
    (CommitConfig.mk path message aliases author).toJson.canonical =
      .object (configData author message (if aliases = [] then none else some aliases) path) := by
  cases author <;> cases message <;> cases aliases <;>
    simp only [CommitConfig.toJson, Json.canonical, Json.optional, Json.unlessEmpty, Option.map,
      List.map_cons, List.map_nil, List.cons_append, List.nil_append, Json.canonicalFields,
      canonical_identity, Json.canonicalItems_strings, Json.canonicalItems] <;>
    rfl

/-! ## Valid configurations -/

/-- The rules of the commit schema for an author. -/
def identityRules : Schema := [
  .members [("email", [.email, .kinds [.string]]), ("name", [.kinds [.string]])] none,
  .kinds [.object]]

/-- The rules that the commit schema writes. -/
def commitRules : Schema := [
  .members [
    ("author", identityRules),
    ("message", [.minLength 1, .kinds [.string]]),
    ("messageFromSteps", [.items [.minLength 1, .kinds [.string]], .kinds [.array]]),
    ("path", [.minLength 1, .kinds [.string]])] none,
  .required ["path"],
  .kinds [.object]]

theorem builtInRegistry_eq [Filed ω] (load : Loader ω) :
    builtInRegistry load =
      .ok ⟨[⟨commitStepType, commitStep load, commitSchemaDocument, commitRules.validator⟩]⟩ :=
  rfl

open Schema (violations violations_eq_nil_iff valid_member text_member exists_optional
  string_of_valid array_of_valid object_of_valid)

theorem identity_of_valid {value : Json} {place : String}
    (h : violations place value.canonical identityRules = []) :
    ∃ identity : Identity, value.canonical = .object identity.data := by
  obtain ⟨fields, hd⟩ := object_of_valid h (by simp [identityRules])
  obtain ⟨hordered, -⟩ := Json.canonical_object hd
  rw [hd] at h ⊢
  have hmembers := violations_eq_nil_iff.mp h _ List.mem_cons_self
  obtain ⟨email, hemail⟩ := @text_member _ _ _ "email" _ hmembers rfl (by simp)
  obtain ⟨name, hname⟩ := @text_member _ _ _ "name" _ hmembers rfl (by simp)
  refine ⟨⟨name, email⟩, ?_⟩
  rw [Schema.picked_of_members hordered (by decide) hmembers]
  simp [Fields.picked, Identity.data, hemail, hname]

theorem texts_of_valid {value : Json} {place : String}
    (h : violations place value [.items [.minLength 1, .kinds [.string]], .kinds [.array]] = []) :
    ∃ texts, value = .strings texts := by
  obtain ⟨items, rfl⟩ := array_of_valid h (by simp)
  have hitems := Schema.items_iff.mp (violations_eq_nil_iff.mp h _ List.mem_cons_self)
  have htexts : ∀ item ∈ items, ∃ text, item = Json.string text := by
    intro item hitem
    obtain ⟨i, hi⟩ := List.mem_iff_getElem?.mp hitem
    exact string_of_valid (hitems i item hi) (by simp)
  clear hitems h
  induction items with
  | nil => exact ⟨[], rfl⟩
  | cons item rest ih =>
    obtain ⟨text, rfl⟩ := htexts item List.mem_cons_self
    obtain ⟨texts, htail⟩ := ih fun item hitem => htexts item (List.mem_cons_of_mem _ hitem)
    cases htail
    exact ⟨text :: texts, rfl⟩

theorem configData_of_valid {config : Json}
    (h : violations "" config.canonical commitRules = []) :
    ∃ author message aliases path,
      config.canonical = .object (configData author message aliases path) := by
  obtain ⟨fields, hd⟩ := object_of_valid h (by simp [commitRules])
  obtain ⟨hordered, hdata⟩ := Json.canonical_object hd
  rw [hd] at h ⊢
  have hmembers := violations_eq_nil_iff.mp h _ List.mem_cons_self
  have hrequired := violations_eq_nil_iff.mp h (.required ["path"]) (by simp [commitRules])
  obtain ⟨message, hmessage⟩ := @text_member _ _ _ "message" _ hmembers rfl (by simp)
  obtain ⟨path?, hpath?⟩ := @text_member _ _ _ "path" _ hmembers rfl (by simp)
  obtain ⟨author, hauthor⟩ : ∃ author : Option Identity,
      fields.get? "author" = author.map fun identity => .object identity.data := by
    refine exists_optional ?_
    intro v hv
    obtain ⟨inner, rfl⟩ := hdata _ (Fields.mem_of_get? hv)
    obtain ⟨place, hvalid⟩ := valid_member hmembers rfl hv
    exact identity_of_valid hvalid
  obtain ⟨aliases, haliases⟩ : ∃ aliases : Option (List String),
      fields.get? "messageFromSteps" = aliases.map .strings := by
    refine exists_optional ?_
    intro v hv
    obtain ⟨place, hvalid⟩ := valid_member hmembers rfl hv
    exact texts_of_valid hvalid
  obtain ⟨path, hpath⟩ : ∃ path, fields.get? "path" = some (.string path) := by
    obtain ⟨v, hv⟩ := Schema.required_iff.mp hrequired "path" List.mem_cons_self
    rw [hpath?] at hv ⊢
    cases path? with
    | none => cases hv
    | some path => exact ⟨path, rfl⟩
  refine ⟨author, message, aliases, path, ?_⟩
  rw [Schema.picked_of_members hordered (by decide) hmembers]
  simp [Fields.picked, configData, hauthor, hmessage, haliases, hpath, Json.optional]

/-! ## The schema and the configuration agree -/

/-- The value without a list of steps that is empty. -/
def Json.withoutEmptySteps : Json → Json
  | .object fields => .object (fields.filter fun field =>
      match field with
      | ("messageFromSteps", .array []) => false
      | _ => true)
  | value => value

theorem withoutEmptySteps_configData (author : Option Identity) (message : Option String)
    (aliases : Option (List String)) (path : String) :
    (Json.object (configData author message aliases path)).withoutEmptySteps =
      .object
        (configData author message (if aliases.getD [] = [] then none else aliases) path) := by
  rcases aliases with _ | _ | ⟨first, rest⟩ <;> cases author <;> cases message <;> rfl

/-- **What the commit schema lets through can be read, and nothing of it is lost.** For every value
in which the registered schema finds no violation, reading it as a configuration succeeds, and the
configuration is written as that value, but for an empty list of steps. -/
theorem valid_config_decodes [Filed ω] {load : Loader ω} {registry : Registry ω}
    {entry : Registration ω} (hr : builtInRegistry load = .ok registry)
    (he : registry.lookup commitStepType = .ok entry) (config : Json)
    (hv : entry.validate commitStepType config.canonical = .ok ()) :
    ∃ c, decodeConfig CommitConfig.decode commitStepType config.canonical = .ok c ∧
      c.toJson.canonical = config.canonical.withoutEmptySteps := by
  rw [builtInRegistry_eq] at hr
  cases hr
  cases he
  obtain ⟨author, message, aliases, path, hdata⟩ :=
    configData_of_valid (Schema.validate_ok_iff.mp hv)
  refine ⟨⟨path, message, aliases.getD [], author⟩, ?_, ?_⟩
  · rw [decodeConfig, hdata, decode_configData]
    rfl
  · rw [canonical_config, hdata, withoutEmptySteps_configData]
    cases aliases <;> rfl

/-- A configuration with an author, and with an empty list of steps. -/
def authoredConfig : Json :=
  .object [("path", .string "repo"), ("author", .object [("name", .string "Ann")]),
    ("messageFromSteps", .array [])]

theorem valid_config_decodes_authored :
    ∃ c, decodeConfig CommitConfig.decode commitStepType authoredConfig.canonical = .ok c ∧
      c.toJson.canonical = authoredConfig.canonical.withoutEmptySteps :=
  valid_config_decodes (builtInRegistry_eq Rehearsal.Stage.load) rfl authoredConfig rfl

end StepPipeline

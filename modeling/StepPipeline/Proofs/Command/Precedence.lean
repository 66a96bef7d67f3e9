import StepPipeline.Proofs.Command.Foresight
import StepPipeline.Proofs.Commit.Identities
import StepPipeline.Proofs.Document.Parts
import StepPipeline.Proofs.Files.Confinement

/-!
# Which identity a commit gets

The name and the address of a commit come from the configuration of its step, from the environment
and from a settings file. These are read at different times and in different places, each with its
own notion of what is missing. Here they are put together, from the text of the settings file to the
variables of the program that commits.

**Settings files (`Tells`).** What a file says of each half of the identity: the one that is named
explicitly, which is there and can be read, or the user's own, or nothing if that cannot be read.

**Launches (`SignedBy`).** What is asked of every program that a step starts.

**Results.**
* `inSettings_of_decode`: the identity in settings is what stands at two keys of the document.
* `load_tells`: a half of the default identity is the first there is of the environment and the file.
* `executeStep_signed`: a step starts git only, signs what it commits, and nothing else.
* `execute_signs`: so does every command, whatever git answers.
-/
namespace StepPipeline

open Document (Node Record Decoder bind_ok map_ok mapError_ok)
open StepPipeline.Action (Shadows)

/-! ## The settings document -/

/-- The key of the half in a settings document. -/
def Half.key : Half → String
  | name => "authorName"
  | email => "authorEmail"

/-- The text at the key of the half, in `git` in `defaults`. -/
def Half.inSettings (half : Half) (document : Node) : Option String :=
  (((Settings.record.part? "defaults" document).bind (Settings.defaultsRecord.part? "git")).bind
    (Settings.identityRecord.part? half.key)).bind fun node => node.text.toOption

namespace Settings

theorem slot_defaults : record.Slot 0 defaultsRecord.decode id :=
  .of rfl (fun _ _ => rfl) nofun

theorem slot_git : defaultsRecord.Slot 0 identityRecord.decode (·.identity) := by
  refine .of rfl (fun _ _ => rfl) fun f hf node set hset a => ?_
  obtain rfl := List.mem_singleton.mp hf
  obtain ⟨stem, -, rfl⟩ := map_ok hset
  rfl

theorem slot_half (half : Half) :
    ∃ i, (identityRecord.fields.findIdx? fun f => f.name = half.key) = some i ∧
      identityRecord.Slot i (Decoder.optional Node.text) half.of := by
  cases half with
  | name =>
    refine ⟨0, rfl, .of rfl (fun _ _ => rfl) fun f hf node set hset a => ?_⟩
    obtain rfl := List.mem_singleton.mp hf
    obtain ⟨email, -, rfl⟩ := map_ok hset
    rfl
  | email =>
    refine ⟨1, rfl, .of rfl (fun _ _ => rfl) fun f hf node set hset a => ?_⟩
    obtain rfl := List.mem_singleton.mp hf
    obtain ⟨name, -, rfl⟩ := map_ok hset
    rfl

theorem inSettings_of_decode {document : Node} {settings : Settings}
    (h : decode document = .ok settings) (half : Half) :
    half.of settings.identity = half.inSettings document := by
  have hdefaults :
      defaultsRecord.decode.Gives builtIn (record.part? "defaults" document) settings :=
    Record.gives_of_decode slot_defaults rfl h
  have hgit : identityRecord.decode.Gives builtIn.identity
      ((record.part? "defaults" document).bind (defaultsRecord.part? "git")) settings.identity :=
    hdefaults.part slot_git rfl
  obtain ⟨i, hi, hslot⟩ := slot_half half
  have hhalf := hgit.part hslot hi
  have hnone : half.of identityRecord.start = none := by cases half <;> rfl
  rw [hnone] at hhalf
  exact hhalf.text

/-! ## Settings files -/

/-- The document of a settings file that can be read and decoded. -/
def Holds (fs : FileSystem) (path : String) (document : Node) : Prop :=
  ∃ text settings, fs.readText path = .ok text ∧ document = (Json.readText text).1 ∧
    Json.decodeText decode text = .ok settings

/-- What settings files say of the halves of the identity: the file at a path, which must be there
and be valid, or for want of a path the user's own, which says nothing unless it is. -/
inductive Tells (fs : FileSystem) (home : Option String) :
    (path : Option String) → (file : Half → Option String) → Prop where
  | named {path : String} {document : Node} (h : Holds fs path document) :
    Tells fs home (some path) fun half => half.inSettings document
  | user {path : String} {document : Node} (hp : file home = .ok path)
    (h : Holds fs path document) : Tells fs home none fun half => half.inSettings document
  | nothing (h : ∀ path document, file home = .ok path → ¬ Holds fs path document) :
    Tells fs home none fun _ => none

variable {fs : FileSystem} {home : Option String}

theorem holds_of_read {path : String} {settings : Settings} (h : read fs path = .ok settings) :
    ∃ document, Holds fs path document ∧
      ∀ half : Half, half.of settings.identity = half.inSettings document := by
  obtain ⟨text, htext, h⟩ := bind_ok h
  have hdecode := mapError_ok h
  exact ⟨_, ⟨text, settings, mapError_ok htext, rfl, hdecode⟩,
    inSettings_of_decode (decode_readText hdecode)⟩

theorem read_of_holds {path : String} {document : Node} (h : Holds fs path document) :
    fs.isPresent path = true ∧ ∃ settings, read fs path = .ok settings := by
  obtain ⟨text, settings, htext, -, hdecode⟩ := h
  constructor
  · obtain ⟨tree, htree, -⟩ := bind_ok htext
    rw [FileSystem.isPresent, htree]
  · refine ⟨settings, ?_⟩
    rw [read, readFile, htext]
    show (Json.decodeText decode text).mapError _ = _
    rw [hdecode]
    rfl

/-- The settings of the user, as the user's file says or as they are built in. -/
theorem ofUser_tells (fs : FileSystem) (home : Option String) :
    ∃ file, Tells fs home none file ∧
      ∀ half : Half, half.of (ofUser fs home).identity = file half := by
  by_cases h : ∃ path document, file home = .ok path ∧ Holds fs path document
  · obtain ⟨path, document, hp, hd⟩ := h
    obtain ⟨hpresent, settings, hread⟩ := read_of_holds hd
    obtain ⟨document, hd, hhalf⟩ := holds_of_read hread
    refine ⟨_, .user hp hd, fun half => ?_⟩
    rw [ofUser, hp, ← hhalf half]
    simp only [hpresent, if_true, hread]
  · refine ⟨_, .nothing fun path document hp hd => h ⟨path, document, hp, hd⟩, fun half => ?_⟩
    have hbuiltIn : half.of builtIn.identity = none := by cases half <;> rfl
    unfold ofUser
    split
    · exact hbuiltIn
    · rename_i path hp
      split
      · split
        · rename_i settings hread
          obtain ⟨document, hd, -⟩ := holds_of_read hread
          exact absurd ⟨path, document, hp, hd⟩ h
        · exact hbuiltIn
      · exact hbuiltIn

theorem half_overriddenBy (settings : Settings) (lookup : String → Option String) (half : Half) :
    half.of (settings.overriddenBy lookup).identity =
      (nonempty (lookup half.override)).or (half.of settings.identity) := by
  cases half <;> rfl

/-- **Defaults.** A half of the default identity is the first there is of what the environment and
the settings file say. -/
theorem load_tells {path : Option String} {lookup : String → Option String} {settings : Settings}
    (h : load fs path home lookup = .ok settings) :
    ∃ file, Tells fs home path file ∧ ∀ half : Half,
      nonempty (half.of settings.identity) = firstNonempty [lookup half.override, file half] := by
  have hfound : ∃ (found : Settings) (file : Half → Option String),
      settings = found.overriddenBy lookup ∧ Tells fs home path file ∧
        ∀ half : Half, half.of found.identity = file half := by
    cases path with
    | none =>
      cases h
      obtain ⟨file, htells, hhalf⟩ := ofUser_tells fs home
      exact ⟨_, file, rfl, htells, hhalf⟩
    | some path =>
      obtain ⟨found, hread, h⟩ := bind_ok h
      cases h
      obtain ⟨document, hd, hhalf⟩ := holds_of_read hread
      exact ⟨found, _, rfl, .named hd, hhalf⟩
  obtain ⟨found, file, rfl, htells, hhalf⟩ := hfound
  refine ⟨file, htells, fun half => ?_⟩
  rw [half_overriddenBy, hhalf half, nonempty_or]

end Settings

/-! ## Steps -/

/-- Git is started. What it commits is signed by the sources of the step, and what else it does is
not signed at all. -/
structure SignedBy (environment file : Half → Option String) (step : Step) (launch : Launch) :
    Prop where
  program : launch.program = "git"
  commit : launch.args.head? = some "commit" → step.type = commitStepType ∧
    ∃ author message aliases path, step.config = configData author message aliases path ∧
      Identified (fun half => author.bind half.of) environment file launch.env
  other : launch.args.head? ≠ some "commit" → launch.env = []

namespace Command

variable {ω : Type} [Host ω] {settings : Settings} {environment file : Half → Option String}
  (hsources : ∀ half : Half,
    nonempty (half.of settings.identity) = firstNonempty [environment half, file half])
include hsources

theorem executeStep_signed {step : Step} (hsorted : step.Sorted) (workDir aliasName : String)
    (state : State) (w : ω) :
    Shadows (executeStep (builtIns settings) workDir step aliasName state)
      (executeStep (builtIns settings) workDir step aliasName state) w
      fun (added : List (Started ω)) _ _ => ∀ s ∈ added,
        SignedBy environment file step s.launch := by
  have hkept : Shadows (executeStep (builtIns settings) workDir step aliasName state)
      (executeStep (builtIns settings) workDir step aliasName state) w
      fun (added : List (Started ω)) outcome _ => Kept (driverCodes ++ Code.all)
        (fun s => SignedBy environment file step s.launch) (fun _ => True) added outcome := by
    have hl := @lookup_builtIns ω _ settings step.type
    have hl' := @lookup_builtIns (Noted ω (Started ω)) _ settings step.type
    by_cases ht : step.type = commitStepType
    · rw [if_pos ht] at hl hl'
      refine executeStep_kept hl hl' rfl (fun hv v => ?_) w
      obtain ⟨author, message, aliases, path, hconfig⟩ :=
        Repository.data_of_valid hsorted (Schema.validate_ok_iff.mp hv)
      have hd := Repository.decodeConfig_data step.type author message aliases path
      rw [← hconfig] at hd
      refine (Repository.commitStep_sets settings.identity hd v).mono fun added _ _ h => ?_
      refine .of_notes fun s hs => ?_
      obtain ⟨hprogram, henv⟩ := h s hs
      refine ⟨hprogram, fun hc => ⟨ht, author, message, aliases, path, hconfig, ?_⟩, fun hc => ?_⟩
      · rw [henv, if_pos hc]
        exact Repository.identified_identityEnv author hsources
      · rw [henv, if_neg hc]
    · rw [if_neg ht] at hl hl'
      exact executeStep_kept_missing hl hl' w
  exact hkept.mono fun _ _ _ hk => hk.notes

/-! ## Runs -/

/-- The programs of a run are signed by the sources of the steps that start them. -/
theorem run_signed {steps : List Step} (hsorted : ∀ step ∈ steps, step.Sorted) (ctx : RunContext)
    (w : ω) :
    Shadows (run steps (builtIns settings) ctx) (run steps (builtIns settings) ctx) w
      fun (added : List (Started ω)) _ _ =>
        Parted (fun step s => SignedBy environment file step s.launch) steps added := by
  intro before
  unfold run
  cases ha : resolveAliases steps ctx.aliasStem with
  | error f => exact ⟨[], .ended, by rw [List.append_nil]⟩
  | ok aliases =>
    have happart : NotedApart (builtIns settings : Registry ω) (builtIns settings) ctx.workDir
        (steps.zip aliases) (fun pair (s : Started ω) => SignedBy environment file pair.1 s.launch)
        fun _ => True := by
      intro pair hpair state v _
      refine (executeStep_signed hsources (hsorted _ (List.of_mem_zip hpair).1) _ _ _ v).mono ?_
      intro added outcome _ h
      exact ⟨h, trivial⟩
    obtain ⟨added, hparted, he⟩ := runSteps_parted happart .empty w trivial before
    have hfirst : (steps.zip aliases).map Prod.fst = steps := by
      rw [List.map_fst_zip]
      exact Nat.le_of_eq (length_of_resolveAliases ha).symm
    refine ⟨added, ?_, by simp only [he]⟩
    rw [← hfirst]
    exact hparted.map fun _ _ _ h => h

omit hsources

/-! ## Commands -/

/-- The programs that a command starts: those of the steps of a run, signed by what their
configurations, the environment and the settings file say; none for a run that is refused, and none
for any other command. -/
inductive Starts (s : Surroundings) (fs : FileSystem) : Invocation → List (Started ω) → Prop where
  | nothing {config : Option String} {request : Request}
    (h : ∀ path workDir stem, request ≠ .run path workDir stem) : Starts s fs ⟨config, request⟩ []
  | refused {invocation : Invocation} {f : Failure} (h : Refused s fs invocation f) :
    Starts s fs invocation []
  | run {config : Option String} {path workDir : String} {stem : Option String} {steps : List Step}
    {file : Half → Option String} {notes : List (Started ω)}
    (htells : Settings.Tells fs s.home (config.map s.expand) file)
    (hl : loadSteps fs (s.expand path) = .ok steps)
    (h : Parted (fun step started =>
      SignedBy (fun half => s.lookup half.override) file step started.launch) steps notes) :
    Starts s fs ⟨config, .run path workDir stem⟩ notes

theorem execute_ready {s : Surroundings} {config : Option String} {path workDir : String}
    {stem : Option String} {steps : List Step} {w : ω}
    (hs : configured s (Filed.files w) config = .ok settings)
    (hl : loadSteps (Filed.files w) (s.expand path) = .ok steps)
    (hd : (Filed.files w).isDirectory (s.expand workDir) = true) :
    execute s ⟨config, .run path workDir stem⟩ w =
      (do
        let report ← run steps (builtIns settings) ⟨s.expand workDir, stem.getD settings.aliasStem⟩
        return (.report report, if report.succeeded then 0 else 1) : Action ω Outcome) w := by
  rw [execute_run, prepared_ok hs hl, Action.andThen_ok (checkDirectory_ok hd)]

/-- A command that runs nothing does the same in a world with notes, and leaves none. -/
theorem execute_idle {s : Surroundings} {config : Option String} {request : Request} {w : ω}
    (hidle : ∀ path workDir stem, request ≠ .run path workDir stem) (before : List (Started ω)) :
    execute s ⟨config, request⟩ (⟨w, before⟩ : Noted ω (Started ω)) =
      ((execute s ⟨config, request⟩ w).1, ⟨(execute s ⟨config, request⟩ w).2, before⟩) := by
  have hcourse := execute_course s ⟨config, request⟩ w
  rcases he : execute s ⟨config, request⟩ w with ⟨outcome, after⟩
  rw [he] at hcourse
  cases hcourse with
  | refused h => exact execute_of_refused h
  | ran => exact absurd rfl (hidle _ _ _)
  | @planned _ settings steps path stem p hs hl h =>
    have hplan := @plan_builtIns (Noted ω (Started ω)) ω _ _ settings steps
      (stem.getD settings.aliasStem)
    have hready := @prepared_ok (Noted ω (Started ω)) _ s config ⟨after, before⟩ path
    rw [execute_validate, hready hs hl, hplan, h]
    rfl
  | @listed _ type settings hs h =>
    have hsteps := @execute_steps (Noted ω (Started ω)) _ s config ⟨after, before⟩ type settings hs
    rw [hsteps, listTypes_known settings h]
  | codes => rfl
  | code h =>
    show Action.ofExcept _ _ = _
    rw [explain, h]
    rfl

theorem execute_shadows (s : Surroundings) (invocation : Invocation) (w : ω) :
    Shadows (execute s invocation) (execute s invocation) w
      fun (added : List (Started ω)) _ _ => Starts s (Filed.files w) invocation added := by
  obtain ⟨config, request⟩ := invocation
  intro before
  cases request with
  | run path workDir stem =>
    rcases @refused_or_ready s (Filed.files w) config (.run path workDir stem) _ _ rfl with
      ⟨f, h⟩ | ⟨settings, steps, aliases, hs, hl, -, hd⟩
    · have hnoted := @execute_of_refused (Noted ω (Started ω)) _ s ⟨w, before⟩ _ f h
      exact ⟨[], .refused h, by rw [hnoted, execute_of_refused h, List.append_nil]⟩
    obtain ⟨file, htells, hsources⟩ := Settings.load_tells hs
    have hready := @execute_ready (Noted ω (Started ω)) _ settings s config path workDir stem steps
      ⟨w, before⟩ hs hl (hd _ _ _ rfl)
    rw [hready, execute_ready hs hl (hd _ _ _ rfl)]
    have hrun := run_signed hsources (sorted_of_loadSteps hl)
      ⟨s.expand workDir, stem.getD settings.aliasStem⟩ w
    refine Shadows.bind (U := fun added _ _ => Starts s (Filed.files w) _ added) hrun ?_ ?_ before
    · intro _ added _ h
      exact .run htells hl h
    · intro report added _ h
      refine .pure ?_
      rw [List.append_nil]
      exact .run htells hl h
  | validate | steps | errors =>
    exact ⟨[], .nothing (by rintro _ _ _ ⟨⟩),
      by rw [execute_idle (by rintro _ _ _ ⟨⟩), List.append_nil]⟩

/-- **Precedence.** For every host, command line and surroundings: noting the programs that a
command starts changes nothing, and of these each is git, only those of a run are there, and what a
step commits is signed half by half by the first there is of its configuration, the environment and
the settings file, for the committer without the configuration. -/
theorem execute_signs (s : Surroundings) (invocation : Invocation) (w : ω) :
    ∃ notes outcome after,
      execute s invocation (⟨w, []⟩ : Noted ω (Started ω)) = (outcome, ⟨after, notes⟩) ∧
        execute s invocation w = (outcome, after) ∧
        Starts s (Filed.files w) invocation notes := by
  obtain ⟨notes, hstarts, he⟩ := execute_shadows s invocation w []
  exact ⟨notes, _, _, he, rfl, hstarts⟩

/-! ## A commit that is signed -/

/-- A root directory with the file of a pipeline, under version control by a git that gives the next
of its replies, whatever it is asked. -/
structure Studio where
  desk : Desk
  replies : List String

instance : Host Studio where
  cancelled _ := false
  files w := w.desk.files
  start _ w :=
    match w.replies with
    | [] => (.refused "no reply", w)
    | reply :: rest => (.finished ⟨.exited 0, Utf8.encode reply, []⟩, ⟨w.desk, rest⟩)

/-- The program is started in a studio, and replies. -/
def Desk.replied (desk : Desk) (launch : Launch) (reply : String) (rest : List String) :
    Started Studio :=
  ⟨launch, ⟨desk, reply :: rest⟩, .finished ⟨.exited 0, Utf8.encode reply, []⟩, ⟨desk, rest⟩⟩

/-- What git replies in the course of a commit. -/
def studioReplies : List String := ["true\n", "/\n", "", " M a\n", "", "c0ffee\n"]

/-- The programs of a commit, with these replies. -/
def Desk.committed (desk : Desk) (message : String) (env : List (String × String)) :
    List (Started Studio) :=
  [desk.replied (Repository.insideCheck "/") "true\n" (studioReplies.drop 1),
    desk.replied (Repository.topCheck "/") "/\n" (studioReplies.drop 2),
    desk.replied ⟨"/", "git", ["add", "--all", "."], []⟩ "" (studioReplies.drop 3),
    desk.replied ⟨"/", "git", ["status", "--porcelain=v1", "--", "."], []⟩ " M a\n"
      (studioReplies.drop 4),
    desk.replied ⟨"/", "git", ["commit", "--no-verify", "-m", message, "--", "."], env⟩ ""
      (studioReplies.drop 5),
    desk.replied ⟨"/", "git", ["rev-parse", "HEAD"], []⟩ "c0ffee\n" []]

/-- The step opens the root directory, finds it dirty, and commits. -/
theorem commitStep_studio {ctx : StepContext} {config : CommitConfig} {identity : Identity}
    {message : String} (desk : Desk) (hw : ctx.workDir = "/")
    (hd : decodeConfig CommitConfig.decode ctx.type ctx.config = .ok config)
    (hp : config.path = ".") (hm : commitMessage ctx.state config = .ok message) :
    commitStep (Repository.load identity) ctx
        (⟨⟨desk, studioReplies⟩, []⟩ : Noted Studio (Started Studio)) =
      (.ok (.succeeded (some (commitOutput "c0ffee"))),
        ⟨⟨desk, []⟩, desk.committed message (Repository.identityEnv identity config.author)⟩) := by
  let notes := desk.committed message (Repository.identityEnv identity config.author)
  let stage (n : Nat) : Noted Studio (Started Studio) :=
    ⟨⟨desk, studioReplies.drop n⟩, notes.take n⟩
  have hanswers : Repository.Answers "/" "/" (stage 0) (stage 1) (stage 2) :=
    ⟨rfl, ⟨_, rfl, rfl, Repository.outputText_line "true" []⟩, rfl, ⟨[], rfl⟩⟩
  have hload := Repository.load_at_root identity hanswers (by decide)
    (FileSystem.isDirectory_of_resolve desk.resolve_root rfl)
    (FileSystem.canonicalize_ofNames rfl desk.resolve_root rfl)
  have hadd : (Repository.tree identity "/").addAll (stage 2) = (.ok (), stage 3) := rfl
  have hdiffs : (Repository.tree identity "/").hasDiffs (stage 3) = (.ok true, stage 4) := rfl
  have hcommit : (Repository.tree identity "/").commit message
      (config.author.filter fun author => !author.isEmpty) (stage 4) = (.ok (), stage 5) := by
    simp only [Repository.tree, Repository.identityEnv_filter]
    rfl
  have hid : (Repository.tree identity "/").lastCommitId (stage 5) = (.ok "c0ffee", stage 6) :=
    Prod.ext (congrArg Except.ok (Repository.outputText_line "c0ffee" [])) rfl
  rw [← hw] at hload
  exact commitStep_of_dirty hd (by rw [hp]; exact Sandbox.join_here _ _) hload (hw ▸ hadd)
    (hw ▸ hdiffs) hm (hw ▸ hcommit) (hw ▸ hid)

/-- The configuration gives no more than an address. -/
def signedStep : Step :=
  ⟨none, "git-commit", [("author", .object [("email", .string "ada@example.com")]),
    ("path", .string ".")]⟩

/-- The environment gives a name, and there is no settings file. -/
def signedAround : Surroundings :=
  ⟨none, fun name => if name = Settings.nameVariable then some "Ada" else none⟩

def signedDesk : Desk := ⟨[signedStep]⟩

/-- The programs of the run of a pipeline with such a step. -/
def signedNotes : List (Started Studio) :=
  signedDesk.committed fallbackMessage [("GIT_AUTHOR_NAME", "Ada"),
    ("GIT_AUTHOR_EMAIL", "ada@example.com"), ("GIT_COMMITTER_NAME", "Ada")]

def signedSettings : Settings := ⟨⟨some "Ada", none⟩, defaultAliasStem⟩

theorem run_signedDesk : ∃ r,
    run [signedStep] (builtIns signedSettings) ⟨"/", "step"⟩
      (⟨⟨signedDesk, studioReplies⟩, []⟩ : Noted Studio (Started Studio)) =
        (.ok r, ⟨⟨signedDesk, []⟩, signedNotes⟩) := by
  let w : Noted Studio (Started Studio) := ⟨⟨signedDesk, studioReplies⟩, []⟩
  have hstep : commitStep (Repository.load signedSettings.identity)
      (contextOf "/" signedStep "step-0" .empty) w =
        (.ok (.succeeded (some (commitOutput "c0ffee"))), ⟨⟨signedDesk, []⟩, signedNotes⟩) :=
    @commitStep_studio _ ⟨".", none, [], some ⟨none, some "ada@example.com"⟩⟩ _ _ signedDesk rfl rfl
      rfl rfl
  have hl : (builtIns signedSettings : Registry (Noted Studio (Started Studio))).lookup
      signedStep.type = .ok ⟨commitStepType,
        commitStep (Repository.load signedSettings.identity), commitSchemaDocument,
        commitRules.validator⟩ := rfl
  have hexec : executeStep (builtIns signedSettings) "/" signedStep "step-0" .empty
      (Cancellable.passes w) =
        (.ok (.succeeded (some (commitOutput "c0ffee"))), ⟨⟨signedDesk, []⟩, signedNotes⟩) :=
    executeStep_of_done rfl hl rfl hstep rfl
  have haliases : resolveAliases [signedStep] "step" = .ok ["step-0"] := rfl
  unfold run
  rw [haliases]
  simp only [List.zip_cons_cons, List.zip_nil_right, runSteps]
  rw [hexec]
  exact ⟨_, rfl⟩

theorem execute_signedDesk : ∃ outcome,
    execute signedAround ⟨none, .run "/flow.json" "/" none⟩
      (⟨⟨signedDesk, studioReplies⟩, []⟩ : Noted Studio (Started Studio)) =
        (outcome, ⟨⟨signedDesk, []⟩, signedNotes⟩) := by
  have hplain : ∀ step ∈ signedDesk.steps, (Json.object step.config).Plain :=
    List.forall_mem_singleton.mpr ⟨⟨⟨trivial, trivial⟩, trivial, trivial⟩, rfl⟩
  obtain ⟨r, hrun⟩ := run_signedDesk
  have hready := @execute_ready (Noted Studio (Started Studio)) _ signedSettings signedAround none
    "/flow.json" "/" none [signedStep] ⟨⟨signedDesk, studioReplies⟩, []⟩ rfl
    (Desk.loadSteps_flow hplain (by decide)) signedDesk.isDirectory_root
  rw [hready]
  exact ⟨_, Action.andThen_ok hrun⟩

/-- Of the two halves of the author each comes from where it is given; of the committer there is only
the name. -/
theorem execute_signs_studio :
    ∃ notes outcome after,
      execute signedAround ⟨none, .run "/flow.json" "/" none⟩
        (⟨⟨signedDesk, studioReplies⟩, []⟩ : Noted Studio (Started Studio)) =
          (outcome, ⟨after, notes⟩) ∧
      Starts signedAround (Filed.files (⟨signedDesk, studioReplies⟩ : Studio))
        ⟨none, .run "/flow.json" "/" none⟩ notes ∧
      ∃ s ∈ notes, s.launch.args.head? = some "commit" ∧
        s.launch.env = [("GIT_AUTHOR_NAME", "Ada"), ("GIT_AUTHOR_EMAIL", "ada@example.com"),
          ("GIT_COMMITTER_NAME", "Ada")] := by
  obtain ⟨notes, outcome, after, hnoted, -, hstarts⟩ := execute_signs signedAround
    ⟨none, .run "/flow.json" "/" none⟩ (⟨signedDesk, studioReplies⟩ : Studio)
  obtain ⟨outcome', hrun⟩ := execute_signedDesk
  refine ⟨notes, outcome, after, hnoted, hstarts, ?_⟩
  rw [hrun] at hnoted
  cases hnoted
  exact ⟨_, @List.mem_of_getElem? _ _ 4 _ rfl, rfl, rfl⟩

end Command
end StepPipeline

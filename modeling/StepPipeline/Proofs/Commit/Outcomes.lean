import StepPipeline.Proofs.Commit.Configuration
import StepPipeline.Proofs.Commit.Ownership
import StepPipeline.Proofs.Commit.Protocol
import StepPipeline.Proofs.Files.Confinement
import StepPipeline.Proofs.Pipeline.Contracts
import StepPipeline.Proofs.Pipeline.Definitions

/-!
# What can come of a run of built-in steps

The only built-in step puts out the id of a commit and nothing else. So whatever a run of such steps
has done so far, there is no description in its shared state that a commit message could be made of,
and no output of the wrong shape that could be stumbled over.

**Commits only (`IsCommit`).** An output with a commit id in it, and nothing else.

**Results.**
* `text_of_commits`, `commitMessage_of_commits`: what can be read from a state of such outputs.
* `commitStep_kept`: the contract of the commit step.
* `built_in_bound`: so every run over the built-in registry is bound by it.
* `built_in_outcomes`: hence a closed set of failures, and of commit messages.
-/
namespace StepPipeline

open Cancellable
open StepPipeline.Action (Shadows)

variable {ω : Type}

/-! ## A state of commits -/

/-- An output of the commit step. -/
def IsCommit (output : Json) : Prop := ∃ id, output = .object [("commit", .string id)]

section
variable {state : State} (hs : state.All IsCommit)
include hs

theorem text_of_commits (aliasName : String) : state.text aliasName messageField = .ok none := by
  have hfields : state.outputFields aliasName = .ok none ∨
      ∃ id, state.outputFields aliasName = .ok (some [("commit", .string id)]) := by
    unfold State.outputFields
    cases hget : state.get? aliasName with
    | none => exact Or.inl rfl
    | some output =>
      obtain ⟨id, hid⟩ := hs (aliasName, output) (Fields.mem_of_get? hget)
      simp only at hid
      subst hid
      exact Or.inr ⟨id, rfl⟩
  unfold State.text State.field
  rcases hfields with h | ⟨id, h⟩
  · rw [h]
    rfl
  · rw [h]
    rfl

theorem descriptions_of_commits (aliases : List String) : descriptions state aliases = .ok [] := by
  induction aliases with
  | nil => rfl
  | cons aliasName rest ih =>
    unfold descriptions
    rw [text_of_commits hs, ih]
    rfl

theorem commitMessage_of_commits (config : CommitConfig) :
    commitMessage state config = .ok ((nonempty config.message).getD fallbackMessage) := by
  unfold commitMessage
  cases nonempty config.message with
  | some message => rfl
  | none =>
    rw [descriptions_of_commits hs]
    rfl

end

namespace Repository

/-! ## Git -/

/-- The codes of the failures that the commit step can end with. -/
def commitCodes : List Code := [.runCancelled, .pathEscape, .gitCommandFailed, .ioError]

section
variable [Host ω] {path operation : String} {args : List String} {env : List (String × String)}
  {N : Started ω → Prop} {w : ω}

theorem runCommand_code {launch : Launch} {f : Failure} {after : ω}
    (h : runCommand launch operation w = (.error f, after)) : f.code ∈ commitCodes := by
  have hcancelled : Code.runCancelled ∈ commitCodes := by decide
  have hio : Code.ioError ∈ commitCodes := by decide
  cases hc : cancelled (passes w) with
  | true =>
    rw [runCommand_of_cancelled hc] at h
    cases h
    exact hcancelled
  | false =>
    rcases hs : Host.start launch (passes (passes w)) with ⟨attempt, after'⟩
    rw [runCommand_of_start hc hs] at h
    cases attempt with
    | finished output => cases h
    | refused error | lost error => cases h; exact hio
    | interrupted => cases h; exact hcancelled

theorem git_code {f : Failure} (h : (git path operation args env w).1 = .error f) :
    f.code ∈ commitCodes := by
  have hgit : Code.gitCommandFailed ∈ commitCodes := by decide
  unfold git at h
  rcases hr : runCommand ⟨path, "git", args, env⟩ operation w with ⟨result, after⟩
  cases result with
  | error g =>
    rw [Action.andThen_error hr] at h
    cases h
    exact runCommand_code hr
  | ok output =>
    rw [Action.andThen_ok hr] at h
    split at h
    · cases h
    · cases h
      exact hgit

/-- Git is started with the given arguments only. -/
theorem git_kept (hN : ∀ s : Started ω, s.launch.args = args → N s) :
    Shadows (git path operation args env) (git path operation args env) w
      fun added result _ => Kept commitCodes N (fun _ => True) added result := by
  intro before
  obtain ⟨added, ⟨htried, -⟩, he⟩ := @git_tried _ _ path operation args env w before
  refine ⟨added, ⟨fun s hs => ?_, fun f hf => git_code hf, fun _ _ => trivial⟩, he⟩
  have hl : s.launch = ⟨path, "git", args, env⟩ :=
    List.mem_singleton.mp (htried.launches.subset (List.mem_map_of_mem hs))
  exact hN s (by rw [hl])

/-- Whatever git is asked to commit is committed with the message. -/
def Commits (message : String) (s : Started ω) : Prop :=
  "commit" ∈ s.launch.args →
    s.launch.args = ["commit", "--no-verify", "-m", message, "--", "."]

variable {message : String}

omit [Host ω] in
theorem commits_of_reading (h : "commit" ∉ args) (s : Started ω) (hs : s.launch.args = args) :
    Commits message s :=
  fun hin => absurd (hs ▸ hin) h

theorem inspect_kept (root path : String) (w : ω) :
    Shadows (inspect root path) (inspect root path) w fun (added : List (Started ω)) result _ =>
      Kept commitCodes (Commits message) (fun _ => True) added result := by
  have hgit : Code.gitCommandFailed ∈ commitCodes := by decide
  have hescape : Code.pathEscape ∈ commitCodes := by decide
  have hio : Code.ioError ∈ commitCodes := by decide
  have hcanonical : ∀ (fs : FileSystem) (path : String) (f : Failure),
      ((fs.canonicalize path).mapError fun e =>
        .of (.io e.message (some ("resolve " ++ path)))) = .error f → f.code ∈ commitCodes := by
    intro fs path f h
    cases hc : fs.canonicalize path with
    | error e => rw [hc] at h; cases h; exact hio
    | ok names => rw [hc] at h; cases h
  unfold inspect
  refine .look_bind nofun fun isDirectory _ => ?_
  refine .require_bind (fun _ => .error hgit) fun _ => ?_
  refine Kept.bind (git_kept (commits_of_reading (by decide))) fun inside w₁ _ => ?_
  refine .require_bind (fun _ => .error hgit) fun _ => ?_
  refine Kept.bind (git_kept (commits_of_reading (by decide))) fun top w₂ _ => ?_
  refine .look_bind (fun f hf => .error (hcanonical _ _ f hf)) fun place _ => ?_
  refine .look_bind (fun f hf => .error (hcanonical _ _ f hf)) fun base _ => ?_
  exact .require (fun _ => .error hescape) fun _ => .ok trivial

/-! ## The commit step -/

/-- Git, whatever it answers, and what is read from its answer. -/
theorem git_kept_read {α : Type} {read : Output → α}
    (hN : ∀ s : Started ω, s.launch.args = args → N s) :
    Shadows (git path operation args env >>= fun output => pure (read output))
      (git path operation args env >>= fun output => pure (read output)) w
      fun added result _ => Kept commitCodes N (fun _ => True) added result :=
  Kept.bind (git_kept hN) fun _ _ _ => .pure (.ok trivial)

theorem puts_commit (id : String) :
    (StepResult.succeeded (some (commitOutput id))).Puts IsCommit := by
  refine ⟨rfl, ?_⟩
  rintro _ ⟨⟩
  exact ⟨id, rfl⟩

theorem commitChanges_kept (identity : Identity) (path : String) {ctx : StepContext}
    {config : CommitConfig} (hm : commitMessage ctx.state config = .ok message) (w : ω) :
    Shadows (commitChanges (tree identity path) ctx config)
      (commitChanges (tree identity path) ctx config) w
      fun (added : List (Started ω)) result _ =>
        Kept commitCodes (Commits message) (StepResult.Puts IsCommit) added result := by
  have hlast : ∀ w₁ : ω, Shadows
      ((tree identity path).lastCommitId >>= fun id =>
        pure (StepResult.succeeded (some (commitOutput id))))
      ((tree identity path).lastCommitId >>= fun id =>
        pure (StepResult.succeeded (some (commitOutput id)))) w₁
      fun (added : List (Started ω)) result _ =>
        Kept commitCodes (Commits message) (StepResult.Puts IsCommit) added result :=
    fun w₁ => Kept.bind (git_kept_read (commits_of_reading (by decide))) fun id _ _ =>
      .pure (.ok (puts_commit id))
  unfold commitChanges
  refine Kept.bind (git_kept_read (commits_of_reading (by decide))) fun _ w₁ _ => ?_
  refine Kept.bind (git_kept_read (commits_of_reading (by decide))) fun dirty w₂ _ => ?_
  cases dirty with
  | false => exact hlast w₂
  | true =>
    rw [Action.within_ofExcept, Action.within_ofExcept, hm]
    refine .ofExcept_bind nofun ?_
    rintro _ ⟨⟩
    refine Kept.bind (git_kept_read fun s hs _ => hs) fun _ w₃ _ => ?_
    exact hlast w₃

/-- **The contract of the commit step.** With a configuration that can be read and a message to be
had, it fails for the run, for its path, for git or for the system only; it commits with the
message, and puts out the id of a commit. -/
theorem commitStep_kept (identity : Identity) {ctx : StepContext} {config : CommitConfig}
    (hd : decodeConfig CommitConfig.decode ctx.type ctx.config = .ok config)
    (hm : commitMessage ctx.state config = .ok message) (w : ω) :
    Shadows (commitStep (load identity) ctx) (commitStep (load identity) ctx) w
      fun (added : List (Started ω)) result _ =>
        Kept commitCodes (Commits message) (StepResult.Puts IsCommit) added result := by
  have hescape : Code.pathEscape ∈ commitCodes := by decide
  unfold commitStep
  rw [hd]
  refine .ofExcept_bind nofun ?_
  rintro _ ⟨⟩
  refine .look_bind ?_ fun path _ => ?_
  · intro f hf
    unfold Sandbox.join at hf
    split at hf
    · cases hf
    · cases hf
      exact .error hescape
  simp only [load, Action.within_return_bind]
  refine Kept.bind (Kept.within (inspect_kept ctx.workDir path w)) fun _ after _ => ?_
  exact commitChanges_kept identity path hm after

/-! ## Runs of built-in steps -/

/-- A configuration that the schema lets through consists of data. -/
theorem data_of_valid {step : Step} (hs : step.Sorted)
    (h : Schema.violations "" (.object step.config) commitRules = []) :
    ∃ author message aliases path, step.config = configData author message aliases path := by
  obtain ⟨value, hvalue⟩ := hs
  rw [← hvalue] at h
  obtain ⟨author, message, aliases, path, hdata⟩ := configData_of_valid h
  exact ⟨author, message, aliases, path, Json.object.inj (hvalue.symm.trans hdata)⟩

theorem decodeConfig_data (stepType : String) (author : Option Identity) (message : Option String)
    (aliases : Option (List String)) (path : String) :
    decodeConfig CommitConfig.decode stepType (.object (configData author message aliases path)) =
      .ok ⟨path, message, aliases.getD [], author⟩ := by
  rw [decodeConfig, decode_configData]
  rfl

/-- So it can be read. -/
theorem decodes_of_valid {step : Step} (hs : step.Sorted)
    (h : Schema.violations "" (.object step.config) commitRules = []) :
    ∃ config, ∀ stepType,
      decodeConfig CommitConfig.decode stepType (.object step.config) = .ok config := by
  obtain ⟨author, message, aliases, path, hdata⟩ := data_of_valid hs h
  rw [hdata]
  exact ⟨_, fun stepType => decodeConfig_data stepType author message aliases path⟩

/-- Git is asked to commit with a configured message, or with the one for want of any. -/
def CommitsFor (steps : List Step) (s : Started ω) : Prop :=
  "commit" ∈ s.launch.args → ∃ step ∈ steps, ∃ config,
    decodeConfig CommitConfig.decode step.type (.object step.config) = .ok config ∧
      s.launch.args = ["commit", "--no-verify", "-m",
        (nonempty config.message).getD fallbackMessage, "--", "."]

theorem lookup_builtIn {load : Loader ω} {registry : Registry ω}
    (h : builtInRegistry load = .ok registry) (stepType : String) :
    registry.lookup stepType = if stepType = commitStepType then
        .ok ⟨commitStepType, commitStep load, commitSchemaDocument, commitRules.validator⟩
      else .error (.of (.stepNotFound stepType [commitStepType])) := by
  rw [builtInRegistry_eq] at h
  cases h
  by_cases ht : stepType = commitStepType
  · rw [if_pos ht, ht]
    rfl
  · have ht' : ¬ commitStepType = stepType := fun e => ht e.symm
    simp [Registry.lookup, Registry.get?, Registry.stepTypes, ht, ht']

theorem built_in_bound {identity : Identity} {registry : Registry ω}
    {registry' : Registry (Noted ω (Started ω))}
    (hr : builtInRegistry (load identity) = .ok registry)
    (hr' : builtInRegistry (load identity) = .ok registry') (workDir : String) {steps : List Step}
    (hs : ∀ step ∈ steps, step.Sorted) (aliases : List String) :
    Bound registry registry' workDir (steps.zip aliases) (driverCodes ++ commitCodes)
      (CommitsFor steps) IsCommit := by
  rintro ⟨step, aliasName⟩ hpair state w hstate
  have hstep : step ∈ steps := (List.of_mem_zip hpair).1
  by_cases ht : step.type = commitStepType
  · have hl := lookup_builtIn hr step.type
    have hl' := lookup_builtIn hr' step.type
    rw [if_pos ht] at hl hl'
    refine executeStep_kept hl hl' rfl (fun hv v => ?_) w
    obtain ⟨config, hd⟩ := decodes_of_valid (hs step hstep) (Schema.validate_ok_iff.mp hv)
    have hm := commitMessage_of_commits hstate config
    refine (commitStep_kept identity (hd _) hm v).mono fun added result _ hk => ?_
    refine hk.mono (fun _ => id) (fun s hc hin => ?_) (fun _ => id)
    exact ⟨step, hstep, config, hd _, hc hin⟩
  · have hl := lookup_builtIn hr step.type
    have hl' := lookup_builtIn hr' step.type
    rw [if_neg ht] at hl hl'
    exact executeStep_kept_missing hl hl' w

section
variable {identity : Identity} {registry : Registry ω} {steps : List Step}
  (hregistry : builtInRegistry (load identity) = .ok registry)
  (hsorted : ∀ step ∈ steps, step.Sorted)
include hregistry hsorted

theorem executions_bound (ctx : RunContext) (w : ω) :
    ∀ a ∈ executions steps registry ctx w, a.Bound (driverCodes ++ commitCodes) IsCommit := by
  obtain ⟨registry', hregistry'⟩ : ∃ registry' : Registry (Noted ω (Started ω)),
      builtInRegistry (load identity) = .ok registry' := ⟨_, builtInRegistry_eq _⟩
  unfold executions
  cases resolveAliases steps ctx.aliasStem with
  | error f => exact nofun
  | ok aliases =>
    exact history_bound (built_in_bound hregistry hregistry' ctx.workDir hsorted aliases) all_empty

/-- A result of such a run has put out a commit or nothing, or tells of the failure of its step. -/
theorem result_cases {ctx : RunContext} {w : ω} {r : RunReport}
    (hr : (run steps registry ctx w).1 = .ok r) {s : StepReport} (hs : s ∈ r.steps) :
    (s.status = .succeeded ∧ ∀ v ∈ s.output, IsCommit v) ∨
      ∃ a ∈ executions steps registry ctx w, ∃ f, a.outcome = .error f ∧
        s = .errored a.aliasName a.step.type f := by
  obtain ⟨-, -, -, rfl⟩ := run_ok hr
  obtain ⟨a, ha, rfl⟩ := List.mem_map.mp hs
  have hbound := executions_bound hregistry hsorted ctx w a ha
  rcases a.conclusion (executions_fresh steps registry ctx w a ha) with
    ⟨output, hout, hreport, -⟩ | ⟨f, hout | ⟨output, hout, -⟩, hreport, -⟩
  · rw [hreport]
    exact Or.inl ⟨rfl, (hbound.result _ hout).2⟩
  · exact Or.inr ⟨a, ha, f, hout, hreport⟩
  · cases (hbound.result _ hout).1

end

/-- The codes of the failures that a run of built-in steps can end with. -/
def builtInCodes : List Code :=
  [.runCancelled, .stepNotFound, .configSchemaViolation, .pathEscape, .gitCommandFailed, .ioError]

/-- **Built-in steps.** Over the registry of built-in step types, whatever git answers and whenever
the run is cancelled: there are only commits in the shared state that a step finds, so that no
message is made of it; the run returns no other state, and its failures have one of six codes.
Noting the programs changes nothing, and git commits with a configured message or the one for want
of any. -/
theorem built_in_outcomes {identity : Identity} {registry : Registry ω}
    (hregistry : builtInRegistry (load identity) = .ok registry) {steps : List Step}
    (hsorted : ∀ step ∈ steps, step.Sorted) {ctx : RunContext} {w : ω} {r : RunReport}
    (hr : (run steps registry ctx w).1 = .ok r) :
    (∀ a ∈ executions steps registry ctx w, a.state.All IsCommit ∧
        (∀ aliases, descriptions a.state aliases = .ok []) ∧
        ∀ config, commitMessage a.state config =
          .ok ((nonempty config.message).getD fallbackMessage)) ∧
      r.state.All IsCommit ∧
      (∀ s ∈ r.steps, s.status = .errored → ∃ code ∈ builtInCodes, s.errorCode = some code.name) ∧
      ∃ (registry' : Registry (Noted ω (Started ω))) (notes : List (Started ω)),
        builtInRegistry (load identity) = .ok registry' ∧
          run steps registry' ctx ⟨w, []⟩ =
            (.ok r, ⟨(run steps registry ctx w).2, notes⟩) ∧
          ∀ s ∈ notes, CommitsFor steps s := by
  obtain ⟨aliases, ha, hh, he⟩ := run_ok hr
  obtain ⟨registry', hregistry'⟩ : ∃ registry' : Registry (Noted ω (Started ω)),
      builtInRegistry (load identity) = .ok registry' := ⟨_, builtInRegistry_eq _⟩
  have hbound := built_in_bound hregistry hregistry' ctx.workDir hsorted aliases
  have hall := executions_bound hregistry hsorted ctx w
  have hcodes : driverCodes ++ commitCodes ⊆ builtInCodes := by decide
  refine ⟨fun a hm => ?_, ?_, fun s hm hs => ?_, registry', ?_⟩
  · have hstate := (hall a hm).found
    exact ⟨hstate, descriptions_of_commits hstate, commitMessage_of_commits hstate⟩
  · rw [he]
    show (lastState .empty (executions steps registry ctx w)).All IsCommit
    unfold lastState
    cases hlast : (executions steps registry ctx w).getLast? with
    | none => exact all_empty
    | some a => exact (hall a (List.mem_of_getLast? hlast)).left
  · rcases result_cases hregistry hsorted hr hm with ⟨hok, -⟩ | ⟨a, ha, f, hout, rfl⟩
    · rw [hok] at hs
      cases hs
    · exact ⟨f.code, hcodes ((hall a ha).failure f hout), rfl⟩
  · obtain ⟨notes, hnotes, hrun⟩ := runSteps_bound hbound w all_empty []
    refine ⟨notes, hregistry', ?_, hnotes⟩
    rw [← hr]
    unfold run
    rw [ha]
    simp only [hrun, List.nil_append]

end

/-! ## A run with a commit message that nothing describes -/

/-- A directory under version control, by a git that gives the next of its replies, whatever it is
asked. -/
structure Bench where
  replies : List String

def Bench.tree : FileSystem := ⟨.directory [("w", .directory [])], []⟩

instance : Host Bench where
  cancelled _ := false
  files _ := Bench.tree
  start _ w :=
    match w.replies with
    | [] => (.refused "no reply", w)
    | reply :: rest => (.finished ⟨.exited 0, Utf8.encode reply, []⟩, ⟨rest⟩)

/-- What git replies in the course of a commit. -/
def commitReplies : List String := ["true\n", "/w\n", "", " M a\n", "", "c0ffee\n"]

theorem commitStep_bench {ctx : StepContext} {config : CommitConfig} {message : String}
    (rest : List String) (hw : ctx.workDir = "/w")
    (hd : decodeConfig CommitConfig.decode ctx.type ctx.config = .ok config)
    (hp : config.path = ".") (hm : commitMessage ctx.state config = .ok message) :
    commitStep (load .none) ctx (⟨commitReplies ++ rest⟩ : Bench) =
      (.ok (.succeeded (some (commitOutput "c0ffee"))), ⟨rest⟩) := by
  have hroot : Bench.tree.resolve "/w" = .ok ["w"] := by
    rw [FileSystem.resolve_absolute _ "/w" ["w"] (by decide)]
    simp [Bench.tree, FileTree.walk, FileTree.at?]
  have hanswers : Answers "/w" "/w" (⟨commitReplies ++ rest⟩ : Bench)
      ⟨commitReplies.drop 1 ++ rest⟩ ⟨commitReplies.drop 2 ++ rest⟩ :=
    ⟨rfl, ⟨_, rfl, rfl, outputText_line "true" []⟩, rfl, ⟨[], rfl⟩⟩
  have hload := load_at_root .none hanswers (by decide)
    (FileSystem.isDirectory_of_resolve hroot rfl) (FileSystem.canonicalize_ofNames rfl hroot rfl)
  have hid : (tree .none "/w").lastCommitId (⟨"c0ffee\n" :: rest⟩ : Bench) =
      (.ok "c0ffee", ⟨rest⟩) := Prod.ext (congrArg Except.ok (outputText_line "c0ffee" [])) rfl
  rw [← hw] at hload
  exact commitStep_of_dirty hd (by rw [hp]; exact Sandbox.join_here _ _) hload rfl rfl hm rfl hid

def benchRegistry : Registry Bench :=
  ⟨[⟨commitStepType, commitStep (load .none), commitSchemaDocument, commitRules.validator⟩]⟩

/-- The second step wants to be described by the first one. -/
def benchDefinition : Json :=
  .array [
    .object [("type", .string "git-commit"), ("as", .string "first"),
      ("config", .object [("path", .string ".")])],
    .object [("type", .string "git-commit"),
      ("config", .object [("path", .string "."), ("messageFromSteps", .strings ["first"])])],
    .object [("type", .string "ghost")]]

def benchSteps : List Step :=
  [⟨some "first", "git-commit", [("path", .string ".")]⟩,
    ⟨none, "git-commit", [("messageFromSteps", .strings ["first"]), ("path", .string ".")]⟩,
    ⟨none, "ghost", []⟩]

theorem executeStep_bench {step : Step} {config : CommitConfig} {message : String} {state : State}
    (aliasName : String) (rest : List String) (ht : step.type = commitStepType)
    (hv : Schema.validate commitRules.validator commitStepType (.object step.config) = .ok ())
    (hd : decodeConfig CommitConfig.decode commitStepType (.object step.config) = .ok config)
    (hp : config.path = ".") (hm : commitMessage state config = .ok message) :
    executeStep benchRegistry "/w" step aliasName state ⟨commitReplies ++ rest⟩ =
      (.ok (.succeeded (some (commitOutput "c0ffee"))), ⟨rest⟩) := by
  have hl : benchRegistry.lookup step.type = .ok ⟨commitStepType, commitStep (load .none),
      commitSchemaDocument, commitRules.validator⟩ := by rw [ht]; rfl
  rw [← ht] at hv hd
  exact executeStep_of_done rfl hl hv
    (@commitStep_bench (contextOf "/w" step aliasName state) _ _ rest rfl hd hp hm) rfl

theorem run_bench :
    ∃ r, (run benchSteps benchRegistry ⟨"/w", "step"⟩ ⟨commitReplies ++ commitReplies⟩).1 = .ok r ∧
      r.steps.map (·.errorCode) = [none, none, some "step.not_found"] ∧
      r.state.entries = [("first", commitOutput "c0ffee"), ("step-1", commitOutput "c0ffee")] := by
  have haliases : resolveAliases benchSteps "step" = .ok ["first", "step-1", "step-2"] := by rfl
  have hone : State.empty.merge "first" (commitOutput "c0ffee") =
      .ok ⟨[("first", commitOutput "c0ffee")], by simp⟩ := rfl
  have htwo : State.merge ⟨[("first", commitOutput "c0ffee")], by simp⟩ "step-1"
      (commitOutput "c0ffee") =
        .ok ⟨[("first", commitOutput "c0ffee"), ("step-1", commitOutput "c0ffee")], by simp⟩ := rfl
  have hfirst := @executeStep_bench ⟨some "first", "git-commit", [("path", .string ".")]⟩
    ⟨".", none, [], none⟩ _ .empty "first" commitReplies rfl rfl rfl rfl rfl
  have hsecond := @executeStep_bench
    ⟨none, "git-commit", [("messageFromSteps", .strings ["first"]), ("path", .string ".")]⟩
    ⟨".", none, ["first"], none⟩ _ ⟨[("first", commitOutput "c0ffee")], by simp⟩ "step-1" [] rfl rfl
    rfl rfl rfl
  rw [List.append_nil] at hsecond
  have hconclude {aliasName : String} {state next : State}
      (h : state.merge aliasName (commitOutput "c0ffee") = .ok next) :
      concludeStep state aliasName "git-commit" (.ok (.succeeded (some (commitOutput "c0ffee")))) =
        (.succeeded aliasName "git-commit" (some (commitOutput "c0ffee")), next) := by
    simp [concludeStep, absorb, StepResult.succeeded, h]
  have hpass (w : Bench) : passes w = w := rfl
  refine ⟨_, by unfold run; rw [haliases], ?_⟩
  simp only [benchSteps, List.zip_cons_cons, runSteps, hpass, hfirst, hconclude hone, hsecond,
    hconclude htwo]
  exact ⟨rfl, rfl⟩

/-- The second commit has the message for want of any, although the first step is there to describe
it. -/
theorem built_in_outcomes_bench :
    ∃ r, (run benchSteps benchRegistry ⟨"/w", "step"⟩ ⟨commitReplies ++ commitReplies⟩).1 = .ok r ∧
      r.steps.map (·.errorCode) = [none, none, some "step.not_found"] ∧
      r.state.entries = [("first", commitOutput "c0ffee"), ("step-1", commitOutput "c0ffee")] ∧
      r.state.All IsCommit ∧
      ∃ (registry' : Registry (Noted Bench (Started Bench))) (after : Bench)
        (notes : List (Started Bench)), builtInRegistry (load .none) = .ok registry' ∧
          run benchSteps registry' ⟨"/w", "step"⟩ ⟨⟨commitReplies ++ commitReplies⟩, []⟩ =
            (.ok r, ⟨after, notes⟩) ∧
          ∀ s ∈ notes, CommitsFor benchSteps s := by
  obtain ⟨r, hr, hcodes, hentries⟩ := run_bench
  have hsorted : ∀ step ∈ benchSteps, step.Sorted :=
    @sorted_of_definition (.ofJson benchDefinition) _ rfl
  obtain ⟨-, hstate, -, registry', notes, hregistry', hnoted, hnotes⟩ :=
    built_in_outcomes (builtInRegistry_eq _) hsorted hr
  exact ⟨r, hr, hcodes, hentries, hstate, registry', _, notes, hregistry', hnoted, hnotes⟩

end Repository
end StepPipeline

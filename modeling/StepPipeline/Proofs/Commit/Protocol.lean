import StepPipeline.Commit.Step
import StepPipeline.Proofs.Pipeline.Notes

/-!
# The protocol of the commit step

What the commit step asks of a loader and of the tree that it opens, whatever these do: each call
may fail, and the tree may be found dirty or clean. The calls are noted by a loader that does the
same as a given one (`Loader.noted`).

**Scripts (`changesScript`).** The calls on an open tree and their answers, if none fails. Which
ones they are depends on whether the tree is dirty, and on the message.

**Breaking off (`BreaksOff`).** The calls of a script are made in order, up to the first that fails.

**Results.**
* `commitChanges_settles`: on an open tree a script is carried out or broken off, and what the step
  returns follows from how far that went.
* `commitStep_course`: so for the whole step; and taking notes changes nothing.
-/
namespace StepPipeline

variable {ω α : Type}

/-! ## Noting calls -/

/-- What a call that succeeds answers. -/
inductive Answer where
  | done
  | diffs (found : Bool)
  | id (text : String)

/-- A call, and how it ended. -/
structure TreeNote where
  event : Event
  answer : Except Failure Answer

/-- The action, noted as a call. -/
def Action.noted (event : Event) (answer : α → Answer) (action : Action ω α) :
    Action (Noted ω TreeNote) α := fun s =>
  let (result, w) := action s.world
  (result, ⟨w, s.notes ++ [⟨event, result.map answer⟩]⟩)

/-- The tree, with its calls noted. -/
def WorkTree.noted (tree : WorkTree ω) : WorkTree (Noted ω TreeNote) where
  path := tree.path
  addAll := tree.addAll.noted .addAll fun _ => .done
  hasDiffs := tree.hasDiffs.noted .hasDiffs .diffs
  commit message author :=
    (tree.commit message author).noted (.commit message author) fun _ => .done
  lastCommitId := tree.lastCommitId.noted .lastCommitId .id

/-- The loader, with its calls noted and those of the trees that it opens. -/
def Loader.noted (load : Loader ω) : Loader (Noted ω TreeNote) := fun root path s =>
  let (result, w) := load root path s.world
  (result.map WorkTree.noted, ⟨w, s.notes ++ [⟨.load root path, result.map fun _ => .done⟩]⟩)

namespace Action.Shadows

variable {event : Event} {answer : α → Answer} {action : Action ω α} {w : ω}

theorem noted :
    Shadows action (action.noted event answer) w fun added result _ =>
      added = [⟨event, result.map answer⟩] :=
  fun _ => ⟨_, rfl, rfl⟩

/-- A call that fails ends a sequence; one that does not is followed by the next. -/
theorem call {next : α → Action ω β} {nextNoting : α → Action (Noted ω TreeNote) β}
    {U : List TreeNote → Except Failure β → ω → Prop}
    (hf : ∀ f after, U [⟨event, .error f⟩] (.error f) after)
    (hn : ∀ a after, Shadows (next a) (nextNoting a) after fun more =>
      U (⟨event, .ok (answer a)⟩ :: more)) :
    Shadows (action >>= next) (action.noted event answer >>= nextNoting) w U := by
  refine noted.bind ?_ ?_
  · intro f added after hadded
    rw [show added = [⟨event, .error f⟩] from hadded]
    exact hf f after
  · intro a added after hadded
    rw [show added = [⟨event, .ok (answer a)⟩] from hadded]
    exact hn a after

end Action.Shadows

/-! ## Scripts -/

/-- The author of a commit: the configured one, unless its name and its address are both absent or
empty. -/
def authorOf (config : CommitConfig) : Option Identity :=
  config.author.bind fun author =>
    if author.name.getD "" = "" ∧ author.email.getD "" = "" then none else some author

theorem isNone_nonempty (text : Option String) :
    (nonempty text).isNone = decide (text.getD "" = "") := by
  cases text with
  | none => rfl
  | some t => by_cases h : t = "" <;> simp [nonempty, h]

theorem filter_author (config : CommitConfig) :
    (config.author.filter fun author => !author.isEmpty) = authorOf config := by
  unfold authorOf
  cases config.author with
  | none => rfl
  | some author =>
    rw [Option.filter_some, Identity.isEmpty, isNone_nonempty, isNone_nonempty]
    by_cases h : author.name.getD "" = "" ∧ author.email.getD "" = ""
    · simp [h]
    · simp [h]

/-- The calls on an open tree and their answers, if none fails. A dirty tree is committed, if there
is a message for it. -/
def changesScript (state : State) (config : CommitConfig) (dirty : Bool) (id : String) :
    List TreeNote :=
  [⟨.addAll, .ok .done⟩, ⟨.hasDiffs, .ok (.diffs dirty)⟩] ++
    if dirty then
      match commitMessage state config with
      | .ok message =>
        [⟨.commit message (authorOf config), .ok .done⟩, ⟨.lastCommitId, .ok (.id id)⟩]
      | .error _ => []
    else [⟨.lastCommitId, .ok (.id id)⟩]

/-- The calls of a script are made up to one that fails. -/
def BreaksOff (script notes : List TreeNote) (f : Failure) : Prop :=
  ∃ front note rest, script = front ++ note :: rest ∧ notes = front ++ [⟨note.event, .error f⟩]

/-- What can be asked of an open tree, and what the step returns then. -/
inductive Settles (state : State) (config : CommitConfig) :
    List TreeNote → Except Failure StepResult → Prop where
  /-- A call failed. -/
  | failed {dirty : Bool} {id : String} {notes : List TreeNote} {f : Failure}
    (h : BreaksOff (changesScript state config dirty id) notes f) :
    Settles state config notes (.error f)
  /-- The tree is dirty and there is no message: nothing more is asked of it. -/
  | unwritten {f : Failure} (h : commitMessage state config = .error f) :
    Settles state config [⟨.addAll, .ok .done⟩, ⟨.hasDiffs, .ok (.diffs true)⟩]
      (.error (f.within "build commit message"))
  /-- No call failed. -/
  | done {dirty : Bool} {id : String}
    (h : dirty = true → ∃ message, commitMessage state config = .ok message) :
    Settles state config (changesScript state config dirty id)
      (.ok ⟨.succeeded, some (.object [("commit", .string id)])⟩)

/-- What the commit step can ask of a loader and its tree, and what it returns then. -/
inductive Course (fs : FileSystem) (ctx : StepContext) :
    List TreeNote → Except Failure StepResult → Prop where
  /-- The configuration cannot be read. -/
  | undecoded {f : Failure}
    (hd : decodeConfig CommitConfig.decode ctx.type ctx.config = .error f) :
    Course fs ctx [] (.error f)
  /-- The path leads out of the working directory. -/
  | escaping {config : CommitConfig} {f : Failure}
    (hd : decodeConfig CommitConfig.decode ctx.type ctx.config = .ok config)
    (hj : Sandbox.join fs ctx.workDir config.path = .error f) :
    Course fs ctx [] (.error f)
  /-- The tree cannot be opened. -/
  | unopened {config : CommitConfig} {path : String} {f : Failure}
    (hd : decodeConfig CommitConfig.decode ctx.type ctx.config = .ok config)
    (hj : Sandbox.join fs ctx.workDir config.path = .ok path) :
    Course fs ctx [⟨.load ctx.workDir path, .error f⟩]
      (.error (f.within ("load working tree '" ++ config.path ++ "'")))
  | opened {config : CommitConfig} {path : String} {notes : List TreeNote}
    {outcome : Except Failure StepResult}
    (hd : decodeConfig CommitConfig.decode ctx.type ctx.config = .ok config)
    (hj : Sandbox.join fs ctx.workDir config.path = .ok path)
    (hs : Settles ctx.state config notes outcome) :
    Course fs ctx (⟨.load ctx.workDir path, .ok .done⟩ :: notes) outcome

/-! ## On an open tree -/

section
variable {state : State} {config : CommitConfig}

theorem changesScript_clean (id : String) :
    changesScript state config false id =
      [⟨.addAll, .ok .done⟩, ⟨.hasDiffs, .ok (.diffs false)⟩, ⟨.lastCommitId, .ok (.id id)⟩] :=
  rfl

theorem changesScript_dirty {message : String} (hm : commitMessage state config = .ok message)
    (id : String) :
    changesScript state config true id =
      [⟨.addAll, .ok .done⟩, ⟨.hasDiffs, .ok (.diffs true)⟩,
        ⟨.commit message (authorOf config), .ok .done⟩, ⟨.lastCommitId, .ok (.id id)⟩] := by
  simp [changesScript, hm]

/-- When a call fails, what would have been asked after it does not matter. -/
theorem Settles.of_broken {dirty : Bool} {id : String} {note : TreeNote}
    (front rest : List TreeNote) (f : Failure)
    (h : changesScript state config dirty id = front ++ note :: rest) :
    Settles state config (front ++ [⟨note.event, .error f⟩]) (.error f) :=
  .failed ⟨front, note, rest, h, rfl⟩

end

open StepPipeline.Action (Shadows)

theorem commitChanges_settles (tree : WorkTree ω) (ctx : StepContext) (config : CommitConfig)
    (w : ω) :
    Shadows (commitChanges tree ctx config) (commitChanges tree.noted ctx config) w
      fun notes outcome _ => Settles ctx.state config notes outcome := by
  unfold commitChanges
  refine Shadows.call ?_ ?_
  · intro f _
    exact .of_broken [] _ f (changesScript_clean "")
  intro _ w₁
  refine Shadows.call ?_ ?_
  · intro f _
    exact .of_broken [_] _ f (changesScript_clean "")
  intro dirty w₂
  cases dirty with
  | false =>
    refine Shadows.call ?_ ?_
    · intro f _
      exact .of_broken [_, _] _ f (changesScript_clean "")
    · intro id w₃
      have hdone : Settles ctx.state config (changesScript ctx.state config false id) _ :=
        .done nofun
      exact .pure hdone
  | true =>
    rw [Action.within_ofExcept, Action.within_ofExcept]
    cases hm : commitMessage ctx.state config with
    | error f =>
      refine Shadows.ofExcept_bind ?_ nofun
      rintro g ⟨⟩
      exact .unwritten hm
    | ok message =>
      refine Shadows.ofExcept_bind nofun ?_
      rintro m ⟨⟩
      rw [filter_author]
      refine Shadows.call ?_ ?_
      · intro f _
        exact .of_broken [_, _] _ f (changesScript_dirty hm "")
      intro _ w₄
      refine Shadows.call ?_ ?_
      · intro f _
        exact .of_broken [_, _, _] _ f (changesScript_dirty hm "")
      · intro id w₅
        have hdone : Settles ctx.state config (changesScript ctx.state config true id) _ :=
          .done fun _ => ⟨message, hm⟩
        rw [changesScript_dirty hm] at hdone
        exact .pure hdone

/-! ## The whole step -/

/-- A tree that is opened is noted, like its opening. -/
theorem opening (load : Loader ω) (root path : String) {operation : String} {w : ω}
    {next : WorkTree ω → Action ω α} {nextNoting : WorkTree (Noted ω TreeNote) → Action _ α}
    {U : List TreeNote → Except Failure α → ω → Prop}
    (hf : ∀ f after, U [⟨.load root path, .error f⟩] (.error (f.within operation)) after)
    (hn : ∀ tree after, Shadows (next tree) (nextNoting tree.noted) after fun more =>
      U (⟨.load root path, .ok .done⟩ :: more)) :
    Shadows ((load root path).within operation >>= next)
      ((load.noted root path).within operation >>= nextNoting) w U := by
  intro before
  rcases h : load root path w with ⟨result, after⟩
  cases result with
  | error f =>
    have hp : (load root path).within operation w = (.error (f.within operation), after) := by
      simp only [Action.within, h]
      rfl
    have hq : (load.noted root path).within operation ⟨w, before⟩ =
        (.error (f.within operation), ⟨after, before ++ [⟨.load root path, .error f⟩]⟩) := by
      simp only [Action.within, Loader.noted, h]
      rfl
    rw [Action.andThen_error hp, Action.andThen_error hq]
    exact ⟨_, hf f after, rfl⟩
  | ok tree =>
    have hp : (load root path).within operation w = (.ok tree, after) := by
      simp only [Action.within, h]
      rfl
    have hq : (load.noted root path).within operation ⟨w, before⟩ =
        (.ok tree.noted, ⟨after, before ++ [⟨.load root path, .ok .done⟩]⟩) := by
      simp only [Action.within, Loader.noted, h]
      rfl
    rw [Action.andThen_ok hp, Action.andThen_ok hq]
    obtain ⟨more, hu, he⟩ := hn tree after (before ++ [⟨.load root path, .ok .done⟩])
    exact ⟨_, hu, by rw [he, List.append_assoc]; rfl⟩

theorem commitStep_shadows [Filed ω] (load : Loader ω) (ctx : StepContext) (w : ω) :
    Shadows (commitStep load ctx) (commitStep load.noted ctx) w
      fun notes outcome _ => Course (Filed.files w) ctx notes outcome := by
  unfold commitStep
  refine Shadows.ofExcept_bind ?_ ?_
  · intro f hd
    exact .undecoded hd
  intro config hd
  refine Shadows.look_bind ?_ ?_
  · intro f hj
    exact .escaping hd hj
  intro path hj
  refine opening load ctx.workDir path ?_ ?_
  · intro f _
    exact .unopened hd hj
  · intro tree w'
    refine (commitChanges_settles tree ctx config w').mono ?_
    intro notes outcome _ hs
    exact .opened hd hj hs

/-- A step that is not hindered, on a tree that is found dirty. -/
theorem commitStep_of_dirty [Filed ω] {load : Loader ω} {tree : WorkTree ω} {ctx : StepContext}
    {config : CommitConfig} {path message id : String} {w w₁ w₂ w₃ w₄ w₅ : ω}
    (hd : decodeConfig CommitConfig.decode ctx.type ctx.config = .ok config)
    (hj : Sandbox.join (Filed.files w) ctx.workDir config.path = .ok path)
    (hopen : load ctx.workDir path w = (.ok tree, w₁)) (hadd : tree.addAll w₁ = (.ok (), w₂))
    (hdiffs : tree.hasDiffs w₂ = (.ok true, w₃))
    (hm : commitMessage ctx.state config = .ok message)
    (hcommit : tree.commit message (config.author.filter fun author => !author.isEmpty) w₃ =
      (.ok (), w₄))
    (hlast : tree.lastCommitId w₄ = (.ok id, w₅)) :
    commitStep load ctx w = (.ok (.succeeded (some (commitOutput id))), w₅) := by
  have hconfig : Action.ofExcept (decodeConfig CommitConfig.decode ctx.type ctx.config) w =
      (.ok config, w) := by rw [hd]; rfl
  have hpath : Action.look (fun w => Sandbox.join (Filed.files w) ctx.workDir config.path) w =
      (.ok path, w) := Prod.ext hj rfl
  have hmessage : Action.ofExcept (commitMessage ctx.state config) w₃ = (.ok message, w₃) := by
    rw [hm]; rfl
  unfold commitStep
  rw [Action.andThen_ok hconfig, Action.andThen_ok hpath,
    Action.andThen_ok (Action.within_ok hopen)]
  unfold commitChanges
  rw [Action.andThen_ok hadd, Action.andThen_ok hdiffs, if_pos rfl,
    Action.andThen_ok (Action.within_ok hmessage), Action.andThen_ok hcommit]
  exact Action.andThen_ok hlast

/-- **The protocol of the commit step.** For every loader, step and world: noting what the step asks
of the loader and of its tree changes neither what the step returns nor what it does, and what is
noted is one of the courses that the step can take. -/
theorem commitStep_course [Filed ω] (load : Loader ω) (ctx : StepContext) (w : ω) :
    ∃ notes outcome after,
      commitStep load.noted ctx ⟨w, []⟩ = (outcome, ⟨after, notes⟩) ∧
      commitStep load ctx w = (outcome, after) ∧
      Course (Filed.files w) ctx notes outcome := by
  obtain ⟨notes, hcourse, he⟩ := commitStep_shadows load ctx w []
  exact ⟨notes, _, _, he, rfl, hcourse⟩

end StepPipeline

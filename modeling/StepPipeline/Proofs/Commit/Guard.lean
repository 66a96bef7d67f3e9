import StepPipeline.Commit.Repository
import StepPipeline.Commit.Step
import StepPipeline.Proofs.Pipeline.Notes

/-!
# What is checked before git writes

The commit step over git starts programs, and nothing tells what these will answer: each may fail to
start, be killed, or write anything, and the files may change while it runs. The programs that are
started are noted by a host that does the same as a given one.

**Checks (`Repository.Passed`).** Git has answered that the directory is in a working tree and where
that starts, and this is under the root once both are resolved, compared name by name.

**Results.**
* `inspect_passes`: a tree that may be opened has passed the checks, and one that may not has
  started nothing else.
* `commitChanges_launches`: on an open tree, every program is git, in the directory of the tree.
* `commitStep_guarded`: so nothing is written by git before the checks have passed, and if they do
  not pass, the step fails having started no more than them.
-/
namespace StepPipeline

variable {ω α : Type}

/-! ## Noting programs -/

/-- A program that was started, in what world, how that ended, and the world that it left. -/
structure Started (ω : Type) where
  launch : Launch
  start : ω
  attempt : Attempt
  after : ω

instance [Host ω] : Host (Noted ω (Started ω)) where
  start launch s :=
    let (attempt, w) := Host.start launch s.world
    (attempt, ⟨w, s.notes ++ [⟨launch, s.world, attempt, w⟩]⟩)

/-- What starting one program can come to: it was not started, or it gave no output, or it did. -/
inductive Tried (launch : Launch) : List (Started ω) → Except Failure Output → ω → Prop where
  | unstarted (f : Failure) (w : ω) : Tried launch [] (.error f) w
  | failed (start : ω) (attempt : Attempt) (f : Failure) (w : ω) :
    Tried launch [⟨launch, start, attempt, w⟩] (.error f) w
  | finished (start : ω) (output : Output) (w : ω) :
    Tried launch [⟨launch, start, .finished output, w⟩] (.ok output) w

theorem Tried.launches {launch : Launch} {notes : List (Started ω)} {result : Except Failure Output}
    {w : ω} (h : Tried launch notes result w) : notes.map (·.launch) <+: [launch] := by
  cases h with
  | unstarted => exact List.nil_prefix
  | failed => exact List.prefix_rfl
  | finished => exact List.prefix_rfl

open Cancellable
open StepPipeline.Action (Shadows)

section
variable [Host ω]

theorem runCommand_tried (launch : Launch) (operation : String) (w : ω) :
    Shadows (runCommand launch operation) (runCommand launch operation) w (Tried launch) := by
  intro before
  let s : Noted ω (Started ω) := ⟨w, before⟩
  cases hc : cancelled (passes w) with
  | true =>
    have hn : cancelled (passes s) = true := hc
    rw [runCommand_of_cancelled hc, runCommand_of_cancelled hn]
    exact ⟨[], .unstarted _ _, by rw [List.append_nil]; rfl⟩
  | false =>
    have hn : cancelled (passes s) = false := hc
    rcases hs : Host.start launch (passes (passes w)) with ⟨attempt, after⟩
    have hnoted : Host.start launch (passes (passes s)) =
        (attempt, ⟨after, before ++ [⟨launch, passes (passes w), attempt, after⟩]⟩) := by
      simp only [Host.start, s, passes, hs]
    rw [runCommand_of_start hc hs, runCommand_of_start hn hnoted]
    refine ⟨_, ?_, rfl⟩
    cases attempt with
    | finished output => exact .finished _ output after
    | refused _ | interrupted | lost _ => exact .failed _ _ _ after

end

namespace Repository

/-! ## The checks -/

/-- Asks git whether a directory is in a working tree. -/
def insideCheck (path : String) : Launch :=
  ⟨path, "git", ["rev-parse", "--is-inside-work-tree"], []⟩

/-- Asks git where the working tree of a directory starts. -/
def topCheck (path : String) : Launch :=
  ⟨path, "git", ["rev-parse", "--show-toplevel"], []⟩

/-- The program succeeded, and wrote `text` with blanks around it. -/
def Answered (s : Started ω) (text : String) : Prop :=
  ∃ output, s.attempt = .finished output ∧ output.success = true ∧ outputText output = text

/-- The program is git, in the directory. -/
def Placed (path : String) (s : Started ω) : Prop :=
  s.launch.program = "git" ∧ s.launch.directory = path

/-- The program is to add or to commit. -/
def Writes (s : Started ω) : Prop :=
  "add" ∈ s.launch.args ∨ "commit" ∈ s.launch.args

theorem not_writes_of_check {path : String} {s : Started ω}
    (h : s.launch ∈ [insideCheck path, topCheck path]) : ¬ Writes s := by
  rw [List.mem_cons, List.mem_singleton] at h
  rcases h with h | h <;> rw [Writes, h]
  · show ¬ ("add" ∈ ["rev-parse", "--is-inside-work-tree"] ∨
      "commit" ∈ ["rev-parse", "--is-inside-work-tree"])
    decide
  · show ¬ ("add" ∈ ["rev-parse", "--show-toplevel"] ∨ "commit" ∈ ["rev-parse", "--show-toplevel"])
    decide

theorem placed_of_check {path : String} {s : Started ω}
    (h : s.launch ∈ [insideCheck path, topCheck path]) : Placed path s := by
  rw [List.mem_cons, List.mem_singleton] at h
  rcases h with h | h <;> rw [Placed, h] <;> exact ⟨rfl, rfl⟩

section
variable [Host ω]

/-- Git gives an output only if it has succeeded. -/
theorem git_tried {path operation : String} {args : List String} {env : List (String × String)}
    {w : ω} :
    Shadows (git path operation args env) (git path operation args env) w fun added result after =>
      Tried ⟨path, "git", args, env⟩ added result after ∧
        ∀ output, result = .ok output → output.success = true := by
  unfold git
  refine (runCommand_tried _ _ w).bind ?_ ?_
  · intro f added after h
    exact ⟨h, nofun⟩
  · intro output added after h
    cases h
    by_cases hs : output.success = true
    · rw [if_pos hs, if_pos hs]
      refine .pure ⟨.finished _ output after, ?_⟩
      rintro _ ⟨⟩
      exact hs
    · rw [if_neg hs, if_neg hs]
      exact .fail ⟨.failed _ _ _ after, nofun⟩

/-- Git has answered that a directory is in a working tree, which starts under the root. -/
structure Passed (root path : String) (inside top : Started ω) : Prop where
  insideAsked : inside.launch = insideCheck path
  insideAnswer : Answered inside "true"
  topAsked : top.launch = topCheck path
  topAnswer : ∃ text base place, Answered top text ∧
    (Filed.files top.after).canonicalize root = .ok base ∧
    (Filed.files top.after).canonicalize text = .ok place ∧ base <+: place

/-- What inspecting a tree can come to. -/
inductive Inspected (root path : String) : List (Started ω) → Except Failure Unit → Prop where
  | refused {notes : List (Started ω)} (f : Failure)
    (h : notes.map (·.launch) <+: [insideCheck path, topCheck path]) :
    Inspected root path notes (.error f)
  | passed {inside top : Started ω} (h : Passed root path inside top) :
    Inspected root path [inside, top] (.ok ())

theorem canonicalize_of_ok {fs : FileSystem} {path : String} {g : FileError → Failure}
    {names : List String} (h : (fs.canonicalize path).mapError g = .ok names) :
    fs.canonicalize path = .ok names := by
  cases hc : fs.canonicalize path with
  | error e => rw [hc] at h; cases h
  | ok names' => rw [hc] at h; cases h; rfl

theorem inspect_passes (root path : String) (w : ω) :
    Shadows (inspect root path) (inspect root path) w
      fun (added : List (Started ω)) result _ => Inspected root path added result := by
  unfold inspect
  refine .look_bind nofun ?_
  intro isDirectory _
  refine .require_bind ?_ ?_
  · intro _
    exact .refused _ List.nil_prefix
  intro _
  refine git_tried.bind ?_ ?_
  · rintro f notes after ⟨h, -⟩
    exact .refused f (h.launches.trans (List.prefix_append [insideCheck path] _))
  rintro inside notes w₁ ⟨h, hinside⟩
  cases h
  refine .require_bind ?_ ?_
  · intro _
    exact .refused _ (List.prefix_append [insideCheck path] _)
  intro htrue
  refine git_tried.bind ?_ ?_
  · rintro f notes after ⟨h, -⟩
    exact .refused f (List.prefix_cons_inj _ |>.mpr h.launches)
  rintro top notes w₂ ⟨h, htop⟩
  cases h
  refine .look_bind ?_ ?_
  · intro f _
    exact .refused f List.prefix_rfl
  intro place hplace
  refine .look_bind ?_ ?_
  · intro f _
    exact .refused f List.prefix_rfl
  intro base hbase
  refine .require ?_ ?_
  · intro _
    exact .refused _ List.prefix_rfl
  · intro hprefix
    refine .passed ⟨rfl, ⟨inside, rfl, hinside _ rfl, of_decide_eq_true htrue⟩, rfl, ?_⟩
    exact ⟨outputText top, base, place, ⟨top, rfl, htop _ rfl, rfl⟩, canonicalize_of_ok hbase,
      canonicalize_of_ok hplace, List.isPrefixOf_iff_prefix.mp hprefix⟩

/-! ## On an open tree -/

/-- What is started on an open tree: git in its directory, to commit as the author, or to do
something else. -/
inductive OnTree (identity : Identity) (author : Option Identity) (path : String) :
    Launch → Prop where
  | commit (message : String) : OnTree identity author path
    ⟨path, "git", ["commit", "--no-verify", "-m", message, "--", "."], identityEnv identity author⟩
  | other {args : List String} (h : args.head? ≠ some "commit") :
    OnTree identity author path ⟨path, "git", args, []⟩

theorem git_launches {P : Launch → Prop} {path operation : String} {args : List String}
    {env : List (String × String)} {read : Output → α} {w : ω} (h : P ⟨path, "git", args, env⟩) :
    Shadows (git path operation args env >>= fun output => pure (read output))
      (git path operation args env >>= fun output => pure (read output)) w
      fun (added : List (Started ω)) _ _ => ∀ s ∈ added, P s.launch := by
  refine .bind_all (git_tried.mono ?_) fun _ _ => .pure nofun
  rintro added result after ⟨htried, -⟩ s hs
  have hl : s.launch = ⟨path, "git", args, env⟩ :=
    List.mem_singleton.mp (htried.launches.subset (List.mem_map_of_mem hs))
  exact hl ▸ h

theorem commitChanges_launches (identity : Identity) (path : String) (ctx : StepContext)
    (config : CommitConfig) (w : ω) :
    Shadows (commitChanges (tree identity path) ctx config)
      (commitChanges (tree identity path) ctx config) w
      fun (added : List (Started ω)) _ _ => ∀ s ∈ added,
        OnTree identity (config.author.filter fun author => !author.isEmpty) path s.launch := by
  unfold commitChanges
  refine .bind_all (git_launches (.other (by decide))) ?_
  intro _ w₁
  refine .bind_all (git_launches (.other (by decide))) ?_
  intro dirty w₂
  cases dirty with
  | false =>
    refine .bind_all (git_launches (.other (by decide))) ?_
    intro _ w₃
    exact .pure nofun
  | true =>
    rw [Action.within_ofExcept, Action.within_ofExcept]
    refine .ofExcept_bind ?_ ?_
    · intro f _
      exact nofun
    intro message _
    refine .bind_all (git_launches (.commit message)) ?_
    intro _ w₃
    refine .bind_all (git_launches (.other (by decide))) ?_
    intro _ w₄
    exact .pure nofun

theorem commitChanges_placed (identity : Identity) (path : String) (ctx : StepContext)
    (config : CommitConfig) (w : ω) :
    Shadows (commitChanges (tree identity path) ctx config)
      (commitChanges (tree identity path) ctx config) w
      fun (added : List (Started ω)) _ _ => ∀ s ∈ added, Placed path s := by
  refine (commitChanges_launches identity path ctx config w).mono ?_
  intro added _ _ h s hs
  have hs := h s hs
  unfold Placed
  generalize s.launch = launch at hs ⊢
  cases hs with
  | commit => exact ⟨rfl, rfl⟩
  | other => exact ⟨rfl, rfl⟩

/-! ## The whole step -/

/-- The path to which the step's configuration leads from its working directory. -/
def Joined (ctx : StepContext) (w : ω) (path : String) : Prop :=
  ∃ config, decodeConfig CommitConfig.decode ctx.type ctx.config = .ok config ∧
    Sandbox.join (Filed.files w) ctx.workDir config.path = .ok path

/-- The first two programs are the checks, and these are passed. -/
def PassedFirst (root path : String) (notes : List (Started ω)) : Prop :=
  ∃ inside top rest, notes = inside :: top :: rest ∧ Passed root path inside top

/-- Nothing is written before the checks have passed. -/
structure Guarded (ctx : StepContext) (w : ω) (notes : List (Started ω))
    (outcome : Except Failure StepResult) : Prop where
  placed : ∀ s ∈ notes, s.launch.program = "git" ∧ Joined ctx w s.launch.directory
  guarded : ∀ earlier s later, notes = earlier ++ s :: later → Writes s →
    PassedFirst ctx.workDir s.launch.directory earlier
  /-- The checks are passed, or no more than them is started and the step fails. -/
  decided : (∃ path, PassedFirst ctx.workDir path notes) ∨
    (∃ f, outcome = .error f) ∧
      ∃ path, notes.map (·.launch) <+: [insideCheck path, topCheck path]

variable {ctx : StepContext} {w : ω} {path : String}

theorem guarded_nil (f : Failure) : Guarded ctx w [] (.error f) where
  placed := nofun
  guarded earlier s later he _ := by simp at he
  decided := Or.inr ⟨⟨f, rfl⟩, "", List.nil_prefix⟩

theorem guarded_of_refused {notes : List (Started ω)} (f : Failure) (hj : Joined ctx w path)
    (h : notes.map (·.launch) <+: [insideCheck path, topCheck path]) :
    Guarded ctx w notes (.error f) := by
  have hcheck : ∀ s ∈ notes, s.launch ∈ [insideCheck path, topCheck path] := by
    intro s hs
    exact h.subset (List.mem_map_of_mem hs)
  refine ⟨?_, ?_, Or.inr ⟨⟨f, rfl⟩, path, h⟩⟩
  · intro s hs
    obtain ⟨hprogram, hdirectory⟩ := placed_of_check (hcheck s hs)
    exact ⟨hprogram, by rw [hdirectory]; exact hj⟩
  · intro earlier s later he hw
    have hs : s ∈ notes := by rw [he]; exact List.mem_append_right _ List.mem_cons_self
    exact absurd hw (not_writes_of_check (hcheck s hs))

theorem guarded_of_passed {inside top : Started ω} {more : List (Started ω)}
    {outcome : Except Failure StepResult} (hj : Joined ctx w path)
    (hp : Passed ctx.workDir path inside top) (hm : ∀ s ∈ more, Placed path s) :
    Guarded ctx w (inside :: top :: more) outcome := by
  have hinside : inside.launch ∈ [insideCheck path, topCheck path] := by simp [hp.insideAsked]
  have htop : top.launch ∈ [insideCheck path, topCheck path] := by simp [hp.topAsked]
  have hplaced : ∀ s ∈ inside :: top :: more, Placed path s := by
    simp only [List.forall_mem_cons]
    exact ⟨placed_of_check hinside, placed_of_check htop, hm⟩
  refine ⟨?_, ?_, Or.inl ⟨path, inside, top, more, rfl, hp⟩⟩
  · intro s hs
    obtain ⟨hprogram, hdirectory⟩ := hplaced s hs
    exact ⟨hprogram, by rw [hdirectory]; exact hj⟩
  · intro earlier s later he hw
    have hs : s ∈ inside :: top :: more := by
      rw [he]
      exact List.mem_append_right _ List.mem_cons_self
    rw [(hplaced s hs).2]
    -- A program that writes is neither of the checks, so both come before it.
    match earlier, he with
    | [], he =>
      cases he
      exact absurd hw (not_writes_of_check hinside)
    | [_], he =>
      cases he
      exact absurd hw (not_writes_of_check htop)
    | a :: b :: rest, he =>
      cases he
      exact ⟨inside, top, rest, rfl, hp⟩

theorem commitStep_shadows (identity : Identity) (ctx : StepContext) (w : ω) :
    Shadows (commitStep (load identity) ctx) (commitStep (load identity) ctx) w
      fun (added : List (Started ω)) outcome _ => Guarded ctx w added outcome := by
  unfold commitStep
  refine .ofExcept_bind ?_ ?_
  · intro f _
    exact guarded_nil f
  intro config hd
  refine .look_bind ?_ ?_
  · intro f _
    exact guarded_nil f
  intro path hj
  have hjoined : Joined ctx w path := ⟨config, hd, hj⟩
  simp only [load, Action.within_return_bind]
  have hinspect : Shadows
      ((inspect ctx.workDir path).within ("load working tree '" ++ config.path ++ "'"))
      ((inspect ctx.workDir path).within ("load working tree '" ++ config.path ++ "'")) w
      fun (added : List (Started ω)) result _ => Inspected ctx.workDir path added result := by
    refine .within ((inspect_passes ctx.workDir path w).mono ?_)
    intro added result _ h
    cases h with
    | refused f h => exact .refused _ h
    | passed h => exact .passed h
  refine hinspect.bind ?_ ?_
  · rintro f added _ ⟨_, h⟩
    exact guarded_of_refused f hjoined h
  · rintro ⟨⟩ added after h
    cases h with
    | passed hp =>
      refine (commitChanges_placed identity path ctx config after).mono ?_
      intro more outcome _ hm
      exact guarded_of_passed hjoined hp hm

/-- **Nothing is written before the checks have passed.** For every host, default identity, step and
world: noting the programs changes neither what the step returns nor what it does, and what is noted
is guarded by the checks. -/
theorem commitStep_guarded (identity : Identity) (ctx : StepContext) (w : ω) :
    ∃ notes outcome after,
      commitStep (load identity) ctx (⟨w, []⟩ : Noted ω (Started ω)) = (outcome, ⟨after, notes⟩) ∧
      commitStep (load identity) ctx w = (outcome, after) ∧ Guarded ctx w notes outcome := by
  obtain ⟨notes, hguarded, he⟩ := commitStep_shadows identity ctx w []
  exact ⟨notes, _, _, he, rfl, hguarded⟩

/-- Paths are compared name by name: a directory beside the root is not under it. -/
example : ¬ ["w", "box"] <+: ["w", "box-evil"] := by
  decide

end
end Repository
end StepPipeline

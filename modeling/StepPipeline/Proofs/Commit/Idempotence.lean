import StepPipeline.Proofs.Commit.Outcomes
import StepPipeline.Proofs.Commit.Protocol
import StepPipeline.Proofs.Files.Confinement
import StepPipeline.Proofs.Pipeline.Outputs

/-!
# Committing again

A run may have several commit steps on one working tree, and steps between them that write to it. A
commit step commits what the steps before it have left, and if they have left nothing, it only says
where the tree stands.

**Views (`TreeView`).** What is to be seen of a tree in a world: whether it is dirty, where its head
is, and how many commits have been made.

**Laws (`TreeView.Lawful`).** No operation on the tree fails. A commit leaves it clean; what else
there is commits nothing, moves no head and makes no clean tree dirty.

**Calls (`Asks`).** A commit step opens the tree, stages its changes, asks for differences, commits
if there are any, and asks for the head. What it does depends on the tree in one world, that in which
it asks for differences.

**Results.**
* `commitStep_settled`: a commit step makes these calls; it makes one commit if the tree is dirty when
  it asks for differences, else none; it leaves it clean, and puts out where its head is.
* `commits_of_linked`: so in executions in a row there are as many commits as commit steps that have
  found the tree dirty.
* `kept_of_clean`, `kept_between`: and as long as nothing dirties a clean tree, its head stays.
* `commits_idempotent`: hence for runs of any steps.
-/
namespace StepPipeline

open Cancellable
open StepPipeline.Action (Shadows)

variable {ω α β : Type}

/-! ## Trees -/

/-- What is to be seen of a working tree. -/
structure TreeView (ω : Type) where
  dirty : ω → Bool
  head : ω → String
  /-- How many commits have been made. -/
  commits : ω → Nat

namespace TreeView

variable (view : TreeView ω)

/-- Nothing is committed, and the head stays. -/
structure Keeps (w w' : ω) : Prop where
  head : view.head w' = view.head w
  commits : view.commits w' = view.commits w

/-- Nothing is committed, and a clean tree stays clean. -/
structure Calm (w w' : ω) : Prop extends view.Keeps w w' where
  clean : view.dirty w = false → view.dirty w' = false

/-- How the operations on a tree go. It is committed to only when it is dirty. -/
structure Lawful (tree : WorkTree ω) : Prop where
  addAll : ∀ w, ∃ w', tree.addAll w = (.ok (), w') ∧ view.Calm w w'
  hasDiffs : ∀ w, ∃ w', tree.hasDiffs w = (.ok (view.dirty w), w') ∧ view.Keeps w w' ∧
    view.dirty w' = view.dirty w
  commit : ∀ message author w, view.dirty w = true →
    ∃ w', tree.commit message author w = (.ok (), w') ∧ view.dirty w' = false ∧
      view.commits w' = view.commits w + 1
  lastCommitId : ∀ w, ∃ w', tree.lastCommitId w = (.ok (view.head w), w') ∧ view.Calm w w'

variable {view}

theorem Keeps.trans {w v u : ω} (h : view.Keeps w v) (h' : view.Keeps v u) : view.Keeps w u :=
  ⟨h'.head.trans h.head, h'.commits.trans h.commits⟩

end TreeView

/-! ## One step -/

/-- The tree was asked for differences, and there were some. -/
def TreeNote.findsDirty : TreeNote → Bool
  | ⟨.hasDiffs, .ok (.diffs found)⟩ => found
  | _ => false

/-- The calls on an open tree that is dirty or not, and that has its head at `id` then. -/
def changesCalls (dirty : Bool) (message : String) (author : Option Identity) (id : String) :
    List TreeNote :=
  [⟨.addAll, .ok .done⟩, ⟨.hasDiffs, .ok (.diffs dirty)⟩] ++
    (if dirty then [⟨.commit message author, .ok .done⟩] else []) ++
    [⟨.lastCommitId, .ok (.id id)⟩]

theorem findsDirty_changesCalls (dirty : Bool) (message : String) (author : Option Identity)
    (id : String) : (changesCalls dirty message author id).any TreeNote.findsDirty = dirty := by
  cases dirty <;> rfl

/-- Begun in `w`, the step opens the tree, stages its changes, and asks for differences in `v`; it
commits if the tree is dirty there, and asks for the head at last. -/
def Asks (view : TreeView ω) (tree : WorkTree ω) (load : Loader ω) (root : String) (w v : ω)
    (notes : List TreeNote) (after : ω) : Prop :=
  ∃ path u message author, load root path w = (.ok tree, u) ∧ tree.addAll u = (.ok (), v) ∧
    notes = ⟨.load root path, .ok .done⟩ ::
      changesCalls (view.dirty v) message author (view.head after)

theorem Asks.findsDirty {view : TreeView ω} {tree : WorkTree ω} {load : Loader ω} {root : String}
    {w v after : ω} {notes : List TreeNote} (h : Asks view tree load root w v notes after) :
    notes.any TreeNote.findsDirty = view.dirty v := by
  obtain ⟨path, u, message, author, -, -, rfl⟩ := h
  exact findsDirty_changesCalls _ _ _ _

/-- What a commit step leaves of a tree, having asked for differences in `v`. -/
structure Settled (view : TreeView ω) (w v : ω) (outcome : Except Failure StepResult) (after : ω) :
    Prop where
  outcome : outcome = .ok (.succeeded (some (commitOutput (view.head after))))
  commits : view.commits after = view.commits w + if view.dirty v then 1 else 0
  clean : view.dirty after = false
  head : view.dirty v = false → view.head after = view.head w
  found : view.dirty w = false → view.dirty v = false

namespace Action.Shadows

variable {event : Event} {w w' : ω} {U : List TreeNote → Except Failure β → ω → Prop}

/-- A call of which it is known that it succeeds. -/
theorem call_ok {answer : α → Answer} {action : Action ω α} {a : α} {next : α → Action ω β}
    {nextNoting : α → Action (Noted ω TreeNote) β} (h : action w = (.ok a, w'))
    (hn : Shadows (next a) (nextNoting a) w' fun more => U (⟨event, .ok (answer a)⟩ :: more)) :
    Shadows (action >>= next) (action.noted event answer >>= nextNoting) w U := by
  intro before
  have hnoted : action.noted event answer ⟨w, before⟩ =
      (.ok a, ⟨w', before ++ [⟨event, .ok (answer a)⟩]⟩) := by
    simp only [Action.noted, h]
    rfl
  rw [andThen_ok h, andThen_ok hnoted]
  obtain ⟨more, hu, he⟩ := hn (before ++ [⟨event, .ok (answer a)⟩])
  exact ⟨_, hu, by rw [he, List.append_assoc]; rfl⟩

/-- A tree of which it is known that it is opened. -/
theorem opening_ok {load : Loader ω} {root path operation : String} {tree : WorkTree ω}
    {next : WorkTree ω → Action ω β} {nextNoting : WorkTree (Noted ω TreeNote) → Action _ β}
    (h : load root path w = (.ok tree, w'))
    (hn : Shadows (next tree) (nextNoting tree.noted) w' fun more =>
      U (⟨.load root path, .ok .done⟩ :: more)) :
    Shadows ((load root path).within operation >>= next)
      ((load.noted root path).within operation >>= nextNoting) w U := by
  intro before
  have hnoted : load.noted root path ⟨w, before⟩ =
      (.ok tree.noted, ⟨w', before ++ [⟨.load root path, .ok .done⟩]⟩) := by
    simp only [Loader.noted, h]
    rfl
  rw [andThen_ok (within_ok h), andThen_ok (within_ok hnoted)]
  obtain ⟨more, hu, he⟩ := hn (before ++ [⟨.load root path, .ok .done⟩])
  exact ⟨_, hu, by rw [he, List.append_assoc]; rfl⟩

end Action.Shadows

section
variable {view : TreeView ω} {tree : WorkTree ω} {ctx : StepContext} {config : CommitConfig}

theorem commitChanges_settled (htree : view.Lawful tree) {message : String}
    (hm : commitMessage ctx.state config = .ok message) (w : ω) :
    Shadows (commitChanges tree ctx config) (commitChanges tree.noted ctx config) w
      fun notes outcome after => ∃ v message author, tree.addAll w = (.ok (), v) ∧
        notes = changesCalls (view.dirty v) message author (view.head after) ∧
        Settled view w v outcome after := by
  obtain ⟨w₁, hadd, hcalm⟩ := htree.addAll w
  obtain ⟨w₂, hdiffs, hkeeps, hdirty⟩ := htree.hasDiffs w₁
  unfold commitChanges
  refine .call_ok hadd (.call_ok hdiffs ?_)
  cases hfound : view.dirty w₁ with
  | false =>
    obtain ⟨w₃, hlast, hstill⟩ := htree.lastCommitId w₂
    have hhead : view.head w₃ = view.head w := by rw [hstill.head, hkeeps.head, hcalm.head]
    refine .call_ok hlast (.pure ⟨w₁, message, none, hadd, ?_, ?_, ?_, ?_, fun _ => hhead,
      fun _ => hfound⟩)
    · rw [hfound, hstill.head]
      rfl
    · rw [hstill.head]
    · rw [hstill.commits, hkeeps.commits, hcalm.commits, hfound]
      rfl
    · exact hstill.clean (hdirty.trans hfound)
  | true =>
    let author := config.author.filter fun author => !author.isEmpty
    obtain ⟨w₃, hcommit, hclean, hcount⟩ := htree.commit message author w₂ (hdirty.trans hfound)
    obtain ⟨w₄, hlast, hstill⟩ := htree.lastCommitId w₃
    rw [Action.within_ofExcept, Action.within_ofExcept, hm]
    refine .ofExcept_bind nofun ?_
    rintro _ ⟨⟩
    refine .call_ok hcommit (.call_ok hlast (.pure ⟨w₁, message, author, hadd, ?_, ?_, ?_,
      hstill.clean hclean, fun hc => ?_, hcalm.clean⟩))
    · rw [hfound, hstill.head]
      rfl
    · rw [hstill.head]
    · rw [hstill.commits, hcount, hkeeps.commits, hcalm.commits, hfound]
      rfl
    · rw [hfound] at hc
      cases hc

/-- **One step.** A commit step makes one commit if the tree is dirty when it asks for differences,
else none. -/
theorem commitStep_settled [Filed ω] {load : Loader ω} (htree : view.Lawful tree) {w v : ω}
    {path message : String}
    (hd : decodeConfig CommitConfig.decode ctx.type ctx.config = .ok config)
    (hj : Sandbox.join (Filed.files w) ctx.workDir config.path = .ok path)
    (hopen : load ctx.workDir path w = (.ok tree, v)) (hcalm : view.Calm w v)
    (hm : commitMessage ctx.state config = .ok message) :
    Shadows (commitStep load ctx) (commitStep load.noted ctx) w
      fun notes outcome after => ∃ u, Asks view tree load ctx.workDir w u notes after ∧
        Settled view w u outcome after := by
  unfold commitStep
  refine .ofExcept_bind (fun f hf => ?_) fun config' hd' => ?_
  · rw [hd] at hf
    cases hf
  rw [hd, Except.ok.injEq] at hd'
  subst hd'
  refine .look_bind (fun f hf => ?_) fun path' hj' => ?_
  · rw [hj] at hf
    cases hf
  rw [hj, Except.ok.injEq] at hj'
  subst hj'
  refine .opening_ok hopen ((commitChanges_settled htree hm v).mono ?_)
  rintro _ outcome after ⟨u, said, author, hadd, rfl, hs⟩
  refine ⟨u, ⟨path, v, said, author, hopen, hadd, rfl⟩, hs.outcome, ?_, hs.clean, fun hf => ?_,
    fun hc => hs.found (hcalm.clean hc)⟩
  · rw [hs.commits, hcalm.commits]
  · rw [hs.head hf, hcalm.head]

end

/-! ## Executions in a row -/

/-- The step is a commit step. -/
def Execution.commits (a : Execution ω) : Bool := a.step.type = commitStepType

/-- What the commit step asks of the tree. -/
def Execution.treeNotes [Filed ω] (load : Loader ω) (workDir : String) (a : Execution ω) :
    List TreeNote :=
  (commitStep load.noted (contextOf workDir a.step a.aliasName a.state) ⟨a.start, []⟩).2.notes

/-- The commit step has found the tree dirty. -/
def Execution.foundDirty [Filed ω] (load : Loader ω) (workDir : String) (a : Execution ω) : Bool :=
  (a.treeNotes load workDir).any TreeNote.findsDirty

/-- The commit step goes as it should, and asks for differences in `v`. -/
def Execution.Settles [Filed ω] (view : TreeView ω) (tree : WorkTree ω) (load : Loader ω)
    (workDir : String) (a : Execution ω) (v : ω) : Prop :=
  Asks view tree load workDir a.start v (a.treeNotes load workDir) a.finish ∧
    Settled view a.start v a.outcome a.finish

/-- What an execution does to a tree: it settles it, or commits nothing. -/
def Execution.Tends [Filed ω] (view : TreeView ω) (tree : WorkTree ω) (load : Loader ω)
    (workDir : String) (a : Execution ω) : Prop :=
  if a.commits then ∃ v, a.Settles view tree load workDir v else view.Keeps a.start a.finish

section
variable [Filed ω] {view : TreeView ω} {tree : WorkTree ω} {load : Loader ω} {workDir : String}
  {w : ω} {h : List (Execution ω)}

theorem Execution.Settles.foundDirty {a : Execution ω} {v : ω}
    (ha : a.Settles view tree load workDir v) : a.foundDirty load workDir = view.dirty v :=
  ha.1.findsDirty

variable [Cancellable ω] (hp : ∀ w, view.Keeps w (passes w))
include hp

/-- There are as many commits as commit steps that have found the tree dirty. -/
theorem commits_of_linked (hl : Linked w h) (ht : ∀ a ∈ h, a.Tends view tree load workDir) :
    view.commits (lastWorld w h) =
      view.commits w + (h.filter fun a => a.commits && a.foundDirty load workDir).length := by
  induction hl with
  | nothing => rfl
  | @next w a rest hs _ ih =>
    obtain ⟨ha, hrest⟩ := List.forall_mem_cons.mp ht
    have hstart : view.commits a.start = view.commits w := by rw [hs, (hp w).commits]
    rw [lastWorld_cons, ih hrest, ← hstart]
    unfold Execution.Tends at ha
    cases hc : a.commits with
    | false =>
      rw [if_neg (by rw [hc]; exact Bool.false_ne_true)] at ha
      rw [List.filter_cons_of_neg (by simp [hc]), ha.commits]
    | true =>
      rw [if_pos hc] at ha
      obtain ⟨v, hv⟩ := ha
      rw [hv.2.commits, ← hv.foundDirty]
      cases hf : a.foundDirty load workDir with
      | false => rw [List.filter_cons_of_neg (by simp [hf])]; rfl
      | true =>
        rw [List.filter_cons_of_pos (by simp [hc, hf]), List.length_cons, if_pos rfl]
        omega

/-- As long as nothing dirties a clean tree, neither a step nor what happens behind it, the head of
the tree stays. -/
theorem kept_of_clean (hl : Linked w h) (ht : ∀ a ∈ h, a.Tends view tree load workDir)
    (hq : ∀ a ∈ h, view.dirty a.start = false → view.dirty (passes a.finish) = false)
    (hc : view.dirty (passes w) = false) :
    view.dirty (passes (lastWorld w h)) = false ∧ view.Keeps w (passes (lastWorld w h)) := by
  induction hl with
  | nothing w => exact ⟨hc, hp w⟩
  | @next w a rest hs _ ih =>
    obtain ⟨ha, hrest⟩ := List.forall_mem_cons.mp ht
    obtain ⟨hqa, hqrest⟩ := List.forall_mem_cons.mp hq
    rw [← hs] at hc
    have hkeeps : view.Keeps a.start a.finish := by
      unfold Execution.Tends at ha
      split at ha
      · obtain ⟨v, -, hv⟩ := ha
        have hfound := hv.found hc
        refine ⟨hv.head hfound, ?_⟩
        rw [hv.commits, hfound]
        rfl
      · exact ha
    obtain ⟨hclean, hlast⟩ := ih hrest hqrest (hqa hc)
    rw [lastWorld_cons]
    exact ⟨hclean, ((hs ▸ hp w : view.Keeps w a.start).trans hkeeps).trans hlast⟩

/-- A step finds the tree as an earlier one has left it, if that left it clean and nothing between
them dirties it. -/
theorem kept_between {a b : Execution ω} {mid back : List (Execution ω)}
    (hl : Linked w (a :: (mid ++ b :: back))) (ht : ∀ c ∈ mid, c.Tends view tree load workDir)
    (hclean : view.dirty a.finish = false)
    (hquiet : ∀ c ∈ mid, view.dirty c.start = false → view.dirty c.finish = false)
    (hcalm : ∀ c ∈ a :: mid, view.dirty c.finish = false → view.dirty (passes c.finish) = false) :
    view.dirty b.start = false ∧ view.Keeps a.finish b.start := by
  have hrest := hl.tail
  have hstart : b.start = passes (lastWorld a.finish mid) := hrest.right.start_eq
  obtain ⟨hcalma, hcalmmid⟩ := List.forall_mem_cons.mp hcalm
  rw [hstart]
  exact kept_of_clean hp hrest.left ht (fun c hc hd => hcalmmid c hc (hquiet c hc hd))
    (hcalma hclean)

end

/-! ## Runs -/

/-- A commit step that nothing hinders: the run is not cancelled, the configuration is valid, its
path leads to the tree, and there is a message to be had. -/
structure Execution.Smooth [Cancellable ω] [Filed ω] (view : TreeView ω) (tree : WorkTree ω)
    (load : Loader ω) (workDir : String) (a : Execution ω) : Prop where
  started : cancelled a.start = false
  ended : cancelled a.finish = false
  valid : Schema.validate commitRules.validator commitStepType (.object a.step.config) = .ok ()
  opened : ∀ config,
    decodeConfig CommitConfig.decode commitStepType (.object a.step.config) = .ok config →
      ∃ path v message, Sandbox.join (Filed.files a.start) workDir config.path = .ok path ∧
        load workDir path a.start = (.ok tree, v) ∧ view.Calm a.start v ∧
        commitMessage a.state config = .ok message

/-- The report on a commit step that has settled the tree. -/
theorem report_of_settled {view : TreeView ω} {a : Execution ω} {v : ω} (hfresh : a.Fresh)
    (h : Settled view a.start v a.outcome a.finish) :
    a.report =
      .succeeded a.aliasName a.step.type (some (commitOutput (view.head a.finish))) := by
  rcases Execution.conclusion hfresh with ⟨output, ho, hreport, -⟩ | ⟨f, hf, -⟩
  · rw [h.outcome] at ho
    cases ho
    exact hreport
  · rcases hf with he | ⟨output, he, -⟩
    · rw [h.outcome] at he
      cases he
    · rw [h.outcome] at he
      cases he

section
variable [Cancellable ω] [Filed ω] {view : TreeView ω} {tree : WorkTree ω} {load : Loader ω}
  {registry : Registry ω} {entry : Registration ω}

theorem settles_of_smooth (htree : view.Lawful tree)
    (hl : registry.lookup commitStepType = .ok entry) (hr : entry.runner = commitStep load)
    (hs : entry.validator = commitRules.validator) {workDir : String} {a : Execution ω}
    (hsorted : a.step.Sorted) (ht : a.step.type = commitStepType)
    (ha : executeStep registry workDir a.step a.aliasName a.state a.start = (a.outcome, a.finish))
    (h : a.Smooth view tree load workDir) :
    ∃ u, a.Settles view tree load workDir u := by
  obtain ⟨config, hd⟩ := Repository.decodes_of_valid hsorted (Schema.validate_ok_iff.mp h.valid)
  obtain ⟨path, v, message, hj, hopen, hcalm, hm⟩ := h.opened config (hd _)
  obtain ⟨notes, ⟨u, hasks, hsettled⟩, hnoted⟩ :=
    @commitStep_settled _ _ _ (contextOf workDir a.step a.aliasName a.state) _ _ _ htree _ _ _ _
      (hd _) hj hopen hcalm hm []
  rcases hran : commitStep load (contextOf workDir a.step a.aliasName a.state) a.start with
    ⟨returned, after⟩
  rw [hran] at hasks hsettled hnoted
  have hnotes : a.treeNotes load workDir = notes := by
    unfold Execution.treeNotes
    rw [hnoted, List.nil_append]
  refine ⟨u, ?_⟩
  unfold Execution.Settles
  rw [hnotes]
  have hvalid : entry.validate a.step.type (.object a.step.config) = .ok () := by
    unfold Registration.validate
    rw [hs, ht]
    exact h.valid
  have hruns : entry.runner (contextOf workDir a.step a.aliasName a.state) a.start =
      (returned, after) := by rw [hr, hran]
  have hlook : registry.lookup a.step.type = .ok entry := by rw [ht, hl]
  -- The step is not overtaken by a cancellation, so what it leaves is what its runner leaves.
  have hends := executeStep_ends ha
  have hended := h.ended
  generalize a.outcome = outcome at hends ⊢
  generalize a.finish = finish at hends hended ⊢
  cases hends with
  | cancelled hc => rw [h.started] at hc; cases hc
  | missing _ hl' => rw [hlook] at hl'; cases hl'
  | invalid _ hl' hv' =>
    rw [hlook, Except.ok.injEq] at hl'
    subst hl'
    rw [hvalid] at hv'
    cases hv'
  | failed _ hl' _ hr' =>
    rw [hlook, Except.ok.injEq] at hl'
    subst hl'
    rw [hruns] at hr'
    cases hr'
    exact ⟨hasks, hsettled⟩
  | overtaken _ _ _ _ hc' => rw [hended] at hc'; cases hc'
  | done _ hl' _ hr' _ =>
    rw [hlook, Except.ok.injEq] at hl'
    subst hl'
    rw [hruns] at hr'
    cases hr'
    exact ⟨hasks, hsettled⟩

variable {steps : List Step} {ctx : RunContext} {w : ω}

/-- **Committing again.** Let a tree be lawful, let nothing hinder the commit steps of a run, and let
the other steps and all else that happens commit nothing, whatever they write. Then each commit step
stages the changes and asks for differences, and from then on the state of the tree decides: if it is
dirty, the step makes one commit, and none otherwise. It leaves the tree clean and puts out where the
head is after it. The run makes as many commits as its commit steps have found the tree dirty. Of two
commit steps with nothing between them that dirties the tree, the second commits nothing, and both
leave one output. -/
theorem commits_idempotent (htree : view.Lawful tree) (hpass : ∀ w, view.Keeps w (passes w))
    (hl : registry.lookup commitStepType = .ok entry) (hr : entry.runner = commitStep load)
    (hs : entry.validator = commitRules.validator) (hsorted : ∀ step ∈ steps, step.Sorted)
    (hcommit : ∀ a ∈ executions steps registry ctx w, a.commits = true →
      a.Smooth view tree load ctx.workDir)
    (hother : ∀ a ∈ executions steps registry ctx w, a.commits = false →
      view.Keeps a.start a.finish) :
    (∀ a ∈ executions steps registry ctx w, a.commits = true →
      (∃ v, Asks view tree load ctx.workDir a.start v (a.treeNotes load ctx.workDir) a.finish ∧
        a.foundDirty load ctx.workDir = view.dirty v) ∧
      view.commits a.finish =
        view.commits a.start + (if a.foundDirty load ctx.workDir then 1 else 0) ∧
      view.dirty a.finish = false ∧
      (a.foundDirty load ctx.workDir = false → view.head a.finish = view.head a.start) ∧
      a.report = .succeeded a.aliasName a.step.type (some (commitOutput (view.head a.finish))) ∧
      ∀ r, (run steps registry ctx w).1 = .ok r → a.report ∈ r.steps ∧
        r.state.get? a.aliasName = some (commitOutput (view.head a.finish))) ∧
    view.commits (run steps registry ctx w).2 = view.commits w +
      ((executions steps registry ctx w).filter fun a =>
        a.commits && a.foundDirty load ctx.workDir).length ∧
    ∀ front a mid b back, executions steps registry ctx w = front ++ a :: (mid ++ b :: back) →
      a.commits = true → b.commits = true →
      (∀ c ∈ mid, view.dirty c.start = false → view.dirty c.finish = false) →
      (∀ c ∈ a :: mid, view.dirty c.finish = false → view.dirty (passes c.finish) = false) →
      b.foundDirty load ctx.workDir = false ∧
      view.commits b.finish =
        view.commits a.start + (if a.foundDirty load ctx.workDir then 1 else 0) ∧
      ∀ r, (run steps registry ctx w).1 = .ok r → ∃ id,
        r.state.get? a.aliasName = some (commitOutput id) ∧
        r.state.get? b.aliasName = some (commitOutput id) := by
  have hsettled : ∀ a ∈ executions steps registry ctx w, a.commits = true →
      ∃ v, a.Settles view tree load ctx.workDir v := by
    intro a ha hc
    exact settles_of_smooth htree hl hr hs (hsorted _ (step_mem_of_executions ha))
      (of_decide_eq_true hc) (executions_executes ha) (hcommit a ha hc)
  have htends : ∀ a ∈ executions steps registry ctx w, a.Tends view tree load ctx.workDir := by
    intro a ha
    unfold Execution.Tends
    cases hc : a.commits with
    | true => exact hsettled a ha hc
    | false => exact hother a ha hc
  have hreport : ∀ a ∈ executions steps registry ctx w, a.commits = true →
      a.report = .succeeded a.aliasName a.step.type (some (commitOutput (view.head a.finish))) := by
    intro a ha hc
    obtain ⟨v, -, hv⟩ := hsettled a ha hc
    exact report_of_settled (executions_fresh steps registry ctx w a ha) hv
  refine ⟨fun a ha hc => ?_, ?_, ?_⟩
  · obtain ⟨v, hv⟩ := hsettled a ha hc
    have hfound := hv.foundDirty
    obtain ⟨hasks, hdone⟩ := hv
    rw [hfound]
    refine ⟨⟨v, hasks, rfl⟩, hdone.commits, hdone.clean, hdone.head, hreport a ha hc,
      fun r hrun => ?_⟩
    obtain ⟨-, -, -, rfl⟩ := run_ok hrun
    exact ⟨List.mem_map_of_mem ha, get?_of_report ha (hreport a ha hc)⟩
  · rw [run_eq]
    exact commits_of_linked hpass executions_linked htends
  · intro front a mid b back he ha hb hquiet hcalm
    have hma : a ∈ executions steps registry ctx w := by simp [he]
    have hmb : b ∈ executions steps registry ctx w := by simp [he]
    have hlinked : Linked (lastWorld w front) (a :: (mid ++ b :: back)) :=
      Linked.right (he ▸ executions_linked)
    obtain ⟨u, hfirst⟩ := hsettled a hma ha
    obtain ⟨v, hsecond⟩ := hsettled b hmb hb
    have htmid : ∀ c ∈ mid, c.Tends view tree load ctx.workDir := fun c hc =>
      htends c (by simp [he, hc])
    obtain ⟨hclean, hkept⟩ := kept_between hpass hlinked htmid hfirst.2.clean hquiet hcalm
    have hfound := hsecond.2.found hclean
    have hhead := (hsecond.2.head hfound).trans hkept.head
    refine ⟨hsecond.foundDirty.trans hfound, ?_, fun r hrun => ?_⟩
    · rw [hsecond.2.commits, hfound, hkept.commits, hfirst.2.commits, hfirst.foundDirty]
      rfl
    · obtain ⟨-, -, -, rfl⟩ := run_ok hrun
      refine ⟨_, get?_of_report hma (hreport a hma ha), ?_⟩
      rw [get?_of_report hmb (hreport b hmb hb), hhead]

end

/-! ## A tree that is written to -/

/-- A tree whose head is the number of its commits. -/
structure Plot where
  dirty : Bool
  commits : Nat

instance : Cancellable Plot where
  cancelled _ := false

instance : Filed Plot := ⟨fun _ => Repository.Bench.tree⟩

theorem passes_plot (w : Plot) : passes w = w := rfl

def plotTree : WorkTree Plot where
  path := "/w"
  addAll := pure ()
  hasDiffs w := (.ok w.dirty, w)
  commit _ _ w := (.ok (), ⟨false, w.commits + 1⟩)
  lastCommitId w := (.ok (toString w.commits), w)

def plotView : TreeView Plot := ⟨Plot.dirty, fun w => toString w.commits, Plot.commits⟩

theorem lawful_plotTree : plotView.Lawful plotTree where
  addAll w := ⟨w, rfl, ⟨rfl, rfl⟩, id⟩
  hasDiffs w := ⟨w, rfl, ⟨rfl, rfl⟩, rfl⟩
  commit _ _ w _ := ⟨⟨false, w.commits + 1⟩, rfl, rfl, rfl⟩
  lastCommitId w := ⟨w, rfl, ⟨rfl, rfl⟩, id⟩

def plotLoad : Loader Plot := fun _ _ => pure plotTree

/-- Besides the commit step there is one that dirties the tree. -/
def plotRegistry : Registry Plot :=
  ⟨[⟨commitStepType, commitStep plotLoad, commitSchemaDocument, commitRules.validator⟩,
    ⟨"soil", fun _ w => (.ok (.succeeded none), { w with dirty := true }), .bool true,
      Schema.validator []⟩]⟩

def plotSteps : List Step :=
  [⟨some "first", "git-commit", [("path", .string ".")]⟩,
    ⟨some "again", "git-commit", [("message", .string "m"), ("path", .string ".")]⟩,
    ⟨none, "soil", []⟩, ⟨some "last", "git-commit", [("path", .string ".")]⟩]

/-- Every commit step of these leads to the tree. -/
theorem opened_plot {step : Step} (hm : step ∈ plotSteps) (ht : step.type = commitStepType) :
    Schema.validate commitRules.validator commitStepType (.object step.config) = .ok () ∧
      ∃ config message,
        decodeConfig CommitConfig.decode commitStepType (.object step.config) = .ok config ∧
        config.path = "." ∧ ∀ state, commitMessage state config = .ok message := by
  simp only [plotSteps, List.mem_cons, List.not_mem_nil, or_false] at hm
  rcases hm with rfl | rfl | rfl | rfl
  · exact ⟨rfl, ⟨".", none, [], none⟩, _, rfl, rfl, fun _ => rfl⟩
  · exact ⟨rfl, ⟨".", some "m", [], none⟩, _, rfl, rfl, fun _ => rfl⟩
  · exact absurd ht (by decide)
  · exact ⟨rfl, ⟨".", none, [], none⟩, _, rfl, rfl, fun _ => rfl⟩

theorem sorted_plot : ∀ step ∈ plotSteps, step.Sorted := by
  have hpath : Step.Sorted ⟨some "first", "git-commit", [("path", .string ".")]⟩ :=
    ⟨.object [("path", .string ".")], rfl⟩
  refine List.forall_mem_cons.mpr ⟨hpath, List.forall_mem_cons.mpr ⟨?_, ?_⟩⟩
  · exact ⟨.object [("message", .string "m"), ("path", .string ".")], rfl⟩
  · exact List.forall_mem_cons.mpr ⟨⟨.object [], rfl⟩, List.forall_mem_singleton.mpr hpath⟩

theorem smooth_plot {a : Execution Plot} (hm : a.step ∈ plotSteps) (hc : a.commits = true) :
    a.Smooth plotView plotTree plotLoad "/w" := by
  obtain ⟨hvalid, config, message, hd, hp, hmessage⟩ := opened_plot hm (of_decide_eq_true hc)
  refine ⟨rfl, rfl, hvalid, fun config' hd' => ?_⟩
  rw [hd, Except.ok.injEq] at hd'
  subst hd'
  rw [hp]
  exact ⟨"/w", a.start, message, Sandbox.join_here _ _, rfl, ⟨⟨rfl, rfl⟩, id⟩, hmessage _⟩

/-- Of the other steps each only dirties the tree. -/
theorem keeps_plot {a : Execution Plot} (hm : a.step ∈ plotSteps) (hc : a.commits = false)
    (ha : executeStep plotRegistry "/w" a.step a.aliasName a.state a.start =
      (a.outcome, a.finish)) :
    a.outcome = .ok (.succeeded none) ∧ a.finish = ⟨true, a.start.commits⟩ := by
  simp only [plotSteps, List.mem_cons, List.not_mem_nil, or_false] at hm
  unfold Execution.commits at hc
  rcases hm with h | h | h | h
  · rw [h] at hc; cases hc
  · rw [h] at hc; cases hc
  · rw [h] at ha
    exact ⟨(congrArg Prod.fst ha).symm, (congrArg Prod.snd ha).symm⟩
  · rw [h] at hc; cases hc

/-- What a commit step leaves of the tree. -/
def Plot.settled (w : Plot) : Plot := ⟨false, w.commits + if w.dirty then 1 else 0⟩

theorem executeStep_plot {step : Step} (hm : step ∈ plotSteps) (ht : step.type = commitStepType)
    (aliasName : String) (state : State) (w : Plot) :
    executeStep plotRegistry "/w" step aliasName state w =
      (.ok (.succeeded (some (commitOutput (toString w.settled.commits)))), w.settled) := by
  obtain ⟨hvalid, config, message, hd, hp, hmessage⟩ := opened_plot hm ht
  have hl : plotRegistry.lookup step.type =
      .ok ⟨commitStepType, commitStep plotLoad, commitSchemaDocument, commitRules.validator⟩ := by
    rw [ht]; rfl
  have hr : commitStep plotLoad (contextOf "/w" step aliasName state) w =
      (.ok (.succeeded (some (commitOutput (toString w.settled.commits)))), w.settled) := by
    obtain ⟨dirty, commits⟩ := w
    have hok {α : Type} (g : Failure → Failure) (a : α) : (Except.ok a).mapError g = .ok a := rfl
    unfold contextOf
    rw [ht]
    cases dirty <;>
      simp [commitStep, commitChanges, bind, Action.andThen, Action.look, Action.ofExcept,
        Action.within, Sandbox.join_here, hd, hp, hmessage, plotLoad, plotTree, pure, Plot.settled,
        hok]
  have hv : Schema.validate commitRules.validator step.type (.object step.config) = .ok () := by
    rw [ht]
    exact hvalid
  exact executeStep_of_done rfl hl hv hr rfl

theorem resolveAliases_plot :
    resolveAliases plotSteps "step" = .ok ["first", "again", "step-2", "last"] :=
  rfl

theorem run_plot :
    (run plotSteps plotRegistry ⟨"/w", "step"⟩ (⟨true, 0⟩ : Plot)).1 =
      .ok (reportOf plotSteps (executions plotSteps plotRegistry ⟨"/w", "step"⟩ ⟨true, 0⟩)) := by
  rw [run_eq, resolveAliases_plot]
  rfl

/-- All the steps are carried out, each in the world that the one before it left. -/
theorem executions_plot :
    ∃ a b c d, executions plotSteps plotRegistry ⟨"/w", "step"⟩ (⟨true, 0⟩ : Plot) = [a, b, c, d] ∧
      [a, b, c, d].map (fun a => (a.step, a.aliasName)) =
        plotSteps.zip ["first", "again", "step-2", "last"] ∧
      d.finish = ⟨false, 2⟩ := by
  have hh : executions plotSteps plotRegistry ⟨"/w", "step"⟩ (⟨true, 0⟩ : Plot) =
      history plotRegistry "/w" (plotSteps.zip ["first", "again", "step-2", "last"]) .empty
        ⟨true, 0⟩ := by
    unfold executions
    rw [resolveAliases_plot]
  have hall : ∀ a ∈ executions plotSteps plotRegistry ⟨"/w", "step"⟩ (⟨true, 0⟩ : Plot),
      a.report.status = .succeeded ∧
        a.finish = if a.commits then a.start.settled else ⟨true, a.start.commits⟩ := by
    intro a ha
    have hm := step_mem_of_executions ha
    have hexec := executions_executes ha
    rw [Execution.succeeded_iff (executions_fresh _ _ _ _ a ha)]
    cases hc : a.commits with
    | true =>
      rw [executeStep_plot hm (of_decide_eq_true hc), Prod.mk.injEq] at hexec
      exact ⟨⟨_, hexec.1.symm⟩, hexec.2.symm⟩
    | false =>
      obtain ⟨houtcome, hfinish⟩ := keeps_plot hm hc hexec
      exact ⟨⟨_, houtcome⟩, hfinish⟩
  have hlinked := @executions_linked Plot _ plotSteps plotRegistry ⟨"/w", "step"⟩ ⟨true, 0⟩
  rw [hh] at hall hlinked ⊢
  have hlen := history_complete fun a ha => (hall a ha).1
  have hsteps := (history_steps plotRegistry "/w"
    (plotSteps.zip ["first", "again", "step-2", "last"]) .empty ⟨true, 0⟩).eq_of_length
      (by rw [List.length_map, hlen])
  generalize history plotRegistry "/w" (plotSteps.zip ["first", "again", "step-2", "last"]) .empty
    (⟨true, 0⟩ : Plot) = h at hall hlinked hlen hsteps
  obtain ⟨a, b, c, d, rfl⟩ : ∃ a b c d, h = [a, b, c, d] := by
    rcases h with _ | ⟨a, _ | ⟨b, _ | ⟨c, _ | ⟨d, _ | ⟨_, _⟩⟩⟩⟩⟩ <;> cases hlen
    exact ⟨a, b, c, d, rfl⟩
  refine ⟨a, b, c, d, rfl, hsteps, ?_⟩
  have ha := hlinked.start_eq
  have hb := hlinked.tail.start_eq
  have hc := hlinked.tail.tail.start_eq
  have hd := hlinked.tail.tail.tail.start_eq
  simp only [List.forall_mem_cons] at hall
  obtain ⟨⟨-, hfa⟩, ⟨-, hfb⟩, ⟨-, hfc⟩, ⟨-, hfd⟩, -⟩ := hall
  simp only [plotSteps, List.map_cons, List.zip_cons_cons, List.cons.injEq, Prod.mk.injEq] at hsteps
  obtain ⟨⟨hsa, -⟩, ⟨hsb, -⟩, ⟨hsc, -⟩, ⟨hsd, -⟩, -⟩ := hsteps
  rw [hfd, hd, hfc, hc, hfb, hb, hfa, ha]
  simp [passes_plot, Execution.commits, hsa, hsb, hsc, hsd, commitStepType, Plot.settled]

/-- A dirty tree is committed by the first of two steps in a row, and again by the last one. -/
theorem commits_idempotent_plot :
    (run plotSteps plotRegistry ⟨"/w", "step"⟩ ⟨true, 0⟩).2 = ⟨false, 2⟩ ∧
      ((executions plotSteps plotRegistry ⟨"/w", "step"⟩ ⟨true, 0⟩).filter fun a =>
        a.commits && a.foundDirty plotLoad "/w").length = 2 ∧
      ∃ r id, (run plotSteps plotRegistry ⟨"/w", "step"⟩ (⟨true, 0⟩ : Plot)).1 = .ok r ∧
        r.state.get? "first" = some (commitOutput id) ∧
        r.state.get? "again" = some (commitOutput id) := by
  obtain ⟨-, hcount, hagain⟩ :=
    @commits_idempotent Plot _ _ plotView plotTree plotLoad plotRegistry _ plotSteps
      ⟨"/w", "step"⟩ ⟨true, 0⟩ lawful_plotTree (fun _ => ⟨rfl, rfl⟩) rfl rfl rfl sorted_plot
      (fun a ha hc => smooth_plot (step_mem_of_executions ha) hc)
      (fun a ha hc => by
        rw [(keeps_plot (step_mem_of_executions ha) hc (executions_executes ha)).2]
        exact ⟨rfl, rfl⟩)
  obtain ⟨a, b, c, d, he, hsteps, hfinish⟩ := executions_plot
  simp only [plotSteps, List.map_cons, List.zip_cons_cons, List.cons.injEq, Prod.mk.injEq] at hsteps
  obtain ⟨⟨hsa, hna⟩, ⟨hsb, hnb⟩, -⟩ := hsteps
  have hlast : (run plotSteps plotRegistry ⟨"/w", "step"⟩ (⟨true, 0⟩ : Plot)).2 = ⟨false, 2⟩ := by
    rw [run_eq, he]
    exact hfinish
  obtain ⟨-, -, hstate⟩ := hagain [] a [] b [c, d] he (by rw [Execution.commits, hsa]; rfl)
    (by rw [Execution.commits, hsb]; rfl) (fun _ hc => absurd hc List.not_mem_nil)
    (fun c _ h => (passes_plot c.finish).symm ▸ h)
  obtain ⟨id, hfirst, hsecond⟩ := hstate _ run_plot
  refine ⟨hlast, ?_, _, id, run_plot, hna ▸ hfirst, hnb ▸ hsecond⟩
  rw [hlast] at hcount
  exact (hcount.trans (Nat.zero_add _)).symm

end StepPipeline

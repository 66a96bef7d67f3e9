import StepPipeline.Process.Watch
import StepPipeline.Proofs.Commit.Configuration
import StepPipeline.Proofs.Commit.Guard
import StepPipeline.Proofs.Commit.Ownership
import StepPipeline.Proofs.Commit.Protocol
import StepPipeline.Proofs.Files.Confinement
import StepPipeline.Proofs.Pipeline.Cancellation

/-!
# Git after a cancellation

A run can be cancelled at any time: before a program is started, while it runs, after it. All that
keeps git from being started then is one look at the run in front of every start; the commit step
itself never looks. The look and the start are two moves, and a run that is cancelled between them
has that one program started still. It is the last, and it comes to nothing: it is killed at the
first look at it, if it could be started at all.

**Live starts (`Live`).** Before each program there was a look at the run, and it was not cancelled;
the program is started in what the world has become since.

**Sessions (`Session`).** The operations on an open tree in any order and number, also those that
open it again. Each goes on after a failure of the one before, and between them anything may happen
but that a cancellation is undone.

**Silence (`Silent`).** No look finds the run cancelled and lets a program be started. So a program
that is started in a cancelled run was looked for before the cancellation, and none follows it.

**Results.**
* `attempt_interrupted_iff`: the watch over a program breaks off iff the run is seen cancelled before
  the end of the program is seen.
* `start_of_cancelled`: a program that is started too late comes to nothing.
* `perform_yields`: what an operation starts is live, and it fails as cancelled if the run is.
* `Session.silent`: so a session goes silent with the cancellation.
* `commitStep_yields`: so does a commit step.
* `silent_after_cancellation`: and all later steps of its run do.
* `started_after_cancellation`: one program can be started after the cancellation.
-/
namespace StepPipeline

open Cancellable
open StepPipeline.Action (Shadows)

variable {ω α β γ : Type}

/-! ## The watch -/

/-- The run is seen cancelled before the end of the program is seen. -/
def Watch.SeesCancelled (seen : Watch) : Prop :=
  ∃ before look after, seen.looks = before ++ look :: after ∧ look.cancelled = true ∧
    ∀ earlier ∈ before, earlier.found = .running

theorem Watch.AtOnce.seesCancelled {seen : Watch} (h : seen.AtOnce) : seen.SeesCancelled := by
  obtain ⟨look, rest, hlooks, hlook⟩ := h
  exact ⟨[], look, rest, hlooks, hlook, nofun⟩

theorem watch_interrupted_iff {looks : List Look} :
    watch looks = some .interrupted ↔
      ∃ before look after, looks = before ++ look :: after ∧ look.cancelled = true ∧
        ∀ earlier ∈ before, earlier.found = .running := by
  induction looks with
  | nil => simp [watch]
  | cons first rest ih =>
    unfold watch
    by_cases hc : first.cancelled = true
    · rw [if_pos hc]
      exact ⟨fun _ => ⟨[], first, rest, rfl, hc, nofun⟩, fun _ => rfl⟩
    rw [if_neg hc]
    cases he : first.found with
    | ended _ | lost _ =>
      refine ⟨nofun, ?_⟩
      rintro ⟨before, look, after, hlooks, hlook, hbefore⟩
      cases before with
      | nil => cases hlooks; exact absurd hlook hc
      | cons _ _ => cases hlooks; rw [hbefore _ List.mem_cons_self] at he; cases he
    | running =>
      rw [ih]
      constructor
      · rintro ⟨before, look, after, rfl, hlook, hbefore⟩
        exact ⟨first :: before, look, after, rfl, hlook, List.forall_mem_cons.mpr ⟨he, hbefore⟩⟩
      · rintro ⟨before, look, after, hlooks, hlook, hbefore⟩
        cases before with
        | nil => cases hlooks; exact absurd hlook hc
        | cons _ before =>
          cases hlooks
          exact ⟨before, look, after, rfl, hlook, (List.forall_mem_cons.mp hbefore).2⟩

theorem Watch.attempt_interrupted_iff (seen : Watch) :
    seen.attempt = .interrupted ↔ seen.SeesCancelled := by
  unfold attempt SeesCancelled
  rw [← watch_interrupted_iff, Option.eq_some_iff_get_eq]
  exact ⟨fun h => ⟨seen.decided, h⟩, fun ⟨_, h⟩ => h⟩

/-- An attempt is interrupted by a watch that breaks off, and by nothing else. -/
theorem start_interrupted_iff [Watched ω] {launch : Launch} {w : ω} :
    (Host.start launch w).1 = .interrupted ↔
      ∃ seen after, Watched.spawn launch w = (.ok seen, after) ∧ seen.SeesCancelled := by
  rcases hs : Watched.spawn launch w with ⟨spawned, after⟩
  simp only [Host.start, hs]
  cases spawned with
  | error problem => exact ⟨nofun, nofun⟩
  | ok seen =>
    constructor
    · intro h
      exact ⟨seen, after, rfl, seen.attempt_interrupted_iff.mp h⟩
    · rintro ⟨_, _, ⟨⟩, h⟩
      exact seen.attempt_interrupted_iff.mpr h

theorem cancelled_of_interrupted [Watched ω] {launch : Launch} {w after : ω}
    (h : Host.start launch w = (.interrupted, after)) : cancelled after = true := by
  rcases hs : Watched.spawn launch w with ⟨spawned, after'⟩
  simp only [Host.start, hs] at h
  cases spawned with
  | error problem => cases h
  | ok seen =>
    simp only [Prod.mk.injEq] at h
    obtain ⟨hattempt, rfl⟩ := h
    exact Watched.interrupted_stays hs hattempt

/-- An attempt that has come to nothing. -/
def Attempt.Vain (attempt : Attempt) : Prop :=
  attempt = .interrupted ∨ ∃ problem, attempt = .refused problem

/-- A program that is started in a run that is cancelled is killed at the first look at it, if it
could be started at all. -/
theorem start_of_cancelled [Watched ω] {launch : Launch} {w after : ω} {attempt : Attempt}
    (h : Host.start launch w = (attempt, after)) (hc : cancelled w = true) :
    attempt.Vain ∧ cancelled after = true := by
  rcases hs : Watched.spawn launch w with ⟨spawned, after'⟩
  simp only [Host.start, hs] at h
  cases spawned with
  | error problem =>
    cases h
    exact ⟨.inr ⟨problem, rfl⟩, Watched.refused_stays hs hc⟩
  | ok seen =>
    cases h
    have hi := seen.attempt_interrupted_iff.mpr (Watched.atOnce hs hc).seesCancelled
    exact ⟨.inl hi, Watched.interrupted_stays hs hi⟩

/-! ## Live starts -/

/-- A look has found that the run is not cancelled, and the program was started in what the world had
become then. -/
structure Started.Looked [Host ω] (s : Started ω) : Prop where
  look : ∃ v, cancelled v = false ∧ s.start = passes v
  noted : Host.start s.launch s.start = (s.attempt, s.after)

/-- Programs are started one behind the other, each after a look at what the one before it has
left. -/
inductive Live [Host ω] : ω → List (Started ω) → ω → Prop where
  | nothing (w : ω) : Live w [] w
  | pass {w v : ω} {notes : List (Started ω)} (h : Live (passes w) notes v) : Live w notes v
  | start {w v : ω} {s : Started ω} {rest : List (Started ω)} (hc : cancelled w = false)
    (hp : s.start = passes w) (hs : Host.start s.launch s.start = (s.attempt, s.after))
    (h : Live s.after rest v) : Live w (s :: rest) v

/-- Nothing is started once the run is cancelled, but for a program whose turn had come. -/
structure Silent [Cancellable ω] (w : ω) (notes : List (Started ω)) : Prop where
  before : cancelled w = true → notes = []
  behind : ∀ earlier s later, notes = earlier ++ s :: later → cancelled s.after = true → later = []
  /-- A program that is started after the cancellation was let pass before it, comes to nothing, and
  is the last. -/
  late : ∀ earlier s later, notes = earlier ++ s :: later → cancelled s.start = true →
    (∃ v, cancelled v = false ∧ s.start = passes v) ∧ s.attempt.Vain ∧ later = []

namespace Live

section
variable [Host ω] {w v u : ω} {notes more : List (Started ω)}

theorem append (h : Live w notes v) (hm : Live v more u) : Live w (notes ++ more) u := by
  induction h with
  | nothing => exact hm
  | pass _ ih => exact .pass (ih hm)
  | start hc hp hs _ ih => exact .start hc hp hs (ih hm)

theorem eq_nil_of_cancelled (h : Live w notes v) (hc : cancelled w = true) :
    notes = [] ∧ cancelled v = true := by
  induction h with
  | nothing => exact ⟨rfl, hc⟩
  | pass _ ih => exact ih (stays _ hc)
  | start hn => rw [hc] at hn; cases hn

theorem split {earlier later : List (Started ω)} {s : Started ω}
    (h : Live w (earlier ++ s :: later) v) : s.Looked ∧ Live s.after later v := by
  generalize hnotes : earlier ++ s :: later = notes at h
  induction h generalizing earlier with
  | nothing => simp at hnotes
  | pass _ ih => exact ih hnotes
  | @start w _ _ _ hc hp hs hrest ih =>
    cases earlier with
    | nil => cases hnotes; exact ⟨⟨⟨w, hc, hp⟩, hs⟩, hrest⟩
    | cons _ earlier => cases hnotes; exact ih rfl

/-- A program that leaves the run cancelled is the last one. -/
theorem cancelled_of_after {s : Started ω} (h : Live w notes v) (hs : s ∈ notes)
    (hc : cancelled s.after = true) : cancelled v = true := by
  obtain ⟨earlier, later, rfl⟩ := List.append_of_mem hs
  exact (h.split.2.eq_nil_of_cancelled hc).2

end

section
variable [Watched ω] {w v : ω} {s : Started ω} {notes : List (Started ω)}

theorem cancelled_of_interrupted (h : Live w notes v) (hs : s ∈ notes)
    (hi : s.attempt = .interrupted) : cancelled v = true := by
  obtain ⟨earlier, later, rfl⟩ := List.append_of_mem hs
  have hnoted := h.split.1.noted
  rw [hi] at hnoted
  exact h.cancelled_of_after hs (StepPipeline.cancelled_of_interrupted hnoted)

theorem cancelled_of_start (h : Live w notes v) (hs : s ∈ notes) (hc : cancelled s.start = true) :
    s.attempt.Vain ∧ cancelled v = true := by
  obtain ⟨earlier, later, rfl⟩ := List.append_of_mem hs
  obtain ⟨hvain, hafter⟩ := start_of_cancelled h.split.1.noted hc
  exact ⟨hvain, h.cancelled_of_after hs hafter⟩

end
end Live

/-- A place in one list behind another is in the first of them or in the second. -/
theorem place_of_append {front back earlier later : List α} {a : α}
    (h : front ++ back = earlier ++ a :: later) :
    (∃ mid, front = earlier ++ a :: mid ∧ later = mid ++ back) ∨
      ∃ mid, back = mid ++ a :: later := by
  rcases List.append_eq_append_iff.mp h with ⟨mid, -, hback⟩ | ⟨mid, hfront, hmid⟩
  · exact .inr ⟨mid, hback⟩
  · cases mid with
    | nil => exact .inr ⟨[], hmid.symm⟩
    | cons _ mid => cases hmid; exact .inl ⟨mid, hfront, rfl⟩

/-- Live starts in front of a silence, if what happens before them undoes no cancellation. -/
theorem Silent.append [Watched ω] {w u v : ω} {notes more : List (Started ω)}
    (hw : cancelled w = true → cancelled u = true) (h : Live u notes v) (hm : Silent v more) :
    Silent w (notes ++ more) := by
  have hlast : ∀ {earlier s mid}, notes = earlier ++ s :: mid → cancelled s.after = true →
      mid ++ more = [] := by
    rintro earlier s mid rfl hc
    obtain ⟨rfl, hv⟩ := h.split.2.eq_nil_of_cancelled hc
    exact hm.before hv
  refine ⟨fun hc => ?_, fun earlier s later he hc => ?_, fun earlier s later he hc => ?_⟩
  · obtain ⟨rfl, hv⟩ := h.eq_nil_of_cancelled (hw hc)
    exact hm.before hv
  · rcases place_of_append he with ⟨mid, hmid, rfl⟩ | ⟨mid, hmid⟩
    · exact hlast hmid hc
    · exact hm.behind mid s later hmid hc
  · rcases place_of_append he with ⟨mid, rfl, rfl⟩ | ⟨mid, hmid⟩
    · obtain ⟨hlooked, -⟩ := h.split
      obtain ⟨hvain, hafter⟩ := start_of_cancelled hlooked.noted hc
      exact ⟨hlooked.look, hvain, hlast rfl hafter⟩
    · exact hm.late mid s later hmid hc

/-- Nothing is started. -/
theorem Silent.nothing [Cancellable ω] (w : ω) : Silent w ([] : List (Started ω)) :=
  ⟨fun _ => rfl, fun _ _ _ he => by simp at he, fun _ _ _ he => by simp at he⟩

/-- Live starts go silent with the cancellation. -/
theorem Live.silent [Watched ω] {w v : ω} {notes : List (Started ω)} (h : Live w notes v) :
    Silent w notes := by
  have hsilent := Silent.append id h (.nothing v)
  rwa [List.append_nil] at hsilent

/-! ## What an action comes to -/

/-- What an action that runs programs comes to: its starts are live, it fails if one of its programs
comes to nothing, and with a failure that is `told` if one is interrupted; also if the run is
cancelled before it, provided that it is `ready` to start one. -/
structure Yields [Host ω] (told : Failure → Prop) (ready : Prop) (w : ω) (added : List (Started ω))
    (result : Except Failure α) (after : ω) : Prop where
  live : Live w added after
  refused : cancelled w = true → ready → ∃ f, told f ∧ result = .error f
  cut : (∃ s ∈ added, s.attempt = .interrupted) → ∃ f, told f ∧ result = .error f
  vain : (∃ s ∈ added, s.attempt.Vain) → ∃ f, result = .error f

namespace Yields

variable [Host ω] {told told' : Failure → Prop} {ready ready' : Prop} {w after : ω}
  {added : List (Started ω)}

theorem mono {result : Except Failure α} (h : Yields told ready w added result after)
    (ht : ∀ f, told f → told' f) (hr : ready' → ready) :
    Yields told' ready' w added result after where
  live := h.live
  refused hc hready := (h.refused hc (hr hready)).imp fun f hf => ⟨ht f hf.1, hf.2⟩
  cut hi := (h.cut hi).imp fun f hf => ⟨ht f hf.1, hf.2⟩
  vain := h.vain

/-- What starts nothing yields whatever it is not ready for. -/
theorem idle {result : Except Failure α} (h : ¬ ready) : Yields told ready w [] result w :=
  ⟨.nothing w, fun _ hr => absurd hr h, fun ⟨_, hs, _⟩ => (by cases hs),
    fun ⟨_, hs, _⟩ => (by cases hs)⟩

/-- A sequence yields what its first part does. -/
theorem bind {plain : Action ω α} {noting : Action (Noted ω (Started ω)) α}
    {next : α → Action ω β} {nextNoting : α → Action (Noted ω (Started ω)) β}
    (h : Shadows plain noting w (Yields told ready w))
    (hn : ∀ a after, Shadows (next a) (nextNoting a) after (Yields told False after)) :
    Shadows (plain >>= next) (noting >>= nextNoting) w (Yields told ready w) := by
  refine h.bind ?_ ?_
  · intro f added after hy
    refine ⟨hy.live, fun hc hr => ?_, fun hi => ?_, fun _ => ⟨f, rfl⟩⟩
    · obtain ⟨_, ht, ⟨⟩⟩ := hy.refused hc hr
      exact ⟨f, ht, rfl⟩
    · obtain ⟨_, ht, ⟨⟩⟩ := hy.cut hi
      exact ⟨f, ht, rfl⟩
  · intro a added after hy
    refine (hn a after).mono fun more result last hm => ⟨hy.live.append hm.live, ?_, ?_, ?_⟩
    · intro hc hr
      obtain ⟨_, _, ⟨⟩⟩ := hy.refused hc hr
    · rintro ⟨s, hs, hi⟩
      rcases List.mem_append.mp hs with hs | hs
      · obtain ⟨_, _, ⟨⟩⟩ := hy.cut ⟨s, hs, hi⟩
      · exact hm.cut ⟨s, hs, hi⟩
    · rintro ⟨s, hs, hv⟩
      rcases List.mem_append.mp hs with hs | hs
      · obtain ⟨_, ⟨⟩⟩ := hy.vain ⟨s, hs, hv⟩
      · exact hm.vain ⟨s, hs, hv⟩

/-- What a failure was one of does not change that it is told, if that is told by its cause. -/
theorem within {plain : Action ω α} {noting : Action (Noted ω (Started ω)) α} {operation : String}
    (ht : ∀ f, told f → told (f.within operation))
    (h : Shadows plain noting w (Yields told ready w)) :
    Shadows (plain.within operation) (noting.within operation) w (Yields told ready w) := by
  have hlift : ∀ {result : Except Failure α}, (∃ f, told f ∧ result = .error f) →
      ∃ f, told f ∧ result.mapError (·.within operation) = .error f := by
    rintro _ ⟨f, hf, rfl⟩
    exact ⟨f.within operation, ht f hf, rfl⟩
  refine Shadows.within (h.mono fun added result after hy => ⟨hy.live, ?_, ?_, ?_⟩)
  · intro hc hr
    exact hlift (hy.refused hc hr)
  · intro hi
    exact hlift (hy.cut hi)
  · intro hv
    obtain ⟨f, rfl⟩ := hy.vain hv
    exact ⟨f.within operation, rfl⟩

end Yields

/-- The failure of an operation in a run that is cancelled. -/
def cancelledIn (operation : String) : Failure := .of (.cancelled operation)

theorem runCommand_yields [Host ω] (launch : Launch) (operation : String) (w : ω) :
    Shadows (runCommand launch operation) (runCommand launch operation) w
      (Yields (· = cancelledIn operation) True w) := by
  intro before
  let s : Noted ω (Started ω) := ⟨w, before⟩
  cases hc : cancelled (passes w) with
  | true =>
    have hn : cancelled (passes s) = true := hc
    rw [runCommand_of_cancelled hc, runCommand_of_cancelled hn]
    refine ⟨[], ⟨.pass (.nothing _), fun _ _ => ⟨_, rfl, rfl⟩, ?_, fun _ => ⟨_, rfl⟩⟩,
      by rw [List.append_nil]; rfl⟩
    rintro ⟨_, ⟨⟩, -⟩
  | false =>
    have hn : cancelled (passes s) = false := hc
    rcases hs : Host.start launch (passes (passes w)) with ⟨attempt, after⟩
    have hnoted : Host.start launch (passes (passes s)) =
        (attempt, ⟨after, before ++ [⟨launch, passes (passes w), attempt, after⟩]⟩) := by
      simp only [Host.start, s, passes, hs]
    rw [runCommand_of_start hc hs, runCommand_of_start hn hnoted]
    refine ⟨_, ⟨.pass (.start hc rfl hs (.nothing after)), fun ht => ?_, ?_, ?_⟩, rfl⟩
    · rw [stays w ht] at hc
      cases hc
    · rintro ⟨s, hm, hi⟩
      rw [List.mem_singleton.mp hm] at hi
      cases hi
      exact ⟨_, rfl, rfl⟩
    · rintro ⟨s, hm, hv⟩
      rw [List.mem_singleton.mp hm] at hv
      obtain rfl | ⟨problem, rfl⟩ := hv
      · exact ⟨_, rfl⟩
      · exact ⟨_, rfl⟩

namespace Repository

section
variable [Host ω] {w : ω}

/-! ## One operation -/

theorem git_yields (path operation : String) (args : List String) (env : List (String × String))
    (w : ω) :
    Shadows (git path operation args env) (git path operation args env) w
      (Yields (· = cancelledIn operation) True w) := by
  unfold git
  refine Yields.bind (runCommand_yields _ operation w) fun output after => ?_
  split
  · exact .pure (.idle not_false)
  · exact .fail (.idle not_false)

/-- Git, and what is read from its answer. -/
theorem git_yields_read {path operation : String} {args : List String}
    {env : List (String × String)} {read : Output → α} :
    Shadows (git path operation args env >>= fun output => pure (read output))
      (git path operation args env >>= fun output => pure (read output)) w
      (Yields (· = cancelledIn operation) True w) :=
  Yields.bind (git_yields path operation args env w) fun _ _ => .pure (.idle not_false)

/-- A tree is inspected by git only if its directory is there. -/
theorem inspect_yields (root path : String) (w : ω) :
    Shadows (inspect root path) (inspect root path) w
      (Yields (ω := ω) (· = cancelledIn "git rev-parse")
        ((Filed.files w).isDirectory path = true) w) := by
  have hgit (args : List String) (ready : Prop) (v : ω) :
      Shadows (git path "git rev-parse" args []) (git path "git rev-parse" args []) v
        (Yields (· = cancelledIn "git rev-parse") ready v) :=
    (git_yields path "git rev-parse" args [] v).mono fun _ _ _ h =>
      h.mono (fun _ => id) fun _ => trivial
  unfold inspect
  refine .look_bind nofun fun isDirectory hd => ?_
  cases hd
  refine .require_bind (fun hf => .idle ?_) fun _ => ?_
  · rw [hf]
    exact Bool.false_ne_true
  refine Yields.bind (hgit _ _ w) fun inside w₁ => ?_
  refine .require_bind (fun _ => .idle not_false) fun _ => ?_
  refine Yields.bind (hgit _ _ w₁) fun top w₂ => ?_
  refine .look_bind (fun _ _ => .idle not_false) fun place _ => ?_
  refine .look_bind (fun _ _ => .idle not_false) fun base _ => ?_
  exact .require (fun _ => .idle not_false) fun _ => .idle not_false

/-- Carries out an operation on the tree at a path; a tree is opened by itself. -/
def perform (identity : Identity) (path : String) : Event → Action ω Answer
  | .load root path => do
    let _ ← load identity root path
    return .done
  | .addAll => do
    (tree identity path).addAll
    return .done
  | .hasDiffs => return .diffs (← (tree identity path).hasDiffs)
  | .commit message author => do
    (tree identity path).commit message author
    return .done
  | .lastCommitId => return .id (← (tree identity path).lastCommitId)

/-- What the failures of an operation call it. -/
def operationOf : Event → String
  | .load .. => "git rev-parse"
  | .addAll => "git add"
  | .hasDiffs => "git status"
  | .commit .. => "git commit"
  | .lastCommitId => "git rev-parse"

/-- A tree can be opened only in a directory that is there. -/
def Ready (w : ω) : Event → Prop
  | .load _ path => (Filed.files w).isDirectory path = true
  | _ => True

omit [Host ω] in
theorem return_bind (first : Action ω α) (a : β) (next : β → Action ω γ) :
    ((first >>= fun _ => pure a) >>= next) = (first >>= fun _ => next a) := by
  funext w
  rcases h : first w with ⟨result, after⟩
  cases result with
  | ok r =>
    have hfirst : (first >>= fun _ => pure a) w = (.ok a, after) := Action.andThen_ok h
    rw [Action.andThen_ok hfirst, Action.andThen_ok h]
  | error f =>
    have hfirst : (first >>= fun _ => pure a) w = (.error f, after) := Action.andThen_error h
    rw [Action.andThen_error hfirst, Action.andThen_error h]

/-- **One operation.** Its starts are live, and it fails as cancelled if the run is cancelled before
it or if a program of its own is interrupted. -/
theorem perform_yields (identity : Identity) (path : String) (e : Event) (w : ω) :
    Shadows (perform identity path e) (perform identity path e) w
      (Yields (· = cancelledIn (operationOf e)) (Ready w e) w) := by
  cases e with
  | load root path =>
    simp only [perform, load, return_bind]
    exact Yields.bind (inspect_yields root path w) fun _ _ => .pure (.idle not_false)
  | addAll => exact Yields.bind git_yields_read fun _ _ => .pure (.idle not_false)
  | hasDiffs => exact Yields.bind git_yields_read fun _ _ => .pure (.idle not_false)
  | commit message author => exact Yields.bind git_yields_read fun _ _ => .pure (.idle not_false)
  | lastCommitId => exact Yields.bind git_yields_read fun _ _ => .pure (.idle not_false)

/-! ## Sessions -/

/-- An operation as it was begun and as it ended. -/
structure Performed (ω : Type) where
  event : Event
  start : ω
  result : Except Failure Answer
  finish : ω

/-- The programs that an operation starts. -/
def Performed.started (identity : Identity) (path : String) (p : Performed ω) : List (Started ω) :=
  (perform identity path p.event (⟨p.start, []⟩ : Noted ω (Started ω))).2.notes

/-- Operations in a row, from a world on. Between them anything may happen, but a cancellation is not
undone. -/
inductive Session (identity : Identity) (path : String) : ω → List (Performed ω) → Prop where
  | ended (w : ω) : Session identity path w []
  | next {w : ω} {p : Performed ω} {rest : List (Performed ω)}
    (hc : cancelled w = true → cancelled p.start = true)
    (hp : perform identity path p.event p.start = (p.result, p.finish))
    (h : Session identity path p.finish rest) : Session identity path w (p :: rest)

/-- The operation starts nothing, and fails as cancelled. -/
def Performed.Declined (identity : Identity) (path : String) (p : Performed ω) : Prop :=
  p.started identity path = [] ∧
    (Ready p.start p.event → p.result = .error (cancelledIn (operationOf p.event)))

/-- An operation of a session, with those `later` on the same tree: how it heeds a cancellation. -/
structure Performed.Heeds (identity : Identity) (path : String) (p : Performed ω)
    (later : List (Performed ω)) : Prop where
  noted : perform identity path p.event (⟨p.start, []⟩ : Noted ω (Started ω)) =
    (p.result, ⟨p.finish, p.started identity path⟩)
  live : Live p.start (p.started identity path) p.finish
  before : cancelled p.start = true → p.Declined identity path
  during : (∃ s ∈ p.started identity path, s.attempt = .interrupted) →
    p.result = .error (cancelledIn (operationOf p.event)) ∧ cancelled p.finish = true
  /-- The run was cancelled between the look and the start of the program. -/
  late : (∃ s ∈ p.started identity path, cancelled s.start = true) →
    (∃ f, p.result = .error f) ∧ cancelled p.finish = true
  behind : cancelled p.finish = true → ∀ q ∈ later, q.Declined identity path

section
variable {identity : Identity} {path : String} {p : Performed ω} {h : List (Performed ω)}

/-- Noting the programs of an operation changes nothing. -/
theorem performed_yields (hp : perform identity path p.event p.start = (p.result, p.finish)) :
    perform identity path p.event (⟨p.start, []⟩ : Noted ω (Started ω)) =
        (p.result, ⟨p.finish, p.started identity path⟩) ∧
      Yields (· = cancelledIn (operationOf p.event)) (Ready p.start p.event) p.start
        (p.started identity path) p.result p.finish := by
  obtain ⟨added, hy, he⟩ := perform_yields identity path p.event p.start []
  rw [hp] at hy he
  have hadded : p.started identity path = added := by
    unfold Performed.started
    rw [he, List.nil_append]
  rw [hadded]
  exact ⟨he, hy⟩

theorem Session.performs (hs : Session identity path w h) :
    ∀ p ∈ h, perform identity path p.event p.start = (p.result, p.finish) := by
  induction hs with
  | ended => exact fun _ hp => absurd hp List.not_mem_nil
  | next _ hp _ ih => exact List.forall_mem_cons.mpr ⟨hp, ih⟩

/-- Every operation that follows a cancellation is begun in a run that is cancelled. -/
theorem Session.cancelled_start (hs : Session identity path w h) (hc : cancelled w = true) :
    ∀ p ∈ h, cancelled p.start = true := by
  induction hs with
  | ended => exact fun _ hp => absurd hp List.not_mem_nil
  | next hw hp _ ih =>
    have hstart := hw hc
    obtain ⟨-, hy⟩ := performed_yields hp
    exact List.forall_mem_cons.mpr ⟨hstart, ih (hy.live.eq_nil_of_cancelled hstart).2⟩

end

/-! ## The commit step -/

/-- A failure that tells of the cancellation. -/
def TellsCancelled (f : Failure) : Prop := f.code = .runCancelled

/-- Git within a sequence, where nothing is said of a run that is cancelled before it. -/
theorem git_yields_code {path operation : String} {args : List String}
    {env : List (String × String)} {read : Output → α} :
    Shadows (git path operation args env >>= fun output => pure (read output))
      (git path operation args env >>= fun output => pure (read output)) w
      (Yields TellsCancelled False w) :=
  git_yields_read.mono fun _ _ _ h => h.mono (fun f hf => by rw [hf]; rfl) False.elim

theorem commitChanges_yields (identity : Identity) (path : String) (ctx : StepContext)
    (config : CommitConfig) (w : ω) :
    Shadows (commitChanges (tree identity path) ctx config)
      (commitChanges (tree identity path) ctx config) w (Yields TellsCancelled False w) := by
  unfold commitChanges
  refine Yields.bind git_yields_code fun _ w₁ => ?_
  refine Yields.bind git_yields_code fun dirty w₂ => ?_
  cases dirty with
  | false => exact Yields.bind git_yields_code fun _ _ => .pure (.idle not_false)
  | true =>
    rw [Action.within_ofExcept, Action.within_ofExcept]
    refine .ofExcept_bind (fun _ _ => .idle not_false) fun message _ => ?_
    refine Yields.bind git_yields_code fun _ w₃ => ?_
    exact Yields.bind git_yields_code fun _ _ => .pure (.idle not_false)

/-- **The commit step.** It never looks whether the run is cancelled, but what it starts is live, and
it fails as cancelled if a program is interrupted. -/
theorem commitStep_yields (identity : Identity) (ctx : StepContext) (w : ω) :
    Shadows (commitStep (load identity) ctx) (commitStep (load identity) ctx) w
      (Yields (ω := ω) TellsCancelled False w) := by
  unfold commitStep
  refine .ofExcept_bind (fun _ _ => .idle not_false) fun config _ => ?_
  refine .look_bind (fun _ _ => .idle not_false) fun path _ => ?_
  simp only [load, Action.within_return_bind]
  refine Yields.bind (Yields.within (fun f hf => hf) ?_) fun _ after => ?_
  · refine (inspect_yields ctx.workDir path w).mono fun _ _ _ h => ?_
    exact h.mono (fun f hf => by rw [hf]; rfl) False.elim
  · exact commitChanges_yields identity path ctx config after

end

/-! ## A cancellation in a session -/

section
variable [Watched ω] {identity : Identity}

theorem declined_of_cancelled {path : String} {p : Performed ω}
    (hp : perform identity path p.event p.start = (p.result, p.finish))
    (hc : cancelled p.start = true) : p.Declined identity path := by
  obtain ⟨-, hy⟩ := performed_yields hp
  refine ⟨(hy.live.eq_nil_of_cancelled hc).1, fun hr => ?_⟩
  obtain ⟨_, rfl, hf⟩ := hy.refused hc hr
  exact hf

/-- **Sessions.** A session goes silent with the cancellation of the run. -/
theorem Session.silent {path : String} {w : ω} {h : List (Performed ω)}
    (hs : Session identity path w h) :
    Silent w (h.flatMap (Performed.started identity path)) := by
  induction hs with
  | ended w => exact .nothing w
  | next hw hp _ ih =>
    obtain ⟨-, hy⟩ := performed_yields hp
    rw [List.flatMap_cons]
    exact ih.append hw hy.live

theorem Session.heeds {path : String} {w : ω} {earlier later : List (Performed ω)} {p : Performed ω}
    (h : Session identity path w (earlier ++ p :: later)) : p.Heeds identity path later := by
  induction earlier generalizing w with
  | cons first earlier ih => cases h with | next _ _ h => exact ih h
  | nil =>
    cases h with
    | next hw hp h =>
      obtain ⟨hnoted, hy⟩ := performed_yields hp
      refine ⟨hnoted, hy.live, declined_of_cancelled hp, ?_, ?_, fun hc q hq => ?_⟩
      · rintro ⟨s, hs, hi⟩
        obtain ⟨_, rfl, hf⟩ := hy.cut ⟨s, hs, hi⟩
        exact ⟨hf, hy.live.cancelled_of_interrupted hs hi⟩
      · rintro ⟨s, hs, hc⟩
        obtain ⟨hvain, hfinish⟩ := hy.live.cancelled_of_start hs hc
        exact ⟨hy.vain ⟨s, hs, hvain⟩, hfinish⟩
      · exact declined_of_cancelled (h.performs q hq) (h.cancelled_start hc q hq)

/-! ## A cancellation in a run -/

variable {registry : Registry (Noted ω (Started ω))} {entry : Registration (Noted ω (Started ω))}

/-- What a commit step of a run comes to. -/
theorem executeStep_yields (hl : registry.lookup commitStepType = .ok entry)
    (hr : entry.runner = commitStep (load identity)) {workDir : String}
    {a : Execution (Noted ω (Started ω))} (ht : a.step.type = commitStepType)
    (ha : executeStep registry workDir a.step a.aliasName a.state a.start =
      (a.outcome, a.finish)) :
    ∃ added, a.finish.notes = a.start.notes ++ added ∧
      Yields TellsCancelled False a.start.world added a.outcome a.finish.world := by
  have hrunner : ∀ {entry' : Registration (Noted ω (Started ω))}
      {returned : Except Failure StepResult} {after : Noted ω (Started ω)},
      registry.lookup a.step.type = .ok entry' →
      entry'.runner (contextOf workDir a.step a.aliasName a.state) a.start = (returned, after) →
      ∃ added, after.notes = a.start.notes ++ added ∧
        Yields TellsCancelled False a.start.world added returned after.world := by
    intro entry' returned after hl' hran
    rw [ht, hl, Except.ok.injEq] at hl'
    subst hl'
    rw [hr] at hran
    obtain ⟨added, hy, he⟩ := commitStep_yields identity
      (contextOf workDir a.step a.aliasName a.state) a.start.world a.start.notes
    rw [hran] at he
    cases he
    exact ⟨added, rfl, hy⟩
  have hidle : ∀ f, ∃ added, a.start.notes = a.start.notes ++ added ∧
      Yields TellsCancelled False a.start.world added (.error f : Except Failure StepResult)
        a.start.world :=
    fun f => ⟨[], (List.append_nil _).symm, .idle not_false⟩
  have hends := executeStep_ends ha
  generalize a.outcome = outcome at hends ⊢
  generalize a.finish = finish at hends ⊢
  cases hends with
  | cancelled _ => exact hidle _
  | missing _ _ => exact hidle _
  | invalid _ _ _ => exact hidle _
  | failed _ hl' _ hran => exact hrunner hl' hran
  | overtaken _ hl' _ hran _ =>
    obtain ⟨added, hnotes, hy⟩ := hrunner hl' hran
    refine ⟨added, hnotes, hy.live, nofun, fun hi => ?_, fun _ => ⟨_, rfl⟩⟩
    obtain ⟨_, _, ⟨⟩⟩ := hy.cut hi
  | done _ hl' _ hran _ => exact hrunner hl' hran

/-- **Git after a cancellation.** Whatever the programs do, and whenever the run is cancelled:

* a program is interrupted iff the watch over it sees the run cancelled before it sees the program
  end; and one that is started in a cancelled run is interrupted, if it can be started at all;
* in every session on a tree, nothing is started once the run is cancelled, but for one program, as
  the last, that had its look at the run before; an operation that is interrupted fails as cancelled,
  named for itself, and so does every later one, unless it is to open a tree where there is no
  directory;
* in every run, a step that finds the run cancelled does nothing, and the run ends there; a commit
  step goes silent with the cancellation, and one that leaves the run cancelled, be it that a program
  of it was interrupted or started too late, has failed, as cancelled if it was interrupted, and the
  run ends there, in the world that the step leaves: no later step starts anything. -/
theorem silent_after_cancellation (identity : Identity) :
    (∀ (launch : Launch) (w : ω),
      ((Host.start launch w).1 = .interrupted ↔
        ∃ seen after, Watched.spawn launch w = (.ok seen, after) ∧ seen.SeesCancelled) ∧
      (cancelled w = true → (Host.start launch w).1.Vain)) ∧
    (∀ (path : String) (w : ω) (h : List (Performed ω)), Session identity path w h →
      Silent w (h.flatMap (Performed.started identity path)) ∧
      ∀ earlier p later, h = earlier ++ p :: later → p.Heeds identity path later) ∧
    ∀ (registry : Registry (Noted ω (Started ω))) (entry : Registration (Noted ω (Started ω))),
      registry.lookup commitStepType = .ok entry → entry.runner = commitStep (load identity) →
      ∀ (steps : List Step) (ctx : RunContext) (w : Noted ω (Started ω)) (i : Nat)
        (a : Execution (Noted ω (Started ω))),
        (executions steps registry ctx w)[i]? = some a →
        (cancelled a.start = true →
          ∃ r, run steps registry ctx w = (.ok r, a.start) ∧
            r.StopsAt i a.aliasName (.of (.cancelled "step start"))) ∧
        (a.step.type = commitStepType →
          ∃ added, a.finish.notes = a.start.notes ++ added ∧
            Live a.start.world added a.finish.world ∧ Silent a.start.world added ∧
            ((∃ s ∈ added, s.attempt = .interrupted ∨ cancelled s.start = true) →
              cancelled a.finish = true) ∧
            (cancelled a.finish = true →
              ∃ r f, run steps registry ctx w = (.ok r, a.finish) ∧ r.StopsAt i a.aliasName f ∧
                ((∃ s ∈ added, s.attempt = .interrupted) → f.code = .runCancelled))) := by
  refine ⟨fun launch w => ⟨start_interrupted_iff, fun hc => (start_of_cancelled rfl hc).1⟩,
    fun path w h hs => ⟨hs.silent, ?_⟩, ?_⟩
  · rintro earlier p later rfl
    exact hs.heeds
  intro registry entry hl hr steps ctx w i a ha
  have hexec := executions_executes (List.mem_of_getElem? ha)
  refine ⟨fun hc => ?_, fun ht => ?_⟩
  · obtain ⟨hends, -⟩ := executeStep_of_cancelled registry ctx.workDir a.step a.aliasName a.state hc
    rw [hends, Prod.mk.injEq] at hexec
    obtain ⟨houtcome, hfinish⟩ := hexec
    obtain ⟨r, f, hf, hrun, hstop⟩ := run_of_cancelled ha (hfinish ▸ hc)
    rw [← houtcome, Except.error.injEq] at hf
    subst hf
    rw [← hfinish] at hrun
    exact ⟨r, hrun, hstop⟩
  · obtain ⟨added, hnotes, hy⟩ := executeStep_yields hl hr ht hexec
    refine ⟨added, hnotes, hy.live, hy.live.silent, ?_, fun hc => ?_⟩
    · rintro ⟨s, hs, hi | hc⟩
      · exact hy.live.cancelled_of_interrupted hs hi
      · exact (hy.live.cancelled_of_start hs hc).2
    · obtain ⟨r, f, hf, hrun, hstop⟩ := run_of_cancelled ha hc
      refine ⟨r, f, hrun, hstop, fun hi => ?_⟩
      obtain ⟨g, hg, hout⟩ := hy.cut hi
      rw [hf] at hout
      cases hout
      exact hg

end

/-! ## A git that hangs -/

/-- A run in a box with a working tree. -/
structure Vigil where
  cancelled : Bool

/-- Git answers at once where the tree lies; anything else that it is asked hangs, and the run is
cancelled meanwhile. -/
instance : Watched Vigil where
  cancelled := Vigil.cancelled
  files _ := deskFiles
  spawn launch w :=
    if w.cancelled then (.ok ⟨[⟨true, .running⟩], rfl⟩, w)
    else if launch.args = ["rev-parse", "--is-inside-work-tree"] then
      (.ok ⟨[⟨false, .running⟩, ⟨false, .ended ⟨.exited 0, Utf8.encode "true\n", []⟩⟩], rfl⟩, w)
    else if launch.args = ["rev-parse", "--show-toplevel"] then
      (.ok ⟨[⟨false, .ended ⟨.exited 0, Utf8.encode "/box\n", []⟩⟩], rfl⟩, w)
    else (.ok ⟨[⟨false, .running⟩, ⟨true, .running⟩], rfl⟩, ⟨true⟩)
  refused_stays := by
    intro launch w problem w' h
    split at h
    · cases h
    · split at h
      · cases h
      · split at h <;> cases h
  atOnce := by
    intro launch w seen w' h hc
    rw [if_pos hc] at h
    cases h
    exact ⟨_, _, rfl, rfl⟩
  interrupted_stays := by
    intro launch w seen w' h hi
    split at h
    · cases h
      assumption
    · split at h
      · cases h
        cases hi
      · split at h
        · cases h
          cases hi
        · cases h
          rfl

theorem eq_of_cancelled_vigil {w : Vigil} (h : cancelled w = true) : w = ⟨true⟩ := by
  cases w
  cases h
  rfl

theorem answers_vigil : Answers "/box" "/box" (⟨false⟩ : Vigil) ⟨false⟩ ⟨false⟩ where
  live := rfl
  inside := ⟨_, rfl, rfl, outputText_line "true" []⟩
  unbroken := rfl
  top := ⟨[], rfl⟩

theorem isDirectory_vigil (w : Vigil) : (Filed.files w).isDirectory "/box" = true :=
  FileSystem.isDirectory_of_resolve resolve_deskFiles.1 rfl

theorem load_vigil :
    load .none "/box" "/box" (⟨false⟩ : Vigil) = (.ok (tree .none "/box"), ⟨false⟩) :=
  load_at_root .none answers_vigil (by decide) (isDirectory_vigil _) canonicalize_deskFiles.1

/-- The tree is opened, and to stage its changes hangs; two operations more are tried. -/
def vigilSession : List (Performed Vigil) :=
  [⟨.load "/box" "/box", ⟨false⟩, .ok .done, ⟨false⟩⟩,
    ⟨.addAll, ⟨false⟩, .error (cancelledIn "git add"), ⟨true⟩⟩,
    ⟨.hasDiffs, ⟨true⟩, .error (cancelledIn "git status"), ⟨true⟩⟩,
    ⟨.load "/box" "/box", ⟨true⟩, .error (cancelledIn "git rev-parse"), ⟨true⟩⟩]

theorem session_vigil : Session .none "/box" (⟨false⟩ : Vigil) vigilSession := by
  have hload : perform .none "/box" (.load "/box" "/box") (⟨false⟩ : Vigil) =
      (.ok .done, ⟨false⟩) := Action.andThen_ok load_vigil
  have hagain : perform .none "/box" (.load "/box" "/box") (⟨true⟩ : Vigil) =
      (.error (cancelledIn "git rev-parse"), ⟨true⟩) := by
    obtain ⟨added, hy, -⟩ := perform_yields .none "/box" (.load "/box" "/box") (⟨true⟩ : Vigil) []
    obtain ⟨_, rfl, hf⟩ := hy.refused rfl (isDirectory_vigil _)
    exact Prod.ext hf (eq_of_cancelled_vigil (hy.live.eq_nil_of_cancelled rfl).2)
  exact .next id hload (.next id rfl (.next id rfl (.next id hagain (.ended _))))

def vigilRegistry : Registry (Noted Vigil (Started Vigil)) :=
  ⟨[⟨commitStepType, commitStep (load .none), commitSchemaDocument, commitRules.validator⟩]⟩

def vigilSteps : List Step :=
  [⟨some "first", "git-commit", [("path", .string ".")]⟩,
    ⟨none, "git-commit", [("path", .string ".")]⟩]

theorem commitStep_vigil {ctx : StepContext} {config : CommitConfig} (hw : ctx.workDir = "/box")
    (hd : decodeConfig CommitConfig.decode ctx.type ctx.config = .ok config)
    (hp : config.path = ".") :
    commitStep (load .none) ctx (⟨false⟩ : Vigil) = (.error (cancelledIn "git add"), ⟨true⟩) := by
  have hconfig : Action.ofExcept (decodeConfig CommitConfig.decode ctx.type ctx.config)
      (⟨false⟩ : Vigil) = (.ok config, ⟨false⟩) := by rw [hd]; rfl
  have hpath : Action.look (fun w => Sandbox.join (Filed.files w) ctx.workDir config.path)
      (⟨false⟩ : Vigil) = (.ok "/box", ⟨false⟩) := by
    rw [hw, hp]
    exact Prod.ext (Sandbox.join_here _ _) rfl
  unfold commitStep
  rw [Action.andThen_ok hconfig, Action.andThen_ok hpath, hw,
    Action.andThen_ok (Action.within_ok load_vigil)]
  rfl

/-- The session goes silent with its second operation, and the run stops at its first step. -/
theorem silent_after_cancellation_vigil :
    Silent (⟨false⟩ : Vigil) (vigilSession.flatMap (Performed.started .none "/box")) ∧
      (∀ p ∈ vigilSession[1]?, (p.started .none "/box").map (·.attempt) = [.interrupted]) ∧
      (∀ q ∈ vigilSession.drop 2, q.Declined .none "/box") ∧
      ∃ r f after, run vigilSteps vigilRegistry ⟨"/box", "step"⟩ ⟨⟨false⟩, []⟩ = (.ok r, after) ∧
        r.StopsAt 0 "first" f := by
  obtain ⟨-, hsession, hrun⟩ := @silent_after_cancellation Vigil _ .none
  obtain ⟨hsilent, hheeds⟩ := hsession "/box" _ _ session_vigil
  refine ⟨hsilent, ?_, (hheeds [_] _ _ rfl).behind rfl, ?_⟩
  · rintro _ ⟨⟩
    rfl
  have haliases : resolveAliases vigilSteps "step" = .ok ["first", "step-1"] := by rfl
  let a := execution vigilRegistry "/box" ⟨some "first", "git-commit", [("path", .string ".")]⟩
    "first" .empty ⟨⟨false⟩, []⟩
  have ha : (executions vigilSteps vigilRegistry ⟨"/box", "step"⟩ ⟨⟨false⟩, []⟩)[0]? = some a := by
    unfold executions
    rw [haliases]
    simp only [vigilSteps, List.zip_cons_cons, history_cons _ _ _ _ _ rfl, List.getElem?_cons_zero]
    rfl
  have hc : cancelled a.finish = true := by
    obtain ⟨added, -, he⟩ := commitStep_yields .none (contextOf "/box" a.step "first" .empty)
      (⟨false⟩ : Vigil) []
    rw [@commitStep_vigil (contextOf "/box" a.step "first" .empty) _ rfl rfl rfl] at he
    have hends : executeStep vigilRegistry "/box" a.step "first" .empty ⟨⟨false⟩, []⟩ =
        (.error (stopOf (.error (cancelledIn "git add"))), ⟨⟨true⟩, [] ++ added⟩) :=
      (executeStep_of_overtaken rfl rfl rfl he rfl).1
    show cancelled (executeStep vigilRegistry "/box" a.step "first" .empty ⟨⟨false⟩, []⟩).2 = true
    rw [hends]
    rfl
  obtain ⟨added, -, -, -, -, hstop⟩ := (hrun vigilRegistry _ rfl rfl _ _ _ _ _ ha).2 rfl
  obtain ⟨r, f, hr, hstops, -⟩ := hstop hc
  exact ⟨r, f, _, hr, hstops⟩

/-! ## A cancellation behind the look -/

/-- A run that is cancelled after so many moments. -/
structure Brink where
  left : Nat

/-- Git ends at once. -/
instance : Watched Brink where
  cancelled w := w.left = 0
  passes w := ⟨w.left - 1⟩
  stays w h := by
    simp only [decide_eq_true_eq] at h ⊢
    omega
  files _ := deskFiles
  spawn _ w :=
    (.ok ⟨[⟨w.left = 0, .ended ⟨.exited 0, [], []⟩⟩], by unfold watch; split <;> rfl⟩, w)
  refused_stays h := by cases h
  atOnce h hc := by
    cases h
    exact ⟨_, _, rfl, hc⟩
  interrupted_stays h hi := by
    cases h
    obtain ⟨before, look, after, hlooks, hlook, -⟩ := (Watch.attempt_interrupted_iff _).mp hi
    cases before with
    | nil => cases hlooks; exact hlook
    | cons _ before => simp at hlooks

/-- The run is cancelled while the changes are about to be staged. -/
def brinkSession : List (Performed Brink) :=
  [⟨.addAll, ⟨2⟩, .error (cancelledIn "git add"), ⟨0⟩⟩]

/-- The look finds the run going on, and then it is cancelled: git is started all the same, and is
killed. -/
theorem started_after_cancellation :
    Session .none "/box" (⟨2⟩ : Brink) brinkSession ∧
      ∃ s ∈ brinkSession.flatMap (Performed.started .none "/box"),
        s.launch.args = ["add", "--all", "."] ∧ cancelled s.start = true ∧
        ∃ seen, Watched.spawn s.launch s.start = (.ok seen, s.after) ∧ seen.AtOnce :=
  ⟨.next id rfl (.ended _), ⟨⟨"/box", "git", ["add", "--all", "."], []⟩, ⟨0⟩, .interrupted, ⟨0⟩⟩,
    List.mem_singleton_self _, rfl, rfl, _, rfl, _, _, rfl, rfl⟩

end Repository
end StepPipeline

import StepPipeline.Proofs.Commit.Guard
import StepPipeline.Proofs.Files.Trails
import StepPipeline.Proofs.Text.Octets

/-!
# Which repositories are opened

Git tells where the working tree of a directory starts by a path on a line of its own. The tree is
opened if that place lies under the root, both resolved and compared name by name. The line is read
as a text without the blanks around it. So the answer is right for a directory whose path is a text
without a blank at its ends, if both it and the root have canonical paths; for a directory whose path
has one, another path is resolved.

**Answers (`Answers`).** Git answers both questions, and the run is not cancelled meanwhile.

**Results.**
* `load_answered`, `load_unresolved`: whatever git answers, the place that is compared is that of
  the text without the blanks around it, if something is there.
* `load_decides`: so for a directory without such blanks the tree is opened iff the canonical path of
  that directory lies under that of the root.
* `load_mistakes_blanks`: with a blank at its end, a directory under the root is refused, and one
  above the root is taken for another one under it.
-/
namespace StepPipeline.Repository

open Cancellable

variable {ω : Type}

section
variable [Host ω] {root path top : String} {w u v : ω} {base place : List String}

/-- Git answers that the directory is in a working tree, and `top` for the place where that starts.
The worlds are those before it is asked, behind the first answer, and behind the second. -/
structure Answers (path top : String) (w u v : ω) : Prop where
  live : cancelled (passes w) = false
  inside : ∃ output, Host.start (insideCheck path) (passes (passes w)) = (.finished output, u) ∧
    output.success = true ∧ outputText output = "true"
  unbroken : cancelled (passes u) = false
  top : ∃ stderr, Host.start (topCheck path) (passes (passes u)) =
    (.finished ⟨.exited 0, Utf8.encode (top ++ "\n"), stderr⟩, v)

theorem git_finished {operation : String} {args : List String} {env : List (String × String)}
    {output : Output} {after : ω} (hc : cancelled (passes w) = false)
    (hs : Host.start ⟨path, "git", args, env⟩ (passes (passes w)) = (.finished output, after))
    (hok : output.success = true) : git path operation args env w = (.ok output, after) := by
  have hrun : runCommand ⟨path, "git", args, env⟩ operation w = (.ok output, after) :=
    runCommand_of_start hc hs
  unfold git
  rw [Action.andThen_ok hrun, if_pos hok]
  rfl

/-- A text on a line of its own is read without the blanks around it. -/
theorem outputText_line (text : String) (stderr : Bytes) :
    outputText ⟨.exited 0, Utf8.encode (text ++ "\n"), stderr⟩ = Text.trim text := by
  rw [outputText, Utf8.decodeLossy_encode, Text.trim_line]

theorem canonical_ok (h : (Filed.files w).canonicalize path = .ok place) :
    canonical path w = (.ok place, w) := by
  rw [canonical, Action.look, h]
  rfl

/-- The refusal of a repository that does not lie under the root. -/
def outside (base place : List String) : Failure :=
  ((Failure.of (.pathEscape (Path.ofNames base) (Path.ofNames place))).within
    "repository owning the working tree").advise
      "Initialise a repository inside the working directory"

/-- **What is compared.** The place of the root, and that of the answer without the blanks around
it. -/
theorem inspect_answered (h : Answers path top w u v)
    (hpath : (Filed.files w).isDirectory path = true) :
    inspect root path w = (do
      let place ← canonical (Text.trim top)
      let base ← canonical root
      Action.require (base.isPrefixOf place) (outside base place) : Action ω Unit) v := by
  obtain ⟨output, hinside, hsuccess, htrue⟩ := h.inside
  obtain ⟨stderr, hanswer⟩ := h.top
  have hlook : Action.look (fun w => .ok ((Filed.files w).isDirectory path)) w =
      (.ok true, w) := by rw [Action.look, hpath]
  have hrequire {holds : Bool} (hh : holds = true) (f : Failure) (x : ω) :
      Action.require holds f x = (.ok (), x) := by rw [Action.require, if_pos hh]
  unfold inspect
  rw [Action.andThen_ok hlook, Action.andThen_ok (hrequire rfl _ w),
    Action.andThen_ok (git_finished h.live hinside hsuccess),
    Action.andThen_ok (hrequire (decide_eq_true htrue) _ u),
    Action.andThen_ok (git_finished h.unbroken hanswer rfl), outputText_line]
  rfl

theorem load_answered (identity : Identity) (h : Answers path top w u v)
    (hpath : (Filed.files w).isDirectory path = true)
    (hroot : (Filed.files v).canonicalize root = .ok base)
    (htop : (Filed.files v).canonicalize (Text.trim top) = .ok place) :
    load identity root path w =
      (if base <+: place then .ok (tree identity path) else .error (outside base place), v) := by
  have hcompared : inspect root path w =
      Action.require (base.isPrefixOf place) (outside base place) v := by
    rw [inspect_answered h hpath, Action.andThen_ok (canonical_ok htop),
      Action.andThen_ok (canonical_ok hroot)]
  unfold load
  by_cases hp : base <+: place
  · have hin : inspect root path w = (.ok (), v) := by
      rw [hcompared, List.isPrefixOf_iff_prefix.mpr hp]
      rfl
    rw [Action.andThen_ok hin, if_pos hp]
    rfl
  · have hout : inspect root path w = (.error (outside base place), v) := by
      rw [hcompared, Bool.eq_false_iff.mpr fun ht => hp (List.isPrefixOf_iff_prefix.mp ht)]
      rfl
    rw [Action.andThen_error hout, if_neg hp]

/-- A working tree that starts at the root itself is opened. -/
theorem load_at_root (identity : Identity) (h : Answers root root w u v)
    (htrim : Text.trim root = root) (hdir : (Filed.files w).isDirectory root = true)
    (hroot : (Filed.files v).canonicalize root = .ok base) :
    load identity root root w = (.ok (tree identity root), v) := by
  rw [load_answered identity h hdir hroot (by rw [htrim]; exact hroot), if_pos List.prefix_rfl]

/-- If nothing is there, the tree is refused. -/
theorem load_unresolved (identity : Identity) (h : Answers path top w u v)
    (hpath : (Filed.files w).isDirectory path = true) {e : FileError}
    (htop : (Filed.files v).canonicalize (Text.trim top) = .error e) :
    load identity root path w =
      (.error (.of (.io e.message (some ("resolve " ++ Text.trim top)))), v) := by
  have hcanonical : canonical (Text.trim top) v =
      (.error (.of (.io e.message (some ("resolve " ++ Text.trim top)))), v) := by
    rw [canonical, Action.look, htop]
    rfl
  have hin : inspect root path w =
      (.error (.of (.io e.message (some ("resolve " ++ Text.trim top)))), v) := by
    rw [inspect_answered h hpath, Action.andThen_error hcanonical]
  unfold load
  rw [Action.andThen_error hin]

/-- **The decision.** Let the path be that of a directory, and let git answer with a path that has
no blank at its ends. If both that path and the root have canonical paths, the tree is opened if the
one continues the other, name by name, and else refused with both. -/
theorem load_decides (identity : Identity) (h : Answers path top w u v)
    (hpath : (Filed.files w).isDirectory path = true)
    (hroot : (Filed.files v).canonicalize root = .ok base)
    (htop : (Filed.files v).canonicalize top = .ok place) (hblanks : Text.trim top = top) :
    (base <+: place → load identity root path w = (.ok (tree identity path), v)) ∧
      (¬ base <+: place → ∃ f, load identity root path w = (.error f, v) ∧
        f.cause = .pathEscape (Path.ofNames base) (Path.ofNames place) ∧
        f.code.name = "sandbox.path_escape") := by
  have hload := load_answered identity h hpath hroot (by rw [hblanks]; exact htop)
  refine ⟨fun hp => ?_, fun hp => ⟨outside base place, ?_, rfl, rfl⟩⟩
  · rw [hload, if_pos hp]
  · rw [hload, if_neg hp]

end

/-! ## Directories on a desk -/

/-- Directories, and a git that gives the next of its replies, whatever it is asked. -/
structure Desk where
  files : FileSystem
  replies : List String

instance : Host Desk where
  cancelled _ := false
  files := Desk.files
  start _ w :=
    match w.replies with
    | [] => (.refused "no reply", w)
    | reply :: rest => (.finished ⟨.exited 0, Utf8.encode reply, []⟩, { w with replies := rest })

/-- A box, linked to by `near`, with two directories in it; a directory beside it whose name goes on
where its own ends; and a box in a directory whose name without the blank is a link to that box. -/
def deskFiles : FileSystem :=
  ⟨.directory [("box", .directory [("repo", .directory []), ("shed ", .directory [])]),
    ("box-evil", .directory []), ("near", .link "/box"),
    ("up ", .directory [("box", .directory [("sub", .directory [])])]), ("up", .link "/up /box")],
    []⟩

/-- Git says that a working tree starts at `top`. -/
def desk (top : String) : Desk := ⟨deskFiles, ["true\n", top ++ "\n"]⟩

/-- What is left when git has said so. -/
def clearedDesk : Desk := ⟨deskFiles, []⟩

theorem answers_desk (path top : String) :
    Answers path top (desk top) ⟨deskFiles, [top ++ "\n"]⟩ clearedDesk where
  live := rfl
  inside := ⟨_, rfl, rfl, outputText_line "true" []⟩
  unbroken := rfl
  top := ⟨_, rfl⟩

theorem resolve_deskFiles :
    deskFiles.resolve "/box" = .ok ["box"] ∧ deskFiles.resolve "/near" = .ok ["box"] ∧
      deskFiles.resolve "/box-evil" = .ok ["box-evil"] ∧
      deskFiles.resolve "/box/repo" = .ok ["box", "repo"] ∧
      deskFiles.resolve "/box/shed " = .ok ["box", "shed "] ∧
      deskFiles.resolve "/box/shed" = .error .notFound ∧
      deskFiles.resolve "/up " = .ok ["up "] ∧ deskFiles.resolve "/up" = .ok ["up ", "box"] ∧
      deskFiles.resolve "/up /box" = .ok ["up ", "box"] ∧
      deskFiles.resolve "/up /box/sub" = .ok ["up ", "box", "sub"] := by
  have hbox : Path.steps "/box" = ["box"] := by decide
  have hup : Path.steps "/up /box" = ["up ", "box"] := by decide
  rw [FileSystem.resolve_absolute _ "/box" ["box"] (by decide),
    FileSystem.resolve_absolute _ "/near" ["near"] (by decide),
    FileSystem.resolve_absolute _ "/box-evil" ["box-evil"] (by decide),
    FileSystem.resolve_absolute _ "/box/repo" ["box", "repo"] (by decide),
    FileSystem.resolve_absolute _ "/box/shed " ["box", "shed "] (by decide),
    FileSystem.resolve_absolute _ "/box/shed" ["box", "shed"] (by decide),
    FileSystem.resolve_absolute _ "/up " ["up "] (by decide),
    FileSystem.resolve_absolute _ "/up" ["up"] (by decide),
    FileSystem.resolve_absolute _ "/up /box" ["up ", "box"] (by decide),
    FileSystem.resolve_absolute _ "/up /box/sub" ["up ", "box", "sub"] (by decide)]
  have hshort : ¬ FileTree.nameLimit < "shed".utf8ByteSize := by decide
  simp [deskFiles, FileTree.walk, FileTree.at?, FileTree.child?, FileTree.linkLimit,
    List.lookup_cons, hbox, hup, hshort, Path.isAbsolute, -Nat.not_lt]

theorem canonicalize_deskFiles :
    deskFiles.canonicalize "/box" = .ok ["box"] ∧ deskFiles.canonicalize "/near" = .ok ["box"] ∧
      deskFiles.canonicalize "/box-evil" = .ok ["box-evil"] ∧
      deskFiles.canonicalize "/box/repo" = .ok ["box", "repo"] ∧
      deskFiles.canonicalize "/box/shed" = .error .notFound ∧
      deskFiles.canonicalize "/up" = .ok ["up ", "box"] ∧
      deskFiles.canonicalize "/up /box" = .ok ["up ", "box"] := by
  obtain ⟨hbox, hnear, hevil, hrepo, -, hshed, -, hup, hroot, -⟩ := resolve_deskFiles
  have hsteps : Path.steps "/box" = ["box"] := by decide
  have hsteps' : Path.steps "/up /box" = ["up ", "box"] := by decide
  have visits : deskFiles.visits "/near" = [["near"], ["box"]] ∧
      deskFiles.visits "/box/shed" = [["box"], ["box", "shed"]] ∧
      deskFiles.visits "/up" = [["up"], ["up "], ["up ", "box"]] := by
    have hshed : Path.route "/box/shed" = ⟨true, ["box", "shed"]⟩ := by decide
    have hnear : Path.route "/near" = ⟨true, ["near"]⟩ := by decide
    have hup : Path.route "/up" = ⟨true, ["up"]⟩ := by decide
    rw [FileSystem.visits_absolute hshed, FileSystem.visits_absolute hnear,
      FileSystem.visits_absolute hup]
    simp [deskFiles, FileTree.visits, FileTree.at?, FileTree.child?, FileTree.linkLimit,
      List.lookup_cons, hsteps, hsteps', Path.isAbsolute]
  refine ⟨FileSystem.canonicalize_ofNames rfl hbox rfl, ?_,
    FileSystem.canonicalize_ofNames rfl hevil rfl, FileSystem.canonicalize_ofNames rfl hrepo rfl,
    ?_, ?_, FileSystem.canonicalize_ofNames rfl hroot rfl⟩
  · rwa [FileSystem.canonicalize_of_near (by rw [visits.1]; decide)]
  · rwa [FileSystem.canonicalize_of_near (by rw [visits.2.1]; decide)]
  · rwa [FileSystem.canonicalize_of_near (by rw [visits.2.2]; decide)]

theorem isDirectory_desk {path : String} {place : List String} (top : String)
    (h : deskFiles.resolve path = .ok place)
    (hd : ∃ entries, deskFiles.root.at? place = some (.directory entries)) :
    (Filed.files (desk top)).isDirectory path = true := by
  obtain ⟨entries, he⟩ := hd
  exact FileSystem.isDirectory_of_resolve h he

/-- Through a link to the root, a repository under it is opened; one in a directory whose name only
begins like that of the root is refused. -/
theorem load_decides_desk :
    load .none "/near" "/box/repo" (desk "/box/repo") = (.ok (tree .none "/box/repo"), clearedDesk) ∧
      ∃ f, load .none "/box" "/box-evil" (desk "/box-evil") = (.error f, clearedDesk) ∧
        f.cause = .pathEscape "/box" "/box-evil" := by
  obtain ⟨-, -, hevil, hrepo, -⟩ := resolve_deskFiles
  obtain ⟨base, near, evil, repo, -⟩ := canonicalize_deskFiles
  constructor
  · have hpath := isDirectory_desk "/box/repo" hrepo ⟨_, rfl⟩
    exact (load_decides .none (answers_desk "/box/repo" "/box/repo") hpath near repo
      (by decide)).1 (by decide)
  · have hpath := isDirectory_desk "/box-evil" hevil ⟨_, rfl⟩
    obtain ⟨f, hf, hcause, -⟩ := (load_decides .none (answers_desk "/box-evil" "/box-evil") hpath
      base evil (by decide)).2 (by decide)
    exact ⟨f, hf, hcause⟩

/-- **Blanks.** A repository under the root is not found there if its name ends with a blank, and
the one around the root is taken for the root if a link has its name without the blank. -/
theorem load_mistakes_blanks :
    (∃ f, load .none "/box" "/box/shed " (desk "/box/shed ") = (.error f, clearedDesk) ∧
        f.code.name = "internal.io_error") ∧
      load .none "/up /box" "/up /box/sub" (desk "/up ") =
        (.ok (tree .none "/up /box/sub"), clearedDesk) := by
  obtain ⟨-, -, -, -, hblank, -, -, -, -, hsub⟩ := resolve_deskFiles
  obtain ⟨-, -, -, -, hnone, hup, hroot⟩ := canonicalize_deskFiles
  have hshed : Text.trim "/box/shed " = "/box/shed" := by decide
  have hlink : Text.trim "/up " = "/up" := by decide
  constructor
  · have hload := @load_unresolved _ _ "/box" _ _ _ _ _ .none
      (answers_desk "/box/shed " "/box/shed ") (isDirectory_desk _ hblank ⟨_, rfl⟩) .notFound
      (by rw [hshed]; exact hnone)
    exact ⟨_, hload, rfl⟩
  · have hload := load_answered .none (answers_desk "/up /box/sub" "/up ")
      (isDirectory_desk _ hsub ⟨_, rfl⟩) hroot (by rw [hlink]; exact hup)
    rw [hload, if_pos (by decide)]

end StepPipeline.Repository

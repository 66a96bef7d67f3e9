import StepPipeline.Files.Sandbox
import StepPipeline.Proofs.Files.Walk

/-!
# Confinement

A relative path joined onto a root stays inside it, whatever links there are: to themselves, to each
other, upwards, or to places outside.

**Invariant (`Confined`).** The names resolved so far are plain, and none of the paths to them is a
link. Names are taken away at the end (`..`, a link that is followed), or all at once (an absolute
link starts again at the root), and come back one at a time, each looked at when it comes.

**Results.**
* `follow_confined`: following directions keeps the invariant, over any tree of links.
* `join_confined`: a joined path is the root with plain names behind it, of which none is a link; if
  it means anything, that stands under the place of the root, at exactly these names.
-/
namespace StepPipeline.Sandbox

/-- Names below a root from which no link leads away. -/
structure Confined (fs : FileSystem) (root : String) (names : List String) : Prop where
  plain : ∀ n ∈ names, Path.IsName n
  linkless : ∀ front, front ≠ [] → front <+: names →
    fs.linkTarget? (Path.pushAll root front) = none

section
variable {fs : FileSystem} {root : String} {names : List String}

theorem confined_nil : Confined fs root [] where
  plain := by simp
  linkless front hne hp := absurd (List.prefix_nil.mp hp) hne

theorem Confined.dropLast (h : Confined fs root names) : Confined fs root names.dropLast where
  plain n hn := h.plain n (List.dropLast_subset _ hn)
  linkless front hne hp := h.linkless front hne (hp.trans (List.dropLast_prefix names))

theorem Confined.concat (h : Confined fs root names) {step : String} (hs : Path.IsName step)
    (hl : fs.linkTarget? (Path.pushAll root (names ++ [step])) = none) :
    Confined fs root (names ++ [step]) where
  plain n hn := by
    rcases List.mem_append.mp hn with hn | hn
    · exact h.plain n hn
    · rw [List.mem_singleton.mp hn]; exact hs
  linkless front hne hp := by
    rcases List.prefix_concat_iff.mp hp with rfl | hp
    · exact hl
    · exact h.linkless front hne hp

/-- What an absolute link puts in front of the pending directions are directions again. -/
theorem insideRoot_directions {target : String} {steps : List String}
    (h : insideRoot fs root target = some steps) : ∀ s ∈ steps, Path.IsDirection s := by
  have hbeyond {start rest : List Path.Component}
      (hb : Path.beyond start (Path.components target) = some rest) :
      ∀ s, .name s ∈ rest → Path.IsName s := by
    unfold Path.beyond at hb
    split at hb
    · cases hb
      exact fun s hs => Path.isName_of_mem_components (List.mem_of_mem_drop hs)
    · cases hb
  unfold insideRoot at h
  split at h
  · rename_i rest hb
    exact Path.isDirection_of_directions (hbeyond hb) h
  · split at h
    · obtain ⟨rest, hb, hd⟩ := Option.bind_eq_some_iff.mp h
      exact Path.isDirection_of_directions (hbeyond hb) hd
    · cases h

theorem directions_append {a b : List String} (ha : ∀ s ∈ a, Path.IsDirection s)
    (hb : ∀ s ∈ b, Path.IsDirection s) : ∀ s ∈ a ++ b, Path.IsDirection s := by
  intro s hs
  rcases List.mem_append.mp hs with hs | hs
  · exact ha s hs
  · exact hb s hs

/-- **The invariant of the loop.** -/
theorem follow_confined {links : Nat} {resolved pending : List String}
    (hp : ∀ s ∈ pending, Path.IsDirection s) (hc : Confined fs root resolved)
    (h : follow fs root links resolved pending = some names) : Confined fs root names := by
  fun_induction follow fs root links resolved pending with
  | case1 => cases h; exact hc
  | case2 => cases h
  | case3 _ rest _ _ ih =>
    obtain ⟨-, hrest⟩ := List.forall_mem_cons.mp hp
    exact ih hrest hc.dropLast h
  | case4 _ _ step rest hup hl ih =>
    obtain ⟨hstep, hrest⟩ := List.forall_mem_cons.mp hp
    exact ih hrest (hc.concat (hstep.resolve_left hup) hl) h
  | case5 => cases h
  | case6 => cases h
  | case7 _ step rest _ target _ _ _ steps hin ih =>
    obtain ⟨-, hrest⟩ := List.forall_mem_cons.mp hp
    exact ih (directions_append (insideRoot_directions hin) hrest) confined_nil h
  | case8 => cases h
  | case9 _ step rest _ target _ _ _ steps hd ih =>
    obtain ⟨-, hrest⟩ := List.forall_mem_cons.mp hp
    have hsteps := Path.isDirection_of_directions (fun _ => Path.isName_of_mem_components) hd
    exact ih (directions_append hsteps hrest) hc h

theorem names_confined {relative : String} (h : Sandbox.names fs root relative = some names) :
    Confined fs root names := by
  obtain ⟨steps, hd, hf⟩ := Option.bind_eq_some_iff.mp h
  have hsteps := Path.isDirection_of_directions (fun _ => Path.isName_of_mem_components) hd
  exact follow_confined hsteps confined_nil hf

end

/-- **Confinement.** A joined path is the root with plain names behind it, and none of the paths on
the way is a link. So if it means anything, that stands where the root does, under exactly these
names. -/
theorem join_confined {fs : FileSystem} {root relative path : String}
    (h : join fs root relative = .ok path) :
    ∃ names, path = Path.pushAll root names ∧
      Path.components path = Path.components root ++ names.map .name ∧
      Confined fs root names ∧
      ∀ place, fs.resolve path = .ok place →
        ∃ base, fs.rootPlace root = .ok base ∧ place = base ++ names := by
  unfold join at h
  split at h
  · rename_i names hn
    cases h
    have hc := names_confined hn
    exact ⟨names, rfl, Path.components_pushAll hc.plain root, hc,
      fun place hr => FileSystem.resolve_pushAll hc.plain hc.linkless hr⟩
  · cases h

/-- A path that goes nowhere leads to the root. -/
theorem join_here (fs : FileSystem) (root : String) : join fs root "." = .ok root := by
  have hnames : Sandbox.names fs root "." = some [] := by
    rw [Sandbox.names, show Path.directions (Path.components ".") = some [] by decide]
    simp [follow]
  unfold join
  rw [hnames]
  rfl

/-- A box with a directory, a link to it, and an absolute link through that link. -/
def linkedBox : FileSystem :=
  ⟨.directory [("box", .directory [("real", .directory [("dir", .directory [])]),
    ("near", .link "real"), ("far", .link "/box/near/dir")])], []⟩

theorem linkedBox_links :
    linkedBox.linkTarget? "/box/near" = some "real" ∧ linkedBox.linkTarget? "/box/real" = none ∧
      linkedBox.linkTarget? "/box/far" = some "/box/near/dir" ∧
      linkedBox.linkTarget? "/box/real/dir" = none := by
  rw [FileSystem.linkTarget?_absolute _ "/box/near" ["box", "near"] (by decide),
    FileSystem.linkTarget?_absolute _ "/box/real" ["box", "real"] (by decide),
    FileSystem.linkTarget?_absolute _ "/box/far" ["box", "far"] (by decide),
    FileSystem.linkTarget?_absolute _ "/box/real/dir" ["box", "real", "dir"] (by decide)]
  simp [linkedBox, FileTree.linkAt?, FileTree.walk, FileTree.at?, FileTree.child?, List.lookup_cons]

theorem join_linkedBox : join linkedBox "/box" "near/../far" = .ok "/box/real/dir" := by
  obtain ⟨near, real, far, dir⟩ := linkedBox_links
  have hrel : Path.directions (Path.components "near/../far") = some ["near", "..", "far"] := by
    decide
  have hreal : Path.directions (Path.components "real") = some ["real"] := by decide
  have hfar : insideRoot linkedBox "/box" "/box/near/dir" = some ["near", "dir"] := by
    decide
  have hnames : Sandbox.names linkedBox "/box" "near/../far" = some ["real", "dir"] := by
    simp [Sandbox.names, hrel, follow, hreal, hfar, near, real, far, dir, Path.pushAll, Path.push,
      Path.isAbsolute, FileTree.linkLimit]
  unfold join
  rw [hnames]
  rfl

theorem join_confined_linkedBox :
    join linkedBox "/box" "near/../far" = .ok "/box/real/dir" ∧
      ∃ names, "/box/real/dir" = Path.pushAll "/box" names ∧
        Path.components "/box/real/dir" = Path.components "/box" ++ names.map .name ∧
        Confined linkedBox "/box" names ∧
        ∀ place, linkedBox.resolve "/box/real/dir" = .ok place →
          ∃ base, linkedBox.rootPlace "/box" = .ok base ∧ place = base ++ names :=
  ⟨join_linkedBox, join_confined join_linkedBox⟩

end StepPipeline.Sandbox

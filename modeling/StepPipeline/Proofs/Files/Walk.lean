import StepPipeline.Files.Tree
import StepPipeline.Proofs.Files.PathText

/-!
# Resolution in stages

`walk` resolves a path in one go. Here it is cut where the path is: the steps of a root first, then
the names behind it.

**Stages (`descend`).** The steps before others are walked with every link followed; what is left
of the links goes on to the steps behind them (`walk_append`).

**Results.**
* `walk_names`: plain names of which none is a link lead to themselves, and nowhere else.
* `resolve_pushAll`: names behind a root, of which none is a link, lead to the place of the root
  followed by the names.
-/
namespace StepPipeline.FileTree

/-! ## Single steps -/

section
variable (root : FileTree) (follow : Bool) (links : Nat) {here : List String}
  {entries : List (String × FileTree)} (hd : root.at? here = some (.directory entries))
  {step : String} (rest : List String)
include hd

theorem walk_dot :
    root.walk follow links here ("." :: rest) = root.walk follow links here rest := by
  rw [walk]; simp [hd]

theorem walk_up :
    root.walk follow links here (".." :: rest) = root.walk follow links here.dropLast rest := by
  rw [walk]; simp [hd]

variable (hdot : step ≠ ".") (hup : step ≠ "..")
include hdot hup

theorem walk_missing (hl : entries.lookup step = none) :
    root.walk follow links here (step :: rest) =
      .error (if nameLimit < step.utf8ByteSize then .nameTooLong else .notFound) := by
  rw [walk]; simp [hd, hdot, hup, hl]

/-- A step to what is no link. -/
theorem walk_enter {tree : FileTree} (hl : entries.lookup step = some tree)
    (ht : ∀ target, tree ≠ .link target) :
    root.walk follow links here (step :: rest) =
      root.walk follow links (here ++ [step]) rest := by
  rw [walk]
  cases tree with
  | link target => exact absurd rfl (ht target)
  | file content => simp [hd, hdot, hup, hl]
  | directory inner => simp [hd, hdot, hup, hl]

/-- A link at the end stays where it is, unless it is to be followed. -/
theorem walk_link_last {target : String} (hl : entries.lookup step = some (.link target)) :
    root.walk false links here [step] = .ok (here ++ [step]) := by
  rw [walk]; simp [hd, hdot, hup, hl]

theorem walk_link {target : String} (hl : entries.lookup step = some (.link target))
    (hf : follow = true ∨ rest ≠ []) :
    root.walk follow (links + 1) here (step :: rest) =
      root.walk follow links (if Path.isAbsolute target then [] else here)
        (Path.steps target ++ rest) := by
  rw [walk]
  have : ¬(rest = [] ∧ (!follow) = true) := by
    rcases hf with rfl | hr <;> simp_all
  simp only [hd, hdot, hup, hl, this, if_false]

/-- The link behind the last one that may be followed. -/
theorem walk_link_exhausted {target : String} (hl : entries.lookup step = some (.link target))
    (hf : follow = true ∨ rest ≠ []) :
    root.walk follow 0 here (step :: rest) = .error .tooManyLinks := by
  rw [walk]
  have : ¬(rest = [] ∧ (!follow) = true) := by
    rcases hf with rfl | hr <;> simp_all
  simp only [hd, hdot, hup, hl, this, if_false]

end

/-- Only a directory has steps out of it. -/
theorem walk_cons_ok {root : FileTree} {follow : Bool} {links : Nat} {here rest place : List String}
    {step : String} (h : root.walk follow links here (step :: rest) = .ok place) :
    ∃ entries, root.at? here = some (.directory entries) := by
  rw [walk] at h
  split at h
  · exact ⟨_, ‹_›⟩
  · cases h
  · cases h

/-! ## Stages -/

/-- The walk of steps that others follow, so that every link on it is followed: the links that are
left, and where it leads. -/
def descend (root : FileTree) (links : Nat) (here : List String) :
    List String → Except FileError (Nat × List String)
  | [] => .ok (links, here)
  | step :: rest =>
    match root.at? here with
    | some (.directory entries) =>
      if step = "." then descend root links here rest
      else if step = ".." then descend root links here.dropLast rest
      else match entries.lookup step with
        | none => .error (if nameLimit < step.utf8ByteSize then .nameTooLong else .notFound)
        | some (.link target) =>
          match links with
          | 0 => .error .tooManyLinks
          | links + 1 =>
            let start := if Path.isAbsolute target then [] else here
            descend root links start (Path.steps target ++ rest)
        | some _ => descend root links (here ++ [step]) rest
    | some _ => .error .notDirectory
    | none => .error .notFound
termination_by steps => (links, steps.length)

/-- **Stages.** A walk goes on from where its first steps lead, with the links they left. -/
theorem walk_append (root : FileTree) {follow : Bool} {ys : List String}
    (h : follow = true ∨ ys ≠ []) (links : Nat) (here xs : List String) :
    root.walk follow links here (xs ++ ys) =
      (root.descend links here xs).bind fun (links, here) => root.walk follow links here ys := by
  -- The cases are those of `descend`, one for each kind of step.
  fun_induction descend root links here xs with
  | case1 => rfl
  | case2 _ _ _ _ hd ih => rw [← ih]; exact walk_dot _ _ _ hd _
  | case3 _ _ _ _ hd _ ih => rw [← ih]; exact walk_up _ _ _ hd _
  | case4 _ _ _ _ _ hd hdot hup hl => exact walk_missing _ _ _ hd _ hdot hup hl
  | case5 _ _ rest _ hd hdot hup _ hl =>
    exact walk_link_exhausted _ _ hd _ hdot hup hl (h.imp_right (by simp [·]))
  | case6 _ _ rest _ hd hdot hup _ hl _ _ ih =>
    rw [← ih, List.append_assoc]
    exact walk_link _ _ _ hd _ hdot hup hl (h.imp_right (by simp [·]))
  | case7 _ _ _ _ _ hd hdot hup _ ht hl ih =>
    rw [← ih]; exact walk_enter _ _ _ hd _ hdot hup hl ht
  | case8 _ _ _ _ tree ht hd =>
    rw [List.cons_append, walk]
    cases tree with
    | directory entries => exact absurd rfl (ht entries)
    | file content => simp [hd, Except.bind]
    | link target => simp [hd, Except.bind]
  | case9 _ _ _ _ hd => rw [List.cons_append, walk]; simp [hd, Except.bind]

/-! ## Names that are no links -/

theorem at?_append (tree : FileTree) (a b : List String) :
    tree.at? (a ++ b) = (tree.at? a).bind (·.at? b) := by
  induction a generalizing tree with
  | nil => rfl
  | cons name a ih =>
    simp only [List.cons_append, at?, Option.bind_assoc]
    exact Option.bind_congr fun child _ => ih child

theorem at?_concat {tree : FileTree} {here : List String} {entries : List (String × FileTree)}
    (hd : tree.at? here = some (.directory entries)) (name : String) :
    tree.at? (here ++ [name]) = entries.lookup name := by
  rw [at?_append, hd]
  simp [at?, child?]

/-- The target of the link that ends a walk, if one does. -/
def linkAt? (root : FileTree) (links : Nat) (here steps : List String) : Option String :=
  match root.walk false links here steps with
  | .ok names =>
    match root.at? names with
    | some (.link target) => some target
    | _ => none
  | .error _ => none

/-- Names of which none is a link lead to themselves. -/
theorem walk_names {root : FileTree} {links : Nat} {here names place : List String}
    (hn : ∀ n ∈ names, Path.IsName n)
    (hl : ∀ front, front ≠ [] → front <+: names → root.linkAt? links here front = none)
    (h : root.walk true links here names = .ok place) : place = here ++ names := by
  induction names generalizing here with
  | nil => rw [walk] at h; cases h; simp
  | cons name rest ih =>
    obtain ⟨entries, hd⟩ := walk_cons_ok h
    obtain ⟨-, hdot, hup, -⟩ := hn name (by simp)
    cases hlook : entries.lookup name with
    | none => rw [walk_missing _ _ _ hd _ hdot hup hlook] at h; cases h
    | some tree =>
      have ht : ∀ target, tree ≠ .link target := by
        rintro target rfl
        have hnone := hl [name] (by simp) (by simp)
        unfold linkAt? at hnone
        rw [walk_link_last _ _ hd hdot hup hlook] at hnone
        simp [at?_concat hd, hlook] at hnone
      rw [walk_enter _ _ _ hd _ hdot hup hlook ht] at h
      have hplace := ih (fun n hm => hn n (by simp [hm])) ?_ h
      · rw [hplace, List.append_assoc]; rfl
      · intro front hne hp
        have hnone := hl (name :: front) (by simp) (by simpa using hp)
        unfold linkAt? at hnone ⊢
        rwa [walk_enter _ _ _ hd _ hdot hup hlook ht] at hnone

end StepPipeline.FileTree

namespace StepPipeline.FileSystem

/-! ## Paths as the system takes them -/

/-- A text that the system takes for a path. -/
def Admits (path : String) : Prop :=
  '\x00' ∉ path.toList ∧ path ≠ "" ∧ path.utf8ByteSize < FileTree.pathLimit

instance (path : String) : Decidable (Admits path) := by unfold Admits; exact inferInstance

theorem locate_eq_walk {path : String} (h : Admits path) (fs : FileSystem) (follow : Bool) :
    fs.locate follow path =
      fs.root.walk follow FileTree.linkLimit (fs.start path) (Path.steps path) := by
  obtain ⟨hz, he, hl⟩ := h
  unfold locate
  rw [if_neg (by simpa using hz), if_neg he, if_neg (Nat.not_le_of_lt hl)]
  rfl

theorem Admits.of_locate {fs : FileSystem} {follow : Bool} {path : String} {place : List String}
    (h : fs.locate follow path = .ok place) : Admits path := by
  unfold locate at h
  split at h
  · cases h
  · rename_i hz
    split at h
    · cases h
    · rename_i he
      split at h
      · cases h
      · rename_i hl
        exact ⟨by simpa using hz, he, Nat.lt_of_not_le hl⟩

/-- On a text that the system takes, a link is looked up at the end of the walk. -/
theorem linkTarget?_eq {path : String} (h : Admits path) (fs : FileSystem) :
    fs.linkTarget? path =
      fs.root.linkAt? FileTree.linkLimit (fs.start path) (Path.steps path) := by
  have hw := locate_eq_walk h fs false
  unfold linkTarget? FileTree.linkAt?
  generalize fs.locate false path = found at hw ⊢
  subst hw
  rfl

/-- At a text that it does not take, the system finds no link. -/
theorem linkTarget?_of_not_admits {fs : FileSystem} {path : String} (h : ¬Admits path) :
    fs.linkTarget? path = none := by
  unfold linkTarget?
  cases hl : fs.locate false path with
  | ok place => exact absurd (Admits.of_locate hl) h
  | error e => rfl

theorem linkTarget?_absolute (fs : FileSystem) (path : String) (steps : List String)
    (h : Admits path ∧ Path.route path = ⟨true, steps⟩) :
    fs.linkTarget? path = fs.root.linkAt? FileTree.linkLimit [] steps := by
  obtain ⟨ha, hr⟩ := h
  simp only [Path.route, Path.Route.mk.injEq] at hr
  rw [linkTarget?_eq ha, start, if_pos hr.1, hr.2]

theorem resolve_absolute (fs : FileSystem) (path : String) (steps : List String)
    (h : Admits path ∧ Path.route path = ⟨true, steps⟩) :
    fs.resolve path = fs.root.walk true FileTree.linkLimit [] steps := by
  obtain ⟨ha, hr⟩ := h
  simp only [Path.route, Path.Route.mk.injEq] at hr
  rw [resolve, locate_eq_walk ha, start, if_pos hr.1, hr.2]

/-- The directory that a root stands for: the current one if the root is empty. -/
def rootPlace (fs : FileSystem) (root : String) : Except FileError (List String) :=
  if root = "" then .ok fs.current else fs.resolve root

/-- With a path, the system takes the path without the names at its end. -/
theorem Admits.of_pushAll {path : String} {names : List String} (hn : ∀ n ∈ names, Path.IsName n)
    (hp : path ≠ "") (h : Admits (Path.pushAll path names)) : Admits path := by
  obtain ⟨added, ha⟩ := Path.pushAll_eq_append hn path
  obtain ⟨hz, -, hl⟩ := h
  rw [ha] at hz hl
  rw [String.utf8ByteSize_append] at hl
  exact ⟨fun hm => hz (by simp [hm]), hp, by omega⟩

/-- A place behind a root: where the walk of the root stops, with the links left for the names. -/
theorem walk_root {fs : FileSystem} {root : String} {follow : Bool} {names place : List String}
    (hne : names ≠ [])
    (h : fs.root.walk follow FileTree.linkLimit (fs.start root) (Path.named root ++ names) =
      .ok place) :
    ∃ links base,
      fs.root.descend FileTree.linkLimit (fs.start root) (Path.named root) = .ok (links, base) ∧
      fs.root.walk follow links base names = .ok place ∧
      (root = "" ∨ Admits root → fs.rootPlace root = .ok base) := by
  rw [FileTree.walk_append _ (Or.inr hne)] at h
  cases hs : fs.root.descend FileTree.linkLimit (fs.start root) (Path.named root) with
  | error e => rw [hs] at h; cases h
  | ok stage =>
    obtain ⟨links, base⟩ := stage
    rw [hs] at h
    refine ⟨links, base, rfl, h, ?_⟩
    rintro (rfl | ha)
    · simp only [Path.named, Path.pieces_empty] at hs
      rw [show ([""].filter fun s => decide (s ≠ "")) = [] from rfl, FileTree.descend] at hs
      cases hs
      rfl
    · unfold rootPlace resolve
      rw [if_neg ha.2.1, locate_eq_walk ha]
      obtain ⟨last, hst, hlast⟩ := Path.steps_eq root
      rw [hst, FileTree.walk_append _ (Or.inl rfl), hs]
      obtain ⟨name, rest, rfl⟩ := List.exists_cons_of_ne_nil hne
      obtain ⟨entries, hd⟩ := FileTree.walk_cons_ok h
      rcases hlast with rfl | rfl
      · simp [Except.bind, FileTree.walk]
      · simp only [Except.bind]
        rw [FileTree.walk_dot _ _ _ hd, FileTree.walk]

/-- **Names behind a root.** If none of them is a link, what they mean stands where the root does,
under exactly these names. -/
theorem resolve_pushAll {fs : FileSystem} {root : String} {names place : List String}
    (hn : ∀ n ∈ names, Path.IsName n)
    (hl : ∀ front, front ≠ [] → front <+: names → fs.linkTarget? (Path.pushAll root front) = none)
    (h : fs.resolve (Path.pushAll root names) = .ok place) :
    ∃ base, fs.rootPlace root = .ok base ∧ place = base ++ names := by
  by_cases hne : names = []
  · subst hne
    have hroot : root ≠ "" := (Admits.of_locate h).2.1
    exact ⟨place, by rw [rootPlace, if_neg hroot]; exact h, by simp⟩
  have hadm := Admits.of_locate h
  have hw := h
  rw [resolve, locate_eq_walk hadm] at hw
  have hstart (front : List String) (hf : ∀ n ∈ front, Path.IsName n) :
      fs.start (Path.pushAll root front) = fs.start root := by
    unfold start; rw [Path.isAbsolute_pushAll hf]
  rw [hstart names hn, Path.steps_pushAll hn root hne] at hw
  obtain ⟨links, base, hs, hw, hbase⟩ := walk_root hne hw
  refine ⟨base, hbase ?_, FileTree.walk_names hn ?_ hw⟩
  · by_cases hroot : root = ""
    · exact Or.inl hroot
    · exact Or.inr (Admits.of_pushAll hn hroot hadm)
  · intro front hfne hp
    obtain ⟨rest, rfl⟩ := hp
    have hf : ∀ n ∈ front, Path.IsName n := fun n hm => hn n (by simp [hm])
    rw [Path.pushAll_append] at hadm
    have hfront : Admits (Path.pushAll root front) :=
      Admits.of_pushAll (fun n hm => hn n (by simp [hm])) (Path.pushAll_ne_empty hf root hfne) hadm
    have hnone := hl front hfne ⟨rest, rfl⟩
    rw [linkTarget?_eq hfront fs, hstart front hf, Path.steps_pushAll hf root hfne] at hnone
    unfold FileTree.linkAt? at hnone ⊢
    rwa [FileTree.walk_append _ (Or.inr hfne), hs] at hnone

end StepPipeline.FileSystem

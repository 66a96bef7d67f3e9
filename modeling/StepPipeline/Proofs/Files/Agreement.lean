import StepPipeline.Proofs.Files.Confinement
import StepPipeline.Proofs.Files.Trails

/-!
# Joined paths mean what they say

A path joined onto a root inside a sandbox is worked out without leaving the root: `..` takes away a
name, and an absolute link starts again at the root. The system resolves the same path in its own
way: `..` is the directory above, and an absolute link starts at the top. Here: both come to the same
place.

**What is looked at (`lookups`).** For every name the join asks the system whether there is a link
at the path up to there. A path that the system does not take, for its length, has no link as far as
the join can tell; so the agreement is about joins that look at no such path.

**Standing (`Stands`).** The names resolved so far lead from the root, over no link, to where the
system stands.

**Results.**
* `linkTarget?_below`: what the join learns of a name is what the tree has there.
* `insideRoot_trail`: an absolute link into the root leads the system through the root.
* `follow_agrees`: so both come to the same place.
* `join_agrees`: a joined path means what the path behind the root means; below a canonical root it
  is the path to that.
* `join_overlooks_farLinks`: where a path looked at is too long, the two may come apart.
-/
namespace StepPipeline

open FileSystem (Admits)

namespace Sandbox

/-- The paths at which following directions looks for links, in order. -/
def lookups (fs : FileSystem) (root : String) (links : Nat) (resolved : List String) :
    (pending : List String) → List String
  | [] => []
  | step :: rest =>
    if step = ".." then
      match resolved with
      | [] => []
      | _ :: _ => lookups fs root links resolved.dropLast rest
    else
      let path := Path.pushAll root (resolved ++ [step])
      path :: match fs.linkTarget? path with
        | none => lookups fs root links (resolved ++ [step]) rest
        | some target =>
          match links with
          | 0 => []
          | links + 1 =>
            if Path.isAbsolute target then
              match insideRoot fs root target with
              | none => []
              | some steps => lookups fs root links [] (steps ++ rest)
            else
              match Path.directions (Path.components target) with
              | none => []
              | some steps => lookups fs root links resolved (steps ++ rest)
termination_by pending => (links, pending.length)

theorem lookups_name (fs : FileSystem) (root : String) (links : Nat) (resolved : List String)
    {step : String} (hup : step ≠ "..") (rest : List String) :
    lookups fs root links resolved (step :: rest) =
      Path.pushAll root (resolved ++ [step]) ::
        match fs.linkTarget? (Path.pushAll root (resolved ++ [step])), links with
        | none, _ => lookups fs root links (resolved ++ [step]) rest
        | some _, 0 => []
        | some target, links + 1 =>
          if Path.isAbsolute target then
            match insideRoot fs root target with
            | none => []
            | some steps => lookups fs root links [] (steps ++ rest)
          else
            match Path.directions (Path.components target) with
            | none => []
            | some steps => lookups fs root links resolved (steps ++ rest) := by
  rw [lookups.eq_def]
  simp only [if_neg hup]
  split <;> simp_all
  split <;> simp_all

/-- The paths at which joining a relative path looks for links. -/
def joinLookups (fs : FileSystem) (root relative : String) : List String :=
  match Path.directions (Path.components relative) with
  | none => []
  | some steps => lookups fs root FileTree.linkLimit [] steps

/-! ## Standing below a root -/

/-- The names lead from the place of the root, over no link, to a place below it, and the system
takes the path to it. -/
structure Stands (fs : FileSystem) (root : String) (base names : List String) : Prop where
  plain : ∀ n ∈ names, Path.IsName n
  leads : fs.root.Leads base names 0 (base ++ names)
  taken : names ≠ [] → Admits (Path.pushAll root names)

section
variable {fs : FileSystem} {root : String} {base names : List String}

theorem stands_nil : Stands fs root base [] where
  plain := nofun
  leads := by rw [List.append_nil]; exact .done
  taken := absurd rfl

theorem Stands.dropLast (h : Stands fs root base names) : Stands fs root base names.dropLast := by
  by_cases hne : names = []
  · rw [hne]
    exact stands_nil
  · obtain ⟨front, last, rfl⟩ : ∃ front last, names = front ++ [last] :=
      ⟨_, _, (List.dropLast_concat_getLast hne).symm⟩
    rw [List.dropLast_concat]
    have hplain : ∀ n ∈ front, Path.IsName n := fun n hn => h.plain n (List.mem_append_left _ hn)
    obtain ⟨i, mid, j, hi, -, hzero⟩ := h.leads.split
    obtain ⟨rfl, rfl⟩ : i = 0 ∧ j = 0 := by omega
    rw [hi.straight fun n hn => (hplain n hn).2.2.1] at hi
    refine ⟨hplain, hi, fun hfront => ?_⟩
    have htaken := h.taken hne
    rw [Path.pushAll_append] at htaken
    exact Admits.of_pushAll (fun n hn => h.plain n (List.mem_append_right _ hn))
      (Path.pushAll_ne_empty hplain root hfront) htaken

theorem Stands.concat (h : Stands fs root base names) {step : String} (hs : Path.IsName step)
    {entries : List (String × FileTree)} {tree : FileTree}
    (hd : fs.root.at? (base ++ names) = some (.directory entries))
    (hl : entries.lookup step = some tree) (ht : ∀ target, tree ≠ .link target)
    (ha : Admits (Path.pushAll root (names ++ [step]))) :
    Stands fs root base (names ++ [step]) where
  plain := List.forall_mem_append.mpr ⟨h.plain, List.forall_mem_singleton.mpr hs⟩
  leads := by
    rw [← List.append_assoc]
    exact h.leads.append (.enter hd hs.2.2.1 hl ht .done)
  taken _ := ha

/-- A walk through the root and over the names goes on from where they stand. -/
theorem Stands.walk (h : Stands fs root base names) (hroot : fs.resolve root = .ok base)
    {more : List String} (hm : ∀ n ∈ more, Path.IsName n) (hne : names ++ more ≠ [])
    {follow : Bool} (hf : follow = true ∨ more ≠ []) :
    ∃ links, fs.root.walk follow FileTree.linkLimit
        (fs.start (Path.pushAll root (names ++ more)))
        (Path.steps (Path.pushAll root (names ++ more))) =
      fs.root.walk follow links (base ++ names) more := by
  have hn : ∀ n ∈ names ++ more, Path.IsName n := List.forall_mem_append.mpr ⟨h.plain, hm⟩
  obtain ⟨links, hdesc⟩ := FileSystem.descend_of_resolve hroot
  have hbelow : fs.root.descend links base names = .ok (links, base ++ names) :=
    FileTree.descend_of_leads h.leads (fun n hn => (h.plain n hn).2.1) links
  have hstart : fs.start (Path.pushAll root (names ++ more)) = fs.start root := by
    unfold FileSystem.start
    rw [Path.isAbsolute_pushAll hn]
  have hrest : follow = true ∨ names ++ more ≠ [] := Or.inr hne
  refine ⟨links, ?_⟩
  rw [hstart, Path.steps_pushAll hn root hne, FileTree.walk_append _ hrest, hdesc]
  show fs.root.walk follow links base (names ++ more) = _
  rw [FileTree.walk_append _ hf, hbelow]
  rfl

/-- Names that stand below a root are the way to where they stand. -/
theorem Stands.resolve (h : Stands fs root base names) (hroot : fs.resolve root = .ok base) :
    fs.resolve (Path.pushAll root names) = .ok (base ++ names) := by
  by_cases hne : names = []
  · rw [hne, List.append_nil]
    exact hroot
  · have hlast : names ++ [] ≠ [] := by simpa using hne
    obtain ⟨links, hwalk⟩ := h.walk hroot (List.forall_mem_nil _) hlast (Or.inl rfl)
    rw [List.append_nil] at hwalk
    rw [FileSystem.resolve, FileSystem.locate_eq_walk (h.taken hne), hwalk, FileTree.walk]

/-! ## What the join learns -/

/-- The link that a directory has under a name, if that is a link. -/
def linkIn? (entries : List (String × FileTree)) (name : String) : Option String :=
  match entries.lookup name with
  | some (.link target) => some target
  | _ => none

/-- At a path that the system takes, the join finds what the tree has there. -/
theorem linkTarget?_below (hroot : fs.resolve root = .ok base) (h : Stands fs root base names)
    {step : String} (hs : Path.IsName step) {entries : List (String × FileTree)}
    (hd : fs.root.at? (base ++ names) = some (.directory entries))
    (ha : Admits (Path.pushAll root (names ++ [step]))) :
    fs.linkTarget? (Path.pushAll root (names ++ [step])) = linkIn? entries step := by
  obtain ⟨links, hwalk⟩ :=
    h.walk hroot (List.forall_mem_singleton.mpr hs) (by simp) (Or.inr (List.cons_ne_nil _ _))
  rw [FileSystem.linkTarget?_eq ha]
  unfold FileTree.linkAt? linkIn?
  rw [hwalk]
  obtain ⟨-, hdot, hup, -⟩ := hs
  have hat := FileTree.at?_concat hd step
  cases hl : entries.lookup step with
  | none => rw [FileTree.walk_missing _ _ _ hd _ hdot hup hl]
  | some tree =>
    rw [hl] at hat
    cases tree with
    | link target => simp only [FileTree.walk_link_last _ _ hd hdot hup hl, hat]
    | file content =>
      rw [FileTree.walk_enter _ _ _ hd _ hdot hup hl (by simp), FileTree.walk]
      simp only [hat]
    | directory inner =>
      rw [FileTree.walk_enter _ _ _ hd _ hdot hup hl (by simp), FileTree.walk]
      simp only [hat]

/-! ## Absolute links -/

theorem components_of_beyond {start path rest : List Path.Component}
    (h : Path.beyond start path = some rest) : path = start ++ rest := by
  unfold Path.beyond at h
  split at h
  · rename_i hp
    cases h
    obtain ⟨tail, rfl⟩ := List.isPrefixOf_iff_prefix.mp hp
    rw [List.drop_left]
  · cases h

/-- An absolute link into the root leads through the root: what comes before the directions below it
leads there. -/
theorem insideRoot_trail (hroot : fs.resolve root = .ok base)
    {entries : List (String × FileTree)} (hd : fs.root.at? base = some (.directory entries))
    {target : String} (ha : Path.isAbsolute target = true) {steps : List String}
    (h : insideRoot fs root target = some steps) :
    ∃ front used, Path.trail target = front ++ steps ∧ fs.root.Leads [] front used base := by
  obtain ⟨cs, hcs, htrail⟩ := Path.components_absolute ha
  unfold insideRoot at h
  split at h
  · -- The target begins with the root as it is given.
    rename_i rest hb
    have hcomps := components_of_beyond hb
    rw [hcs] at hcomps
    cases hr : Path.components root with
    | nil => rw [hr] at hcomps; cases hcomps; cases h
    | cons c more =>
      rw [hr, List.cons_append, List.cons.injEq] at hcomps
      obtain ⟨rfl, rfl⟩ := hcomps
      have habs : Path.isAbsolute root = true := by
        cases hrel : Path.isAbsolute root with
        | true => rfl
        | false =>
          have hdir := Path.directions_components hrel
          rw [hr] at hdir
          cases hdir
      obtain ⟨cr, hcr, hrtrail⟩ := Path.components_absolute habs
      rw [hr] at hcr
      cases hcr
      rw [Path.directions_append hrtrail, h, Option.map_some, Option.some.injEq] at htrail
      obtain ⟨used, -, hleads⟩ := FileSystem.leads_of_resolve hroot
      rw [FileSystem.start, if_pos habs] at hleads
      exact ⟨_, used, htrail.symm, hleads⟩
  · -- It begins with the canonical form of the root.
    split at h
    case h_2 => cases h
    rename_i names hcanonical
    obtain rfl : base = names :=
      Except.ok.inj (hroot.symm.trans (FileSystem.resolve_of_canonicalize hcanonical))
    obtain ⟨rest, hb, hdir⟩ := Option.bind_eq_some_iff.mp h
    have hcomps := components_of_beyond hb
    rw [hcs, List.cons_append, List.cons.injEq] at hcomps
    obtain ⟨-, rfl⟩ := hcomps
    have hplain : ∀ n ∈ base, n ≠ ".." := by
      intro n hn
      have hm : .name n ∈ Path.components target := by
        rw [hcs]
        exact List.mem_cons_of_mem _ (List.mem_append_left _ (List.mem_map_of_mem hn))
      exact (Path.isName_of_mem_components hm).2.2.1
    rw [Path.directions_append (Path.directions_names base), hdir, Option.map_some,
      Option.some.injEq] at htrail
    exact ⟨base, 0, htrail.symm, FileTree.leads_of_at? hd hplain⟩

/-! ## Both come to the same place -/

section
variable {resolved rest place : List String} {step : String} {used : Nat}
  (hroot : fs.resolve root = .ok base) (hs : Stands fs root base resolved)
  (hname : Path.IsName step)
  (ha : Admits (Path.pushAll root (resolved ++ [step])))
  (ht : fs.root.Leads (base ++ resolved) (step :: rest) used place)
include hroot hs hname ha ht

/-- Where the join finds no link, the system enters what is there. -/
theorem leads_on (hl : fs.linkTarget? (Path.pushAll root (resolved ++ [step])) = none) :
    Stands fs root base (resolved ++ [step]) ∧
      fs.root.Leads (base ++ (resolved ++ [step])) rest used place := by
  cases ht with
  | up => exact absurd rfl hname.2.2.1
  | enter hd _ hfound htree ht =>
    rw [List.append_assoc] at ht
    exact ⟨hs.concat hname hd hfound htree ha, ht⟩
  | follow hd _ hfound _ =>
    rw [linkTarget?_below hroot hs hname hd ha, linkIn?, hfound] at hl
    cases hl

/-- Where the join finds a link, the system follows it. -/
theorem leads_over {target : String}
    (hl : fs.linkTarget? (Path.pushAll root (resolved ++ [step])) = some target) :
    ∃ used', fs.root.Leads (if Path.isAbsolute target then [] else base ++ resolved)
      (Path.trail target ++ rest) used' place := by
  cases ht with
  | up => exact absurd rfl hname.2.2.1
  | @enter _ _ _ _ _ _ tree hd _ hfound htree _ =>
    rw [linkTarget?_below hroot hs hname hd ha, linkIn?, hfound] at hl
    cases tree with
    | link target => exact absurd rfl (htree target)
    | file content => cases hl
    | directory inner => cases hl
  | follow hd _ hfound ht =>
    rw [linkTarget?_below hroot hs hname hd ha, linkIn?, hfound] at hl
    cases hl
    exact ⟨_, ht⟩

end

/-- **Agreement of the loop.** Where the system's trail and the join's directions begin at the same
place, they end at the same place. -/
theorem follow_agrees (hroot : fs.resolve root = .ok base)
    {entries : List (String × FileTree)} (hd : fs.root.at? base = some (.directory entries))
    {links used : Nat} {resolved pending place : List String}
    (hp : ∀ s ∈ pending, Path.IsDirection s)
    (hlook : ∀ path ∈ lookups fs root links resolved pending, Admits path)
    (hs : Stands fs root base resolved) (ht : fs.root.Leads (base ++ resolved) pending used place)
    (hf : follow fs root links resolved pending = some names) :
    place = base ++ names ∧ Stands fs root base names := by
  fun_induction follow fs root links resolved pending generalizing used with
  | case1 => cases hf; cases ht; exact ⟨rfl, hs⟩
  | case2 => cases hf
  | case3 links rest first more ih =>
    obtain ⟨-, hrest⟩ := List.forall_mem_cons.mp hp
    rw [lookups] at hlook
    cases ht with
    | up _ ht =>
      rw [List.dropLast_append_of_ne_nil (List.cons_ne_nil _ _)] at ht
      exact ih hrest (by simpa using hlook) hs.dropLast ht hf
    | enter _ hup => exact absurd rfl hup
    | follow _ hup => exact absurd rfl hup
  | case4 links resolved step rest hup hl ih =>
    obtain ⟨hstep, hrest⟩ := List.forall_mem_cons.mp hp
    simp only [lookups_name _ _ _ _ hup, hl, List.forall_mem_cons] at hlook
    obtain ⟨hs', ht'⟩ := leads_on hroot hs (hstep.resolve_left hup) hlook.1 ht hl
    exact ih hrest hlook.2 hs' ht' hf
  | case5 => cases hf
  | case6 => cases hf
  | case7 resolved step rest hup target hl links habs steps hin ih =>
    obtain ⟨hstep, hrest⟩ := List.forall_mem_cons.mp hp
    simp only [lookups_name _ _ _ _ hup, hl, habs, hin, if_true, List.forall_mem_cons] at hlook
    obtain ⟨used', ht'⟩ := leads_over hroot hs (hstep.resolve_left hup) hlook.1 ht hl
    obtain ⟨front, j, hfront, hleads⟩ := insideRoot_trail hroot hd habs hin
    rw [if_pos habs, hfront, List.append_assoc] at ht'
    -- The system comes through the root, where the join starts again.
    obtain ⟨left, hleft⟩ := ht'.behind hleads
    rw [← List.append_nil base] at hleft
    exact ih (directions_append (insideRoot_directions hin) hrest) hlook.2 stands_nil hleft hf
  | case8 => cases hf
  | case9 resolved step rest hup target hl links habs steps hdir ih =>
    obtain ⟨hstep, hrest⟩ := List.forall_mem_cons.mp hp
    have hrel : Path.isAbsolute target = false := Bool.not_eq_true _ ▸ habs
    simp only [lookups_name _ _ _ _ hup, hl, hrel, hdir, Bool.false_eq_true, if_false,
      List.forall_mem_cons] at hlook
    obtain ⟨used', ht'⟩ := leads_over hroot hs (hstep.resolve_left hup) hlook.1 ht hl
    rw [if_neg habs] at ht'
    have htrail := Path.directions_components hrel
    rw [hdir, Option.some.injEq] at htrail
    have hsteps := Path.isDirection_of_directions (fun _ => Path.isName_of_mem_components) hdir
    rw [← htrail] at ht'
    exact ih (directions_append hsteps hrest) hlook.2 hs ht' hf

end

/-- A root that is its own canonical form: absolute, and without links and dots. -/
def IsCanonical (fs : FileSystem) (root : String) : Prop :=
  ∃ names, fs.canonicalize root = .ok names ∧ root = Path.ofNames names

/-- **Joined paths mean what they say.** If the path behind the root means anything, the joined path
means the same, provided that the system takes every path that was looked at. Below a canonical root
the joined path is the canonical path to it. -/
theorem join_agrees {fs : FileSystem} {root relative path : String} {place : List String}
    (hroot : fs.isDirectory root = true)
    (hlook : ∀ seen ∈ joinLookups fs root relative, Admits seen)
    (hj : join fs root relative = .ok path)
    (hr : fs.resolve (Path.push root relative) = .ok place) :
    fs.resolve path = .ok place ∧ (IsCanonical fs root → path = Path.ofNames place) := by
  obtain ⟨base, entries, hbase, hd⟩ := FileSystem.resolve_of_isDirectory hroot
  unfold join at hj
  split at hj
  · rename_i names hnames
    cases hj
    obtain ⟨steps, hdir, hf⟩ := Option.bind_eq_some_iff.mp hnames
    have hrel : Path.isAbsolute relative = false := by
      cases habs : Path.isAbsolute relative with
      | false => rfl
      | true => rw [Path.directions_components_absolute habs] at hdir; cases hdir
    have hsteps := Path.isDirection_of_directions (fun _ => Path.isName_of_mem_components) hdir
    have htrail := Path.directions_components hrel
    rw [hdir, Option.some.injEq] at htrail
    rw [joinLookups, hdir] at hlook
    -- The system comes through the root as well.
    obtain ⟨used, -, hleads⟩ := FileSystem.leads_of_resolve hr
    obtain ⟨j, -, hrootleads⟩ := FileSystem.leads_of_resolve hbase
    rw [FileSystem.start, Path.isAbsolute_behind hrel, Path.trail_push hrel, ← htrail] at hleads
    obtain ⟨left, hleft⟩ := hleads.behind hrootleads
    rw [← List.append_nil base] at hleft
    obtain ⟨rfl, hstands⟩ := follow_agrees hbase hd hsteps hlook stands_nil hleft hf
    refine ⟨hstands.resolve hbase, ?_⟩
    rintro ⟨base', hcanonical, rfl⟩
    obtain rfl : base' = base :=
      Except.ok.inj ((FileSystem.resolve_of_canonicalize hcanonical).symm.trans hbase)
    have hplain := FileSystem.isName_of_resolve (Path.isAbsolute_ofNames base') hbase
    rw [← Path.pushAll_top hplain, ← Path.pushAll_append,
      Path.pushAll_top (List.forall_mem_append.mpr ⟨hplain, hstands.plain⟩)]
  · cases hj

theorem joinLookups_linkedBox :
    joinLookups linkedBox "/box" "near/../far" =
      ["/box/near", "/box/real", "/box/far", "/box/near", "/box/real", "/box/real/dir"] := by
  obtain ⟨near, real, far, dir⟩ := linkedBox_links
  have hrel : Path.directions (Path.components "near/../far") = some ["near", "..", "far"] := by
    decide
  have hreal : Path.directions (Path.components "real") = some ["real"] := by decide
  have hfar : insideRoot linkedBox "/box" "/box/near/dir" = some ["near", "dir"] := by
    decide
  simp [joinLookups, hrel, lookups, hreal, hfar, near, real, far, dir, Path.pushAll, Path.push,
    Path.isAbsolute, FileTree.linkLimit]

theorem join_agrees_linkedBox :
    linkedBox.isDirectory "/box" = true ∧
      (∀ seen ∈ joinLookups linkedBox "/box" "near/../far", Admits seen) ∧
      join linkedBox "/box" "near/../far" = .ok "/box/real/dir" ∧
      linkedBox.resolve "/box/near/../far" = .ok ["box", "real", "dir"] ∧
      linkedBox.resolve "/box/real/dir" = .ok ["box", "real", "dir"] ∧
      (IsCanonical linkedBox "/box" → "/box/real/dir" = Path.ofNames ["box", "real", "dir"]) ∧
      IsCanonical linkedBox "/box" := by
  have hbox : linkedBox.resolve "/box" = .ok ["box"] := by
    rw [FileSystem.resolve_absolute _ "/box" ["box"] (by decide)]
    simp [linkedBox, FileTree.walk, FileTree.at?]
  have hdir : linkedBox.isDirectory "/box" = true := FileSystem.isDirectory_of_resolve hbox rfl
  have hmeant : linkedBox.resolve "/box/near/../far" = .ok ["box", "real", "dir"] := by
    have hreal : Path.steps "real" = ["real"] := by decide
    have hfar : Path.steps "/box/near/dir" = ["box", "near", "dir"] := by decide
    rw [FileSystem.resolve_absolute _ _ ["box", "near", "..", "far"] (by decide)]
    simp [linkedBox, FileTree.walk, FileTree.at?, FileTree.child?, List.lookup_cons, hreal, hfar,
      FileTree.linkLimit, Path.isAbsolute]
  have hlook : ∀ seen ∈ joinLookups linkedBox "/box" "near/../far", Admits seen := by
    rw [joinLookups_linkedBox]
    decide
  obtain ⟨hmeans, htext⟩ := join_agrees hdir hlook join_linkedBox hmeant
  exact ⟨hdir, hlook, join_linkedBox, hmeant, hmeans, htext,
    ["box"], FileSystem.canonicalize_ofNames rfl hbox rfl, rfl⟩

/-! ## Links out of sight

A link whose path is too long to be taken is none for the join, which then walks back over its name;
the system comes to the link by a shorter path and goes up from where it leads. -/

/-- A path behind so many slashes. -/
def behindSlashes (n : Nat) (path : String) : String :=
  String.ofList (List.replicate n '/') ++ path

section
variable {n : Nat} {path : String}

theorem toList_behindSlashes :
    (behindSlashes n path).toList = List.replicate n '/' ++ path.toList := by
  simp [behindSlashes]

theorem utf8ByteSize_behindSlashes :
    (behindSlashes n path).utf8ByteSize = n + path.utf8ByteSize := by
  rw [behindSlashes, String.utf8ByteSize_append]
  congr 1
  induction n with
  | zero => rfl
  | succ n ih =>
    rw [List.replicate_succ, String.ofList_cons, String.utf8ByteSize_append, ih,
      String.utf8ByteSize_singleton]
    exact Nat.add_comm ..

theorem named_behindSlashes : Path.named (behindSlashes n path) = Path.named path := by
  induction n with
  | zero => simp [behindSlashes]
  | succ n ih =>
    rw [← ih]
    simp [behindSlashes, Path.named, Path.pieces, List.replicate_succ, Path.splitSlash]

theorem push_behindSlashes (h : Path.isAbsolute path = false) :
    Path.push (behindSlashes n "/") path = behindSlashes (n + 1) path := by
  have hlast : (behindSlashes n "/").toList.getLast? = some '/' := by
    simp [toList_behindSlashes]
  have hnext : behindSlashes n "/" ++ path = behindSlashes (n + 1) path := by
    simp [← String.toList_inj, toList_behindSlashes, List.replicate_succ']
  simp [Path.push, h, hlast, hnext]

theorem admits_behindSlashes (hz : '\x00' ∉ path.toList) (hne : path ≠ "") :
    Admits (behindSlashes n path) ↔ n + path.utf8ByteSize < FileTree.pathLimit := by
  have hempty : behindSlashes n path ≠ "" := by simp [behindSlashes, hne]
  simp [Admits, toList_behindSlashes, utf8ByteSize_behindSlashes, hz, hempty]

theorem route_behindSlashes (hne : path ≠ "") :
    Path.route (behindSlashes (n + 1) path) = ⟨true, Path.steps path⟩ := by
  have hlast : (behindSlashes (n + 1) path).toList.getLast? = path.toList.getLast? := by
    have hlist : path.toList ≠ [] := by simpa using hne
    rw [toList_behindSlashes, List.getLast?_append, List.getLast?_eq_some_getLast hlist,
      Option.some_or]
  have hnamed : (Path.pieces (behindSlashes (n + 1) path)).filter (· ≠ "") =
      (Path.pieces path).filter (· ≠ "") := named_behindSlashes
  rw [Path.route, Path.Route.mk.injEq]
  constructor
  · simp [Path.isAbsolute, toList_behindSlashes, List.replicate_succ]
  · rw [Path.steps, hlast, hnamed]
    rfl

/-- Behind slashes, the system takes the steps of a path from the top. -/
theorem taken_behindSlashes {steps : List String}
    (h : '\x00' ∉ path.toList ∧ path ≠ "" ∧ n + 1 + path.utf8ByteSize < FileTree.pathLimit ∧
      Path.steps path = steps) :
    Admits (behindSlashes (n + 1) path) ∧
      Path.route (behindSlashes (n + 1) path) = ⟨true, steps⟩ := by
  obtain ⟨hz, hne, hsize, rfl⟩ := h
  exact ⟨(admits_behindSlashes hz hne).mpr hsize, route_behindSlashes hne⟩

end

/-- A link to a link to a directory inside another one. -/
def farLinks : FileSystem :=
  ⟨.directory [("b", .link "links"), ("links", .link "x/y"),
    ("x", .directory [("y", .directory [])])], []⟩

theorem join_farLinks :
    join farLinks (behindSlashes 4090 "/") "b/.." = .ok (behindSlashes 4090 "/") := by
  have hrel : Path.directions (Path.components "b/..") = some ["b", ".."] := by decide
  have hlinks : Path.directions (Path.components "links") = some ["links"] := by decide
  have hb : farLinks.linkTarget? (behindSlashes 4091 "b") = some "links" := by
    rw [FileSystem.linkTarget?_absolute _ _ ["b"] (taken_behindSlashes (by decide))]
    simp [farLinks, FileTree.linkAt?, FileTree.walk, FileTree.at?, FileTree.child?]
  -- The path to the other link is too long.
  have hfar : farLinks.linkTarget? (behindSlashes 4091 "links") = none := by
    refine FileSystem.linkTarget?_of_not_admits fun ha => ?_
    rw [admits_behindSlashes (by decide) (by decide)] at ha
    exact absurd ha (by decide)
  have hnames : Sandbox.names farLinks (behindSlashes 4090 "/") "b/.." = some [] := by
    simp [Sandbox.names, hrel, follow, Path.pushAll, push_behindSlashes, hb, hlinks, hfar,
      Path.isAbsolute, FileTree.linkLimit]
  unfold join
  rw [hnames]
  rfl

/-- The join comes to the top, the system to `x`. -/
theorem join_overlooks_farLinks :
    farLinks.isDirectory (behindSlashes 4090 "/") = true ∧
      join farLinks (behindSlashes 4090 "/") "b/.." = .ok (behindSlashes 4090 "/") ∧
      farLinks.resolve (behindSlashes 4090 "/") = .ok [] ∧
      farLinks.resolve (Path.push (behindSlashes 4090 "/") "b/..") = .ok ["x"] := by
  have htop : farLinks.resolve (behindSlashes 4090 "/") = .ok [] := by
    rw [FileSystem.resolve_absolute _ _ ["."] (taken_behindSlashes (by decide))]
    simp [farLinks, FileTree.walk, FileTree.at?]
  refine ⟨FileSystem.isDirectory_of_resolve htop rfl, join_farLinks, htop, ?_⟩
  · have hlinks : Path.steps "links" = ["links"] := by decide
    have hinner : Path.steps "x/y" = ["x", "y"] := by decide
    rw [push_behindSlashes (by decide), FileSystem.resolve_absolute _ _ ["b", ".."]
      (taken_behindSlashes (by decide))]
    simp [farLinks, FileTree.walk, FileTree.at?, FileTree.child?, List.lookup_cons, hlinks, hinner,
      FileTree.linkLimit, Path.isAbsolute]

end Sandbox
end StepPipeline

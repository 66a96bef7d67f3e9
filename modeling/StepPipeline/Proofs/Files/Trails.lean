import StepPipeline.Proofs.Files.Walk

/-!
# Trails

A walk is bounded in the links that it may follow, and stops to ask for directories at dots and
slashes. Where it leads depends on neither: only on its names and its `..`s.

**Trails (`Path.trail`, `FileTree.Leads`).** The trail of a path is its steps without dots. A trail
leads from one place to another over some number of links; there is one such place at most.

**Results.**
* `Path.directions_components`: the components of a relative path say its trail;
  `Path.trail_push`: the trail of a path behind another.
* `FileTree.Leads.append`, `Leads.split`, `Leads.agree`: trails are composed and cut, and do not
  fork.
* `FileTree.leads_of_walk`: a walk that succeeds follows a trail.
* `FileTree.descend_of_leads`: a trail without links can be walked with no link left.
-/
namespace StepPipeline.Path

/-! ## The trail of a path -/

/-- The steps of a path that lead somewhere: its names, and `..`. -/
def trail (path : String) : List String := (named path).filter (· ≠ ".")

theorem trail_eq (path : String) : trail path = (steps path).filter (· ≠ ".") := by
  obtain ⟨last, hs, hlast⟩ := steps_eq path
  unfold trail
  rw [hs, List.filter_append]
  rcases hlast with rfl | rfl <;> simp

theorem isDirection_of_mem_trail {path s : String} (h : s ∈ trail path) : IsDirection s := by
  simp only [trail, named, List.mem_filter, decide_eq_true_eq] at h
  obtain ⟨⟨hp, hne⟩, hdot⟩ := h
  by_cases hup : s = ".."
  · exact Or.inl hup
  · exact Or.inr ⟨hne, hdot, hup, slash_not_mem_pieces hp⟩

theorem directions_append {a b : List Component} {steps : List String}
    (ha : directions a = some steps) :
    directions (a ++ b) = (directions b).map (steps ++ ·) := by
  induction a generalizing steps with
  | nil => cases ha; simp
  | cons c a ih =>
    cases c with
    | root => cases ha
    | current => exact ih ha
    | parent =>
      obtain ⟨rest, hr, rfl⟩ := Option.map_eq_some_iff.mp ha
      simp [directions, ih hr, Function.comp_def]
    | name s =>
      obtain ⟨rest, hr, rfl⟩ := Option.map_eq_some_iff.mp ha
      simp [directions, ih hr, Function.comp_def]

theorem directions_names (names : List String) :
    directions (names.map .name) = some names := by
  induction names with
  | nil => rfl
  | cons name names ih => simp [directions, ih]

/-- Empty pieces and dots are no directions; every other piece is one. -/
theorem directions_pieces (ps : List String) :
    directions (ps.filterMap component?) = some ((ps.filter (· ≠ "")).filter (· ≠ ".")) := by
  induction ps with
  | nil => rfl
  | cons p ps ih =>
    by_cases he : p = ""
    · simp [component?, he, ih]
    by_cases hd : p = "."
    · simp [component?, hd, ih]
    by_cases hu : p = ".."
    · simp [component?, hu, directions, ih]
    · simp [component?, he, hd, hu, directions, ih]

theorem pieces_absolute {path : String} (h : isAbsolute path = true) :
    ∃ rest, pieces path = "" :: rest := by
  unfold isAbsolute at h
  obtain ⟨tail, ht⟩ : ∃ tail, path.toList = '/' :: tail := by
    cases hl : path.toList with
    | nil => simp [hl] at h
    | cons c tail =>
      simp only [hl, List.head?_cons, decide_eq_true_eq] at h
      cases h
      exact ⟨_, rfl⟩
  exact ⟨(splitSlash tail).map String.ofList, by simp [pieces, ht, splitSlash]⟩

/-- The components of an absolute path say its trail behind the root. -/
theorem components_absolute {path : String} (h : isAbsolute path = true) :
    ∃ cs, components path = .root :: cs ∧ directions cs = some (trail path) := by
  obtain ⟨rest, hp⟩ := pieces_absolute h
  refine ⟨rest.filterMap component?, by simp [components, hp, h], ?_⟩
  rw [directions_pieces, trail, named, hp]
  simp

/-- The components of a relative path say its trail. -/
theorem directions_components {path : String} (h : isAbsolute path = false) :
    directions (components path) = some (trail path) := by
  have hpieces : directions ((pieces path).filterMap component?) = some (trail path) :=
    directions_pieces (pieces path)
  rw [← hpieces]
  unfold components
  cases pieces path with
  | nil => rfl
  | cons first rest =>
    by_cases hf : first = "."
    · simp [h, hf, directions, component?]
    · cases hc : component? first <;> simp [h, hf, hc]

theorem directions_components_absolute {path : String} (h : isAbsolute path = true) :
    directions (components path) = none := by
  obtain ⟨cs, hc, -⟩ := components_absolute h
  rw [hc]
  rfl

theorem trail_name {name : String} (h : IsName name) : trail name = [name] := by
  rw [trail_eq, steps_name h]
  simp [h.2.1]

/-! ## A path behind another -/

section
variable {base path : String} (h : isAbsolute path = false)
include h

theorem push_relative :
    push base path = base ++ path ∧ (base = "" ∨ base.toList.getLast? = some '/') ∨
      push base path = base ++ "/" ++ path ∧ base ≠ "" := by
  unfold push
  rw [h]
  simp only [Bool.false_eq_true, if_false]
  split
  · exact Or.inl ⟨rfl, ‹_›⟩
  · rename_i hb
    exact Or.inr ⟨rfl, fun he => hb (Or.inl he)⟩

theorem named_behind : named (push base path) = named base ++ named path := by
  unfold named
  rcases @push_relative base path h with ⟨hp, hb | hl⟩ | ⟨hp, -⟩
  · rw [hp, hb, String.empty_append]
    rfl
  · obtain ⟨front, hf⟩ := List.getLast?_eq_some_iff.mp hl
    rw [hp]
    simp [pieces, hf, splitSlash_slash, splitSlash]
  · rw [hp]
    simp [pieces, splitSlash_slash]

/-- A path keeps its last steps behind another. -/
theorem steps_behind (hne : path ≠ "") : steps (push base path) = named base ++ steps path := by
  have hlist : path.toList ≠ [] := by simpa using hne
  have hlast : (push base path).toList.getLast? = path.toList.getLast? := by
    rcases @push_relative base path h with ⟨hp, -⟩ | ⟨hp, -⟩ <;>
      simp [hp, List.getLast?_append, List.getLast?_cons, List.getLast?_eq_some_getLast hlist]
  have hsteps (p : String) : steps p =
      if p.toList.getLast? = some '/' then named p ++ ["."] else named p := rfl
  rw [hsteps, hsteps, hlast, named_behind h]
  split
  · rw [List.append_assoc]
  · rfl

theorem trail_push : trail (push base path) = trail base ++ trail path := by
  unfold trail
  rw [named_behind h, List.filter_append]

theorem isAbsolute_behind : isAbsolute (push base path) = isAbsolute base := by
  by_cases hb : base = ""
  · rcases @push_relative base path h with ⟨hp, -⟩ | ⟨-, hne⟩
    · rw [hp, hb, String.empty_append, h]
      rfl
    · exact absurd hb hne
  · obtain ⟨c, rest, hc⟩ := List.exists_cons_of_ne_nil (show base.toList ≠ [] by simpa using hb)
    rcases @push_relative base path h with ⟨hp, -⟩ | ⟨hp, -⟩ <;> simp [isAbsolute, hp, hc]

end

end StepPipeline.Path

namespace StepPipeline.FileTree

/-! ## Where a trail leads -/

/-- The steps lead from `here` to `place`, over so many links. -/
inductive Leads (root : FileTree) :
    (here steps : List String) → (links : Nat) → (place : List String) → Prop where
  | done {here : List String} : Leads root here [] 0 here
  | up {here rest place : List String} {links : Nat} {entries : List (String × FileTree)}
    (hd : root.at? here = some (.directory entries))
    (h : Leads root here.dropLast rest links place) :
    Leads root here (".." :: rest) links place
  | enter {here rest place : List String} {step : String} {links : Nat}
    {entries : List (String × FileTree)} {tree : FileTree}
    (hd : root.at? here = some (.directory entries)) (hup : step ≠ "..")
    (hl : entries.lookup step = some tree) (ht : ∀ target, tree ≠ .link target)
    (h : Leads root (here ++ [step]) rest links place) :
    Leads root here (step :: rest) links place
  | follow {here rest place : List String} {step target : String} {links : Nat}
    {entries : List (String × FileTree)}
    (hd : root.at? here = some (.directory entries)) (hup : step ≠ "..")
    (hl : entries.lookup step = some (.link target))
    (h : Leads root (if Path.isAbsolute target then [] else here) (Path.trail target ++ rest) links
      place) :
    Leads root here (step :: rest) (links + 1) place

namespace Leads

variable {root : FileTree} {here mid place xs ys : List String} {j k : Nat}

theorem append (h : Leads root here xs j mid) (h' : Leads root mid ys k place) :
    Leads root here (xs ++ ys) (j + k) place := by
  induction h with
  | done => rw [Nat.zero_add]; exact h'
  | up hd _ ih => exact .up hd (ih h')
  | enter hd hup hl ht _ ih => exact .enter hd hup hl ht (ih h')
  | follow hd hup hl _ ih =>
    rw [List.cons_append, Nat.add_right_comm]
    exact .follow hd hup hl (by rw [← List.append_assoc]; exact ih h')

/-- A trail is cut where its steps are. -/
theorem split (h : Leads root here (xs ++ ys) k place) :
    ∃ i mid j, Leads root here xs i mid ∧ Leads root mid ys j place ∧ k = i + j := by
  generalize hs : xs ++ ys = steps at h
  induction h generalizing xs with
  | done =>
    obtain ⟨rfl, rfl⟩ := List.append_eq_nil_iff.mp hs
    exact ⟨0, _, 0, .done, .done, rfl⟩
  | @up here rest place k entries hd h ih =>
    cases xs with
    | nil => cases hs; exact ⟨0, _, k, .done, .up hd h, (Nat.zero_add k).symm⟩
    | cons x xs =>
      cases hs
      obtain ⟨i, mid, j, hi, hj, rfl⟩ := ih rfl
      exact ⟨i, mid, j, .up hd hi, hj, rfl⟩
  | @enter here rest place step k entries tree hd hup hl ht h ih =>
    cases xs with
    | nil => cases hs; exact ⟨0, _, k, .done, .enter hd hup hl ht h, (Nat.zero_add k).symm⟩
    | cons x xs =>
      cases hs
      obtain ⟨i, mid, j, hi, hj, rfl⟩ := ih rfl
      exact ⟨i, mid, j, .enter hd hup hl ht hi, hj, rfl⟩
  | @follow here rest place step target k entries hd hup hl h ih =>
    cases xs with
    | nil => cases hs; exact ⟨0, _, k + 1, .done, .follow hd hup hl h, (Nat.zero_add _).symm⟩
    | cons x xs =>
      cases hs
      obtain ⟨i, mid, j, hi, hj, rfl⟩ := ih (List.append_assoc ..)
      exact ⟨i + 1, mid, j, .follow hd hup hl hi, hj, Nat.add_right_comm ..⟩

/-- A trail does not fork: it leads to one place, over as many links. -/
theorem agree {place' : List String} (h : Leads root here xs j place)
    (h' : Leads root here xs k place') : place = place' ∧ j = k := by
  induction h generalizing k with
  | done => cases h'; exact ⟨rfl, rfl⟩
  | up hd _ ih =>
    cases h' with
    | up hd' h' => exact ih h'
    | enter _ hup => exact absurd rfl hup
    | follow _ hup => exact absurd rfl hup
  | enter hd hup hl ht _ ih =>
    cases h' with
    | up => exact absurd rfl hup
    | enter hd' _ hl' _ h' => exact ih h'
    | follow hd' _ hl' _ =>
      rw [hd] at hd'
      cases hd'
      rw [hl] at hl'
      cases hl'
      exact absurd rfl (ht _)
  | follow hd hup hl _ ih =>
    cases h' with
    | up => exact absurd rfl hup
    | enter hd' _ hl' ht' _ =>
      rw [hd] at hd'
      cases hd'
      rw [hl] at hl'
      cases hl'
      exact absurd rfl (ht' _)
    | follow hd' _ hl' h' =>
      rw [hd] at hd'
      cases hd'
      rw [hl] at hl'
      cases hl'
      obtain ⟨hplace, hlinks⟩ := ih h'
      exact ⟨hplace, congrArg (· + 1) hlinks⟩

theorem unique {place' : List String} (h : Leads root here xs j place)
    (h' : Leads root here xs k place') : place = place' :=
  (h.agree h').1

/-- Names that lead over no link lead below. -/
theorem straight (h : Leads root here xs 0 place) (hx : ∀ s ∈ xs, s ≠ "..") :
    place = here ++ xs := by
  generalize hk : 0 = k at h
  induction h with
  | done => exact (List.append_nil _).symm
  | up => exact absurd rfl (hx _ List.mem_cons_self)
  | enter _ _ _ _ _ ih =>
    rw [ih (fun s hs => hx s (List.mem_cons_of_mem _ hs)) hk, List.append_assoc]
    rfl
  | follow => cases hk

/-- A trail of directions leads to a place with plain names. -/
theorem plain (h : Leads root here xs k place) (hh : ∀ n ∈ here, Path.IsName n)
    (hx : ∀ s ∈ xs, Path.IsDirection s) : ∀ n ∈ place, Path.IsName n := by
  induction h with
  | done => exact hh
  | up _ _ ih =>
    exact ih (fun n hn => hh n (List.dropLast_subset _ hn)) (List.forall_mem_cons.mp hx).2
  | enter _ hup _ _ _ ih =>
    obtain ⟨hs, hrest⟩ := List.forall_mem_cons.mp hx
    refine ih (List.forall_mem_append.mpr ⟨hh, ?_⟩) hrest
    exact List.forall_mem_singleton.mpr (hs.resolve_left hup)
  | follow _ _ _ _ ih =>
    obtain ⟨-, hrest⟩ := List.forall_mem_cons.mp hx
    refine ih ?_ (List.forall_mem_append.mpr ⟨fun s => Path.isDirection_of_mem_trail, hrest⟩)
    split
    · exact nofun
    · exact hh

/-- What is left of a trail behind steps that are known to lead somewhere. -/
theorem behind (h : Leads root here (xs ++ ys) k place) (hx : Leads root here xs j mid) :
    ∃ l, Leads root mid ys l place := by
  obtain ⟨i, mid', l, hi, hl, -⟩ := h.split
  rw [hx.unique hi]
  exact ⟨l, hl⟩

end Leads

/-! ## Walks and trails -/

/-- A walk that succeeds follows a trail. -/
theorem leads_of_walk {root : FileTree} {links : Nat} {here steps place : List String}
    (h : root.walk true links here steps = .ok place) :
    ∃ used, used ≤ links ∧ root.Leads here (steps.filter (· ≠ ".")) used place := by
  fun_induction FileTree.walk root true links here steps with
  | case1 => cases h; exact ⟨0, Nat.zero_le _, .done⟩
  | case2 _ _ _ _ _ ih =>
    obtain ⟨used, hu, ht⟩ := ih h
    exact ⟨used, hu, by simpa using ht⟩
  | case3 _ _ _ _ hd _ ih =>
    obtain ⟨used, hu, ht⟩ := ih h
    exact ⟨used, hu, by simpa using ht.up hd⟩
  | case4 => cases h
  | case5 => simp_all
  | case6 => cases h
  | case7 _ step rest _ hd _ hup target hl _ links start ih =>
    obtain ⟨used, hu, ht⟩ := ih h
    rw [List.filter_append, ← Path.trail_eq] at ht
    refine ⟨used + 1, Nat.succ_le_succ hu, ?_⟩
    rw [List.filter_cons_of_pos (by simpa)]
    exact .follow hd hup hl ht
  | case8 _ _ step rest _ hd _ hup tree ht hl ih =>
    obtain ⟨used, hu, h⟩ := ih h
    refine ⟨used, hu, ?_⟩
    rw [List.filter_cons_of_pos (by simpa)]
    exact .enter hd hup hl ht h
  | case9 => cases h
  | case10 => cases h

/-- A trail without links can be walked with no link left. -/
theorem descend_of_leads {root : FileTree} {here steps place : List String}
    (h : root.Leads here steps 0 place) (hs : ∀ s ∈ steps, s ≠ ".") (links : Nat) :
    root.descend links here steps = .ok (links, place) := by
  generalize hk : 0 = k at h
  induction h with
  | done => rw [descend]
  | up hd _ ih =>
    rw [descend]
    simp [hd, ih (fun s hm => hs s (List.mem_cons_of_mem _ hm)) hk]
  | @enter _ _ _ step _ _ tree hd hup hl ht _ ih =>
    have hdot : step ≠ "." := hs step List.mem_cons_self
    rw [descend]
    cases tree with
    | link target => exact absurd rfl (ht target)
    | file content =>
      simp [hd, hdot, hup, hl, ih (fun s hm => hs s (List.mem_cons_of_mem _ hm)) hk]
    | directory inner =>
      simp [hd, hdot, hup, hl, ih (fun s hm => hs s (List.mem_cons_of_mem _ hm)) hk]
  | follow => cases hk

/-- The names of a directory lead to it over no link. -/
theorem leads_of_at? {root : FileTree} {here names : List String}
    {entries : List (String × FileTree)}
    (hd : root.at? (here ++ names) = some (.directory entries)) (hn : ∀ n ∈ names, n ≠ "..") :
    root.Leads here names 0 (here ++ names) := by
  induction names generalizing here with
  | nil => rw [List.append_nil]; exact .done
  | cons name rest ih =>
    obtain ⟨hup, hrest⟩ := List.forall_mem_cons.mp hn
    rw [List.append_cons] at hd ⊢
    have hbelow := hd
    rw [at?_append] at hbelow
    obtain ⟨tree, htree, hat⟩ := Option.bind_eq_some_iff.mp hbelow
    rw [at?_append] at htree
    obtain ⟨above, habove, hchild⟩ := Option.bind_eq_some_iff.mp htree
    simp only [at?, Option.bind_eq_some_iff, Option.some.injEq, exists_eq_right] at hchild
    cases above with
    | file content => cases hchild
    | link target => cases hchild
    | directory inner =>
      refine .enter habove hup hchild ?_ (ih hd hrest)
      rintro target rfl
      cases rest with
      | nil => cases hat
      | cons next rest => cases hat

/-- A walk goes over the names of a directory to that directory. -/
theorem walk_over {root : FileTree} {names : List String} {entries : List (String × FileTree)}
    (hd : root.at? names = some (.directory entries)) (hn : ∀ n ∈ names, Path.IsName n)
    (links : Nat) (more : List String) :
    root.walk true links [] (names ++ more) = root.walk true links names more := by
  have hleads : root.Leads [] names 0 names := leads_of_at? hd fun n hm => (hn n hm).2.2.1
  rw [walk_append _ (Or.inl rfl), descend_of_leads hleads fun n hm => (hn n hm).2.1]
  rfl

/-- On the way over the names of a directory, the places are those of their fronts. -/
theorem visits_over {root : FileTree} {here names : List String}
    {entries : List (String × FileTree)}
    (hd : root.at? (here ++ names) = some (.directory entries))
    (hn : ∀ n ∈ names, Path.IsName n) (links : Nat) :
    ∀ place ∈ root.visits links here names, ∃ front, front <+: names ∧ place = here ++ front := by
  induction names generalizing here with
  | nil => rw [visits]; exact List.forall_mem_nil _
  | cons name rest ih =>
    obtain ⟨⟨-, hdot, hup, -⟩, hrest⟩ := List.forall_mem_cons.mp hn
    rw [List.append_cons] at hd
    cases leads_of_at? (List.append_cons here name rest ▸ hd) fun n hm => (hn n hm).2.2.1 with
    | up => exact absurd rfl hup
    | enter habove _ hchild hlink _ =>
      have hvisits : root.visits links here (name :: rest) =
          (here ++ [name]) :: root.visits links (here ++ [name]) rest := by
        rw [visits]
        simp only [habove, if_neg hdot, if_neg hup, hchild]
      rw [hvisits]
      refine List.forall_mem_cons.mpr ⟨⟨[name], List.prefix_append [name] rest, rfl⟩, ?_⟩
      intro place hm
      obtain ⟨front, hfront, rfl⟩ := ih hd hrest place hm
      exact ⟨name :: front, List.cons_prefix_cons.mpr ⟨rfl, hfront⟩, (List.append_cons _ _ _).symm⟩

end StepPipeline.FileTree

namespace StepPipeline.FileSystem

/-! ## Paths as the system takes them -/

section
variable {fs : FileSystem} {path : String} {place : List String}

/-- A path leads where its trail does. -/
theorem leads_of_resolve (h : fs.resolve path = .ok place) :
    ∃ used, used ≤ FileTree.linkLimit ∧
      fs.root.Leads (fs.start path) (Path.trail path) used place := by
  have hw := h
  rw [resolve, locate_eq_walk (Admits.of_locate h)] at hw
  rw [Path.trail_eq]
  exact FileTree.leads_of_walk hw

theorem isName_of_resolve (ha : Path.isAbsolute path = true) (h : fs.resolve path = .ok place) :
    ∀ n ∈ place, Path.IsName n := by
  obtain ⟨used, -, hleads⟩ := leads_of_resolve h
  rw [start, if_pos ha] at hleads
  exact hleads.plain (List.forall_mem_nil _) fun s => Path.isDirection_of_mem_trail

/-- The names of a path can be walked with others behind them. -/
theorem descend_of_resolve (h : fs.resolve path = .ok place) :
    ∃ links, fs.root.descend FileTree.linkLimit (fs.start path) (Path.named path) =
      .ok (links, place) := by
  have hw := h
  rw [resolve, locate_eq_walk (Admits.of_locate h)] at hw
  obtain ⟨last, hs, hlast⟩ := Path.steps_eq path
  rw [hs, FileTree.walk_append _ (Or.inl rfl)] at hw
  cases hdesc : fs.root.descend FileTree.linkLimit (fs.start path) (Path.named path) with
  | error e => rw [hdesc] at hw; cases hw
  | ok stage =>
    obtain ⟨links, reached⟩ := stage
    rw [hdesc] at hw
    refine ⟨links, ?_⟩
    have hstop : fs.root.walk true links reached last = .ok place := hw
    rcases hlast with rfl | rfl
    · rw [FileTree.walk] at hstop
      cases hstop
      rfl
    · obtain ⟨entries, hd⟩ := FileTree.walk_cons_ok hstop
      rw [FileTree.walk_dot _ _ _ hd, FileTree.walk] at hstop
      cases hstop
      rfl

theorem isDirectory_of_resolve {entries : List (String × FileTree)}
    (h : fs.resolve path = .ok place) (hd : fs.root.at? place = some (.directory entries)) :
    fs.isDirectory path = true := by
  have hget : fs.get path = .ok (.directory entries) := by
    simp only [get, h, bind, Except.bind, hd]
    rfl
  rw [isDirectory, hget]

theorem resolve_of_isDirectory (h : fs.isDirectory path = true) :
    ∃ place entries, fs.resolve path = .ok place ∧
      fs.root.at? place = some (.directory entries) := by
  unfold isDirectory at h
  split at h
  · rename_i entries hget
    unfold get at hget
    cases hr : fs.resolve path with
    | error e => rw [hr] at hget; cases hget
    | ok place =>
      rw [hr] at hget
      simp only [bind, Except.bind] at hget
      split at hget
      · cases hget
        exact ⟨place, entries, rfl, ‹_›⟩
      · cases hget
  · cases h

/-! ## Canonical paths -/

/-- A path leads where its canonical form says. -/
theorem resolve_of_canonicalize (h : fs.canonicalize path = .ok place) :
    fs.resolve path = .ok place := by
  unfold canonicalize at h
  split at h
  · cases h
  · split at h
    · cases h
    · exact h

/-- Where no place on the way is too far, nothing is refused that can be resolved. -/
theorem canonicalize_of_near (h : (fs.visits path).any FileTree.tooFar = false) :
    fs.canonicalize path = fs.resolve path := by
  unfold canonicalize
  rw [h]
  split <;> simp_all

theorem visits_absolute {steps : List String} (h : Path.route path = ⟨true, steps⟩) :
    fs.visits path = fs.root.visits FileTree.linkLimit [] steps := by
  simp only [Path.route, Path.Route.mk.injEq] at h
  rw [visits, start, if_pos h.1, h.2]

/-- A path to a directory that is in normal form, and means itself, is canonical. -/
theorem canonicalize_ofNames {entries : List (String × FileTree)}
    (hpath : path = Path.ofNames place) (h : fs.resolve path = .ok place)
    (hd : fs.root.at? place = some (.directory entries)) :
    fs.canonicalize path = .ok place := by
  subst hpath
  have hplain := isName_of_resolve (Path.isAbsolute_ofNames place) h
  obtain ⟨-, -, hsize⟩ := Admits.of_locate h
  -- No place on the way has a longer path than the last.
  have hnear : ∀ front, front <+: place → FileTree.tooFar front = false := by
    rintro front ⟨rest, rfl⟩
    obtain ⟨hfront, hrest⟩ := List.forall_mem_append.mp hplain
    obtain ⟨added, ha⟩ := Path.pushAll_eq_append hrest (Path.ofNames front)
    have hlong : Path.ofNames (front ++ rest) = Path.ofNames front ++ added := by
      rw [← ha, ← Path.pushAll_top hfront, ← Path.pushAll_append, Path.pushAll_top hplain]
    rw [hlong, String.utf8ByteSize_append] at hsize
    exact decide_eq_false (by omega)
  have hvisits : ∀ seen ∈ fs.visits (Path.ofNames place), ∃ front, front <+: place ∧
      seen = front := by
    rw [visits, start, if_pos (Path.isAbsolute_ofNames place)]
    by_cases hne : place = []
    · subst hne
      have htop : Path.steps (Path.ofNames []) = ["."] := by decide
      rw [htop, FileTree.visits]
      simp only [hd, if_pos]
      rw [FileTree.visits]
      exact List.forall_mem_nil _
    · rw [Path.steps_ofNames hplain hne]
      exact @FileTree.visits_over _ [] _ _ hd hplain _
  refine (canonicalize_of_near (List.any_eq_false.mpr fun seen hm => ?_)).trans h
  obtain ⟨front, hfront, rfl⟩ := hvisits seen hm
  rw [hnear _ hfront]
  exact Bool.false_ne_true

end

end StepPipeline.FileSystem

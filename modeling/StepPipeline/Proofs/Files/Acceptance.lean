import StepPipeline.Proofs.Files.Agreement

/-!
# Which paths a join accepts

A join refuses what leaves the root. Here: it refuses nothing else. Below a root that is its own
canonical form, a path whose resolution stays inside the root is accepted, and every refusal has its
cause in a step of the join.

**Walks that stay inside (`Within`).** The steps of a walk below the root, each seen from the root:
`..` is taken below the root only, and an absolute link goes on from the root.

**The course of a join (`Comes`).** The names resolved so far, the directions that are left, and the
number of links that may still be followed, as the join goes on step by step.

**Causes (`Escapes`).** An absolute path; or `..` at the root, a link to the outside or a link too
many, that the join comes to.

**Results.**
* `Within.leads`: a walk that stays inside is one of the system's.
* `follow_of_within`: the join goes along with it, if the system takes the paths that it looks at.
* `follow_eq_none_iff`: a join is refused exactly if it comes to a cause.
* `join_accepts`: so a join accepts what stays inside, and refuses for a cause.
* `join_refuses_deepBox`: where a path looked at is too long, what stays inside may be refused.
-/
namespace StepPipeline

open FileSystem (Admits)

namespace Sandbox

/-! ## Canonical roots -/

/-- The root is a directory, and its components say where: it is absolute, and there are no links and
no `..` in it. -/
structure RootAt (fs : FileSystem) (root : String) (base : List String) : Prop where
  canonicalize : fs.canonicalize root = .ok base
  directory : ∃ entries, fs.root.at? base = some (.directory entries)
  components : Path.components root = .root :: base.map .name

section
variable {fs : FileSystem} {root target : String} {base : List String}

theorem rootAt_of_isDirectory (hdir : fs.isDirectory root = true)
    (hcanonical : fs.canonicalize root = .ok base)
    (hcomps : Path.components root = .root :: base.map .name) : RootAt fs root base := by
  obtain ⟨place, entries, hplace, hd⟩ := FileSystem.resolve_of_isDirectory hdir
  obtain rfl : place = base :=
    Except.ok.inj (hplace.symm.trans (FileSystem.resolve_of_canonicalize hcanonical))
  exact ⟨hcanonical, ⟨entries, hd⟩, hcomps⟩

namespace RootAt

theorem resolve (h : RootAt fs root base) : fs.resolve root = .ok base :=
  FileSystem.resolve_of_canonicalize h.canonicalize

theorem isAbsolute (h : RootAt fs root base) : Path.isAbsolute root = true := by
  cases hrel : Path.isAbsolute root with
  | true => rfl
  | false =>
    have hdir := Path.directions_components hrel
    rw [h.components] at hdir
    cases hdir

theorem trail (h : RootAt fs root base) : Path.trail root = base := by
  obtain ⟨cs, hcs, htrail⟩ := Path.components_absolute h.isAbsolute
  rw [h.components, List.cons.injEq] at hcs
  obtain ⟨-, rfl⟩ := hcs
  rw [Path.directions_names, Option.some.injEq] at htrail
  exact htrail.symm

theorem plain (h : RootAt fs root base) : ∀ n ∈ base, Path.IsName n :=
  FileSystem.isName_of_resolve h.isAbsolute h.resolve

/-- The way to the root goes over no link. -/
theorem leads (h : RootAt fs root base) : fs.root.Leads [] base 0 base := by
  obtain ⟨entries, hd⟩ := h.directory
  exact FileTree.leads_of_at? hd fun n hn => (h.plain n hn).2.2.1

/-- What an absolute path has beyond the root are directions, the last of its trail. -/
theorem directions (h : RootAt fs root base) (habs : Path.isAbsolute target = true)
    {rest : List Path.Component}
    (hb : Path.beyond (Path.components root) (Path.components target) = some rest) :
    ∃ steps, Path.directions rest = some steps ∧ Path.trail target = base ++ steps := by
  obtain ⟨cs, hcs, htrail⟩ := Path.components_absolute habs
  have hcomps := components_of_beyond hb
  rw [hcs, h.components, List.cons_append, List.cons.injEq] at hcomps
  obtain ⟨-, rfl⟩ := hcomps
  rw [Path.directions_append (Path.directions_names base)] at htrail
  obtain ⟨steps, hsteps, heq⟩ := Option.map_eq_some_iff.mp htrail
  exact ⟨steps, hsteps, heq.symm⟩

/-- The canonical form of the root adds nothing to the root as it is given. -/
theorem insideRoot_eq (h : RootAt fs root base) (target : String) :
    insideRoot fs root target =
      (Path.beyond (Path.components root) (Path.components target)).bind Path.directions := by
  unfold insideRoot
  cases hb : Path.beyond (Path.components root) (Path.components target) with
  | some rest => rfl
  | none =>
    rw [h.canonicalize]
    show (Path.beyond (.root :: base.map .name) (Path.components target)).bind Path.directions = _
    rw [← h.components, hb]

theorem insideRoot_eq_none (h : RootAt fs root base) (habs : Path.isAbsolute target = true)
    (hin : insideRoot fs root target = none) :
    Path.beyond (Path.components root) (Path.components target) = none := by
  rw [h.insideRoot_eq] at hin
  cases hb : Path.beyond (Path.components root) (Path.components target) with
  | none => rfl
  | some rest =>
    obtain ⟨steps, hsteps, -⟩ := h.directions habs hb
    rw [hb, Option.bind_some, hsteps] at hin
    cases hin

end RootAt

theorem insideRoot_of_outside
    (hgiven : Path.beyond (Path.components root) (Path.components target) = none)
    (hcanonical : ∀ names, fs.canonicalize root = .ok names →
      Path.beyond (.root :: names.map .name) (Path.components target) = none) :
    insideRoot fs root target = none := by
  unfold insideRoot
  rw [hgiven]
  cases hc : fs.canonicalize root with
  | error e => rfl
  | ok names =>
    show (Path.beyond (.root :: names.map .name) (Path.components target)).bind _ = none
    rw [hcanonical names hc, Option.bind_none]

end

/-! ## Single steps of a join -/

section
variable {fs : FileSystem} {root : String} {links : Nat} {resolved rest steps : List String}
  {step target : String}

theorem follow_up (hne : resolved ≠ []) :
    follow fs root links resolved (".." :: rest) =
      follow fs root links resolved.dropLast rest := by
  cases resolved with
  | nil => exact absurd rfl hne
  | cons first more => rw [follow]; simp

theorem follow_top : follow fs root links [] (".." :: rest) = none := by
  rw [follow]; simp

variable (hup : step ≠ "..")
include hup

theorem follow_enter (hl : fs.linkTarget? (Path.pushAll root (resolved ++ [step])) = none) :
    follow fs root links resolved (step :: rest) =
      follow fs root links (resolved ++ [step]) rest := by
  rw [follow.eq_def]; simp [hup, hl]

variable (hl : fs.linkTarget? (Path.pushAll root (resolved ++ [step])) = some target)
include hl

theorem follow_overrun : follow fs root 0 resolved (step :: rest) = none := by
  rw [follow.eq_def]; simp [hup, hl]

theorem follow_near (hrel : Path.isAbsolute target = false) :
    follow fs root (links + 1) resolved (step :: rest) =
      follow fs root links resolved (Path.trail target ++ rest) := by
  rw [follow.eq_def]; simp [hup, hl, hrel, Path.directions_components hrel]

variable (habs : Path.isAbsolute target = true)
include habs

theorem follow_far (hin : insideRoot fs root target = some steps) :
    follow fs root (links + 1) resolved (step :: rest) =
      follow fs root links [] (steps ++ rest) := by
  rw [follow.eq_def]; simp [hup, hl, habs, hin]

theorem follow_outside (hin : insideRoot fs root target = none) :
    follow fs root (links + 1) resolved (step :: rest) = none := by
  rw [follow.eq_def]; simp [hup, hl, habs, hin]

end

/-! ## Walks that stay inside -/

/-- The steps lead, over so many links, from `here` to `place`, both seen from the root, which they
do not leave. -/
inductive Within (fs : FileSystem) (root : String) (base : List String) :
    (here steps : List String) → (links : Nat) → (place : List String) → Prop where
  | done {here : List String} : Within fs root base here [] 0 here
  | up {here rest place : List String} {links : Nat} {entries : List (String × FileTree)}
    (hne : here ≠ []) (hd : fs.root.at? (base ++ here) = some (.directory entries))
    (h : Within fs root base here.dropLast rest links place) :
    Within fs root base here (".." :: rest) links place
  | enter {here rest place : List String} {step : String} {links : Nat}
    {entries : List (String × FileTree)} {tree : FileTree}
    (hd : fs.root.at? (base ++ here) = some (.directory entries)) (hup : step ≠ "..")
    (hl : entries.lookup step = some tree) (ht : ∀ target, tree ≠ .link target)
    (h : Within fs root base (here ++ [step]) rest links place) :
    Within fs root base here (step :: rest) links place
  | near {here rest place : List String} {step target : String} {links : Nat}
    {entries : List (String × FileTree)}
    (hd : fs.root.at? (base ++ here) = some (.directory entries)) (hup : step ≠ "..")
    (hl : entries.lookup step = some (.link target)) (hrel : Path.isAbsolute target = false)
    (h : Within fs root base here (Path.trail target ++ rest) links place) :
    Within fs root base here (step :: rest) (links + 1) place
  /-- An absolute link begins with the root, and what it has beyond the root is walked from there. -/
  | far {here rest steps place : List String} {step target : String} {links : Nat}
    {entries : List (String × FileTree)} {beyond : List Path.Component}
    (hd : fs.root.at? (base ++ here) = some (.directory entries)) (hup : step ≠ "..")
    (hl : entries.lookup step = some (.link target)) (habs : Path.isAbsolute target = true)
    (hb : Path.beyond (Path.components root) (Path.components target) = some beyond)
    (hs : Path.directions beyond = some steps)
    (h : Within fs root base [] (steps ++ rest) links place) :
    Within fs root base here (step :: rest) (links + 1) place

/-- The walk of a relative path from the root stays inside the root. -/
def StaysInside (fs : FileSystem) (root : String) (base : List String) (relative : String) : Prop :=
  ∃ links place, Within fs root base [] (Path.trail relative) links place

section
variable {fs : FileSystem} {root : String} {base : List String}

/-- A walk that stays inside is one of the system's. -/
theorem Within.leads (hroot : RootAt fs root base) {here steps place : List String} {links : Nat}
    (h : Within fs root base here steps links place) :
    fs.root.Leads (base ++ here) steps links (base ++ place) := by
  induction h with
  | done => exact .done
  | up hne hd _ ih =>
    rw [← List.dropLast_append_of_ne_nil hne] at ih
    exact .up hd ih
  | enter hd hup hl ht _ ih =>
    rw [← List.append_assoc] at ih
    exact .enter hd hup hl ht ih
  | near hd hup hl hrel _ ih => exact .follow hd hup hl (by rw [hrel]; exact ih)
  | far hd hup hl habs hb hs _ ih =>
    obtain ⟨steps, hs', htrail⟩ := hroot.directions habs hb
    rw [hs] at hs'
    cases hs'
    rw [List.append_nil] at ih
    have hthrough := hroot.leads.append ih
    rw [Nat.zero_add, ← List.append_assoc, ← htrail] at hthrough
    exact .follow hd hup hl (by rw [if_pos habs]; exact hthrough)

/-- **Acceptance of the loop.** The join goes along with a walk that stays inside. -/
theorem follow_of_within (hroot : RootAt fs root base) {here steps place : List String}
    {used links : Nat} (h : Within fs root base here steps used place) (hu : used ≤ links)
    (hp : ∀ s ∈ steps, Path.IsDirection s) (hs : Stands fs root base here)
    (hlook : ∀ path ∈ lookups fs root links here steps, Admits path) :
    follow fs root links here steps = some place ∧ Stands fs root base place := by
  induction h generalizing links with
  | done => rw [follow]; exact ⟨rfl, hs⟩
  | @up here rest place used entries hne hd h ih =>
    obtain ⟨-, hrest⟩ := List.forall_mem_cons.mp hp
    rw [follow_up hne]
    refine ih hu hrest hs.dropLast ?_
    obtain ⟨first, more, rfl⟩ := List.exists_cons_of_ne_nil hne
    rw [lookups] at hlook
    simpa using hlook
  | @enter here rest place step used entries tree hd hup hl ht h ih =>
    obtain ⟨hstep, hrest⟩ := List.forall_mem_cons.mp hp
    have hname := hstep.resolve_left hup
    rw [lookups_name _ _ _ _ hup, List.forall_mem_cons] at hlook
    obtain ⟨ha, hlook⟩ := hlook
    have hnone : fs.linkTarget? (Path.pushAll root (here ++ [step])) = none := by
      rw [linkTarget?_below hroot.resolve hs hname hd ha, linkIn?, hl]
      cases tree with
      | link target => exact absurd rfl (ht target)
      | file content => rfl
      | directory inner => rfl
    rw [follow_enter hup hnone]
    exact ih hu hrest (hs.concat hname hd hl ht ha) (by simpa only [hnone] using hlook)
  | @near here rest place step target used entries hd hup hl hrel h ih =>
    obtain ⟨hstep, hrest⟩ := List.forall_mem_cons.mp hp
    have hname := hstep.resolve_left hup
    rw [lookups_name _ _ _ _ hup, List.forall_mem_cons] at hlook
    obtain ⟨ha, hlook⟩ := hlook
    have hlink : fs.linkTarget? (Path.pushAll root (here ++ [step])) = some target := by
      rw [linkTarget?_below hroot.resolve hs hname hd ha, linkIn?, hl]
    obtain ⟨links, rfl⟩ : ∃ n, links = n + 1 := ⟨links - 1, by omega⟩
    rw [follow_near hup hlink hrel]
    refine ih (by omega) ?_ hs ?_
    · exact directions_append (fun s => Path.isDirection_of_mem_trail) hrest
    · simpa [hlink, hrel, Path.directions_components hrel] using hlook
  | @far here rest steps place step target used entries beyond hd hup hl habs hb hdir h ih =>
    obtain ⟨hstep, hrest⟩ := List.forall_mem_cons.mp hp
    have hname := hstep.resolve_left hup
    rw [lookups_name _ _ _ _ hup, List.forall_mem_cons] at hlook
    obtain ⟨ha, hlook⟩ := hlook
    have hlink : fs.linkTarget? (Path.pushAll root (here ++ [step])) = some target := by
      rw [linkTarget?_below hroot.resolve hs hname hd ha, linkIn?, hl]
    have hin : insideRoot fs root target = some steps := by
      rw [hroot.insideRoot_eq, hb, Option.bind_some, hdir]
    obtain ⟨links, rfl⟩ : ∃ n, links = n + 1 := ⟨links - 1, by omega⟩
    rw [follow_far hup hlink habs hin]
    refine ih (by omega) ?_ stands_nil ?_
    · exact directions_append (insideRoot_directions hin) hrest
    · simpa [hlink, habs, hin] using hlook

/-! ## Causes of a refusal -/

/-- In joining the directions `start`, the join comes to have resolved names, with directions
pending and links left to follow. -/
inductive Comes (fs : FileSystem) (root : String) (start : List String) :
    (links : Nat) → (resolved pending : List String) → Prop where
  | start : Comes fs root start FileTree.linkLimit [] start
  | up {links : Nat} {resolved rest : List String}
    (h : Comes fs root start links resolved (".." :: rest)) (hne : resolved ≠ []) :
    Comes fs root start links resolved.dropLast rest
  | enter {links : Nat} {resolved rest : List String} {step : String}
    (h : Comes fs root start links resolved (step :: rest)) (hup : step ≠ "..")
    (hl : fs.linkTarget? (Path.pushAll root (resolved ++ [step])) = none) :
    Comes fs root start links (resolved ++ [step]) rest
  | near {links : Nat} {resolved rest : List String} {step target : String}
    (h : Comes fs root start (links + 1) resolved (step :: rest)) (hup : step ≠ "..")
    (hl : fs.linkTarget? (Path.pushAll root (resolved ++ [step])) = some target)
    (hrel : Path.isAbsolute target = false) :
    Comes fs root start links resolved (Path.trail target ++ rest)
  | far {links : Nat} {resolved rest steps : List String} {step target : String}
    (h : Comes fs root start (links + 1) resolved (step :: rest)) (hup : step ≠ "..")
    (hl : fs.linkTarget? (Path.pushAll root (resolved ++ [step])) = some target)
    (habs : Path.isAbsolute target = true) (hin : insideRoot fs root target = some steps) :
    Comes fs root start links [] (steps ++ rest)

/-- What a join cannot go on from. -/
inductive Barred (fs : FileSystem) (root : String) :
    (links : Nat) → (resolved pending : List String) → Prop where
  /-- `..` at the root. -/
  | above {links : Nat} {rest : List String} : Barred fs root links [] (".." :: rest)
  /-- An absolute link outside the root, as it is given and in its canonical form. -/
  | outside {links : Nat} {resolved rest : List String} {step target : String} (hup : step ≠ "..")
    (hl : fs.linkTarget? (Path.pushAll root (resolved ++ [step])) = some target)
    (habs : Path.isAbsolute target = true)
    (hgiven : Path.beyond (Path.components root) (Path.components target) = none)
    (hcanonical : ∀ names, fs.canonicalize root = .ok names →
      Path.beyond (.root :: names.map .name) (Path.components target) = none) :
    Barred fs root (links + 1) resolved (step :: rest)
  /-- A link behind the last one that may be followed. -/
  | overrun {resolved rest : List String} {step target : String} (hup : step ≠ "..")
    (hl : fs.linkTarget? (Path.pushAll root (resolved ++ [step])) = some target) :
    Barred fs root 0 resolved (step :: rest)

/-- Why a path is refused: it is absolute, or the join comes to what it cannot go on from. -/
inductive Escapes (fs : FileSystem) (root relative : String) : Prop where
  | absolute (h : Path.isAbsolute relative = true)
  | barred {links : Nat} {resolved pending : List String}
    (h : Comes fs root (Path.trail relative) links resolved pending)
    (hb : Barred fs root links resolved pending)

theorem Barred.follow {links : Nat} {resolved pending : List String}
    (h : Barred fs root links resolved pending) :
    follow fs root links resolved pending = none := by
  cases h with
  | above => exact follow_top
  | outside hup hl habs hgiven hcanonical =>
    exact follow_outside hup hl habs (insideRoot_of_outside hgiven hcanonical)
  | overrun hup hl => exact follow_overrun hup hl

/-- What a join comes to has the outcome of the whole. -/
theorem Comes.follow {start : List String} {links : Nat} {resolved pending : List String}
    (h : Comes fs root start links resolved pending) :
    Sandbox.follow fs root FileTree.linkLimit [] start =
      Sandbox.follow fs root links resolved pending := by
  induction h with
  | start => rfl
  | up _ hne ih => rw [ih, follow_up hne]
  | enter _ hup hl ih => rw [ih, follow_enter hup hl]
  | near _ hup hl hrel ih => rw [ih, follow_near hup hl hrel]
  | far _ hup hl habs hin ih => rw [ih, follow_far hup hl habs hin]

/-- A join that fails from somewhere comes to what bars it. -/
theorem barred_of_follow (hroot : RootAt fs root base) {start : List String} {links : Nat}
    {resolved pending : List String} (hc : Comes fs root start links resolved pending)
    (hf : Sandbox.follow fs root links resolved pending = none) :
    ∃ links resolved pending, Comes fs root start links resolved pending ∧
      Barred fs root links resolved pending := by
  fun_induction Sandbox.follow fs root links resolved pending with
  | case1 => cases hf
  | case2 => exact ⟨_, _, _, hc, .above⟩
  | case3 links rest first more ih => exact ih (hc.up (List.cons_ne_nil _ _)) hf
  | case4 links resolved step rest hup hl ih => exact ih (hc.enter hup hl) hf
  | case5 resolved step rest hup target hl => exact ⟨_, _, _, hc, .overrun hup hl⟩
  | case6 resolved step rest hup target hl links habs hin =>
    have hgiven := hroot.insideRoot_eq_none habs hin
    refine ⟨_, _, _, hc, .outside hup hl habs hgiven fun names hnames => ?_⟩
    obtain rfl : names = base := Except.ok.inj (hnames.symm.trans hroot.canonicalize)
    rw [← hroot.components]
    exact hgiven
  | case7 resolved step rest hup target hl links habs steps hin ih =>
    exact ih (hc.far hup hl habs hin) hf
  | case8 resolved step rest hup target hl links habs hdir =>
    rw [Path.directions_components (Bool.not_eq_true _ ▸ habs)] at hdir
    cases hdir
  | case9 resolved step rest hup target hl links habs steps hdir ih =>
    have hrel : Path.isAbsolute target = false := Bool.not_eq_true _ ▸ habs
    rw [Path.directions_components hrel, Option.some.injEq] at hdir
    subst hdir
    exact ih (hc.near hup hl hrel) hf

/-- A join fails exactly if it comes to what bars it. -/
theorem follow_eq_none_iff (hroot : RootAt fs root base) {start : List String} :
    Sandbox.follow fs root FileTree.linkLimit [] start = none ↔
      ∃ links resolved pending, Comes fs root start links resolved pending ∧
        Barred fs root links resolved pending := by
  refine ⟨barred_of_follow hroot .start, ?_⟩
  rintro ⟨links, resolved, pending, hc, hb⟩
  rw [hc.follow, hb.follow]

end

/-! ## Joins -/

section
variable {fs : FileSystem} {root relative : String}

theorem names_relative (hrel : Path.isAbsolute relative = false) :
    names fs root relative = follow fs root FileTree.linkLimit [] (Path.trail relative) := by
  rw [names, Path.directions_components hrel, Option.bind_some]

theorem names_absolute (habs : Path.isAbsolute relative = true) :
    names fs root relative = none := by
  rw [names, Path.directions_components_absolute habs, Option.bind_none]

theorem join_ok_iff {path : String} :
    join fs root relative = .ok path ↔
      ∃ found, names fs root relative = some found ∧ path = Path.pushAll root found := by
  unfold join
  cases names fs root relative with
  | none => simp
  | some found => simp [eq_comm]

theorem join_error_iff {f : Failure} :
    join fs root relative = .error f ↔
      f = .of (.pathEscape root relative) ∧ names fs root relative = none := by
  unfold join
  cases names fs root relative with
  | none => simp [eq_comm]
  | some names => simp

variable {base : List String}

theorem names_eq_none_iff (hroot : RootAt fs root base) :
    names fs root relative = none ↔ Escapes fs root relative := by
  cases hrel : Path.isAbsolute relative with
  | true => exact iff_of_true (names_absolute hrel) (.absolute hrel)
  | false =>
    rw [names_relative hrel, follow_eq_none_iff hroot]
    constructor
    · rintro ⟨links, resolved, pending, hc, hb⟩
      exact .barred hc hb
    · rintro (habs | ⟨hc, hb⟩)
      · rw [hrel] at habs
        cases habs
      · exact ⟨_, _, _, hc, hb⟩

/-- A path whose walk stays inside, and means something, is accepted. -/
theorem join_of_staysInside (hroot : RootAt fs root base)
    (hrel : Path.isAbsolute relative = false) {place : List String}
    (hr : fs.resolve (Path.push root relative) = .ok place)
    (hinside : StaysInside fs root base relative)
    (hlook : ∀ seen ∈ joinLookups fs root relative, Admits seen) :
    ∃ names, (∀ n ∈ names, Path.IsName n) ∧ place = base ++ names ∧
      join fs root relative = .ok (Path.pushAll root names) := by
  obtain ⟨links, names, hwithin⟩ := hinside
  -- The system goes to the root and then the same way, over as many links.
  obtain ⟨used, hused, hleads⟩ := FileSystem.leads_of_resolve hr
  rw [FileSystem.start, Path.isAbsolute_behind hrel, hroot.isAbsolute, if_pos rfl,
    Path.trail_push hrel, hroot.trail] at hleads
  have hbelow := hwithin.leads hroot
  rw [List.append_nil] at hbelow
  obtain ⟨rfl, rfl⟩ := hleads.agree (hroot.leads.append hbelow)
  rw [joinLookups, Path.directions_components hrel] at hlook
  obtain ⟨hf, hstands⟩ := follow_of_within hroot hwithin (by omega)
    (fun s => Path.isDirection_of_mem_trail) stands_nil hlook
  refine ⟨names, hstands.plain, rfl, ?_⟩
  unfold join
  rw [names_relative hrel, hf]

end

/-- **What is accepted.** Let the root be a directory, given by a canonical path.

* A relative path that means something, over no more links than the system follows, and whose walk
  stays inside the root, is joined as the canonical path to it, provided that the system takes every
  path that is looked at.
* A join fails exactly for a cause, and then with the escape of its path. -/
theorem join_accepts {fs : FileSystem} {root : String} {base : List String}
    (hdir : fs.isDirectory root = true) (hcanonical : fs.canonicalize root = .ok base)
    (hcomps : Path.components root = .root :: base.map .name) (relative : String) :
    (∀ place, Path.isAbsolute relative = false →
      fs.resolve (Path.push root relative) = .ok place →
      StaysInside fs root base relative →
      (∀ seen ∈ joinLookups fs root relative, Admits seen) →
      ∃ path, join fs root relative = .ok path ∧
        Path.components path = .root :: place.map .name ∧
        (root = Path.ofNames base → path = Path.ofNames place)) ∧
    ∀ f, join fs root relative = .error f ↔
      f = .of (.pathEscape root relative) ∧ Escapes fs root relative := by
  have hroot := rootAt_of_isDirectory hdir hcanonical hcomps
  constructor
  · intro place hrel hr hinside hlook
    obtain ⟨names, hplain, rfl, hj⟩ := join_of_staysInside hroot hrel hr hinside hlook
    refine ⟨_, hj, ?_, ?_⟩
    · rw [Path.components_pushAll hplain, hcomps, List.map_append]
      rfl
    · rintro rfl
      have hall := List.forall_mem_append.mpr ⟨hroot.plain, hplain⟩
      rw [← Path.pushAll_top hroot.plain, ← Path.pushAll_append, Path.pushAll_top hall]
  · intro f
    rw [join_error_iff, names_eq_none_iff hroot]

theorem staysInside_linkedBox : StaysInside linkedBox "/box" ["box"] "near/../far" := by
  have hrel : Path.trail "near/../far" = ["near", "..", "far"] := by decide
  have hreal : Path.trail "real" = ["real"] := by decide
  have hfar : Path.beyond (Path.components "/box") (Path.components "/box/near/dir") =
      some [.name "near", .name "dir"] := by decide
  refine ⟨3, ["real", "dir"], ?_⟩
  rw [hrel]
  refine .near rfl (by decide) rfl (by decide) ?_
  rw [hreal]
  refine .enter rfl (by decide) rfl nofun (.up (by decide) rfl ?_)
  refine .far rfl (by decide) rfl (by decide) hfar rfl ?_
  refine .near rfl (by decide) rfl (by decide) ?_
  rw [hreal]
  exact .enter rfl (by decide) rfl nofun (.enter rfl (by decide) rfl nofun .done)

/-- `..` behind a link, and an absolute link over another link, stay inside; `..` at the root does
not. -/
theorem join_accepts_linkedBox :
    join linkedBox "/box" "near/../far" = .ok "/box/real/dir" ∧
      join linkedBox "/box" "near/../.." = .error (.of (.pathEscape "/box" "near/../..")) := by
  have hbox : linkedBox.resolve "/box" = .ok ["box"] := by
    rw [FileSystem.resolve_absolute _ "/box" ["box"] (by decide)]
    simp [linkedBox, FileTree.walk, FileTree.at?]
  have hmeant : linkedBox.resolve "/box/near/../far" = .ok ["box", "real", "dir"] := by
    have hreal : Path.steps "real" = ["real"] := by decide
    have hfar : Path.steps "/box/near/dir" = ["box", "near", "dir"] := by decide
    rw [FileSystem.resolve_absolute _ _ ["box", "near", "..", "far"] (by decide)]
    simp [linkedBox, FileTree.walk, FileTree.at?, FileTree.child?, List.lookup_cons, hreal, hfar,
      FileTree.linkLimit, Path.isAbsolute]
  have hdir := FileSystem.isDirectory_of_resolve hbox rfl
  have hcanonical : linkedBox.canonicalize "/box" = .ok ["box"] :=
    FileSystem.canonicalize_ofNames rfl hbox rfl
  have hcomps : Path.components "/box" = [.root, .name "box"] := by decide
  constructor
  · have hlook : ∀ seen ∈ joinLookups linkedBox "/box" "near/../far", Admits seen := by
      rw [joinLookups_linkedBox]
      decide
    obtain ⟨path, hj, -, htext⟩ := (join_accepts hdir hcanonical hcomps "near/../far").1 _
      (by decide) hmeant staysInside_linkedBox hlook
    rw [hj, htext rfl]
    rfl
  · obtain ⟨near, real, -, -⟩ := linkedBox_links
    have htrail : Path.trail "near/../.." = ["near", "..", ".."] := by decide
    have hreal : Path.trail "real" = ["real"] := by decide
    have hnear : Path.pushAll "/box" ([] ++ ["near"]) = "/box/near" := by decide
    have hbelow : Path.pushAll "/box" ([] ++ ["real"]) = "/box/real" := by decide
    rw [← hnear] at near
    rw [← hbelow] at real
    refine ((join_accepts hdir hcanonical hcomps "near/../..").2 _).mpr ⟨rfl, ?_⟩
    have hstart : Comes linkedBox "/box" (Path.trail "near/../..") FileTree.linkLimit []
        ["near", "..", ".."] := by
      rw [htrail]
      exact .start
    have hcomes := hstart.near (by decide) near (by decide)
    rw [hreal] at hcomes
    exact .barred ((hcomes.enter (by decide) real).up (by decide)) .above

/-! ## Links out of sight

A link whose path is too long to be taken is none for the join, which then goes up from the link
itself, and may so leave a root that the system does not leave. -/

/-- Directories one inside the other, and what is in the innermost. -/
def nest (names : List String) (tree : FileTree) : FileTree :=
  names.foldr (fun name inner => .directory [(name, inner)]) tree

theorem at?_nest (names : List String) (tree : FileTree) :
    (nest names tree).at? names = some tree := by
  induction names with
  | nil => rfl
  | cons name names ih => simpa [nest, FileTree.at?, FileTree.child?] using ih

def deepName : String := String.ofList (List.replicate 255 'd')

def deepNames : List String := List.replicate 15 deepName

/-- A link to a link to a directory inside another one. -/
def deepEntries : List (String × FileTree) :=
  [("b", .link deepName), (deepName, .link "x/y"), ("x", .directory [("y", .directory [])])]

/-- The links are so deep that the path to one of them is too long. -/
def deepBox : FileSystem := ⟨nest deepNames (.directory deepEntries), []⟩

def deepRoot : String := Path.ofNames deepNames

theorem toList_deepName : deepName.toList = List.replicate 255 'd' := String.toList_ofList ..

theorem eq_of_mem_deepName {c : Char} (h : c ∈ deepName.toList) : c = 'd' := by
  rw [toList_deepName] at h
  exact List.eq_of_mem_replicate h

theorem deepName_ne {s : String} (h : s.toList.length ≠ 255) : deepName ≠ s := by
  rintro rfl
  rw [toList_deepName, List.length_replicate] at h
  exact h rfl

theorem isName_deepName : Path.IsName deepName :=
  ⟨deepName_ne (by decide), deepName_ne (by decide), deepName_ne (by decide),
    fun h => absurd (eq_of_mem_deepName h) (by decide)⟩

theorem zero_not_mem_deepName : '\x00' ∉ deepName.toList :=
  fun h => absurd (eq_of_mem_deepName h) (by decide)

theorem utf8ByteSize_replicate {c : Char} (hc : c.utf8Size = 1) (n : Nat) :
    (String.ofList (List.replicate n c)).utf8ByteSize = n := by
  induction n with
  | zero => rfl
  | succ n ih =>
    rw [List.replicate_succ, String.ofList_cons, String.utf8ByteSize_append, ih,
      String.utf8ByteSize_singleton, hc]
    exact Nat.add_comm ..

theorem utf8ByteSize_deepName : deepName.utf8ByteSize = 255 := utf8ByteSize_replicate rfl 255

theorem plain_deepNames : ∀ n ∈ deepNames, Path.IsName n := by
  intro n hn
  rw [List.eq_of_mem_replicate hn]
  exact isName_deepName

theorem lookup_deepEntries :
    deepEntries.lookup "b" = some (.link deepName) ∧
      deepEntries.lookup deepName = some (.link "x/y") ∧
      deepEntries.lookup "x" = some (.directory [("y", .directory [])]) := by
  have hb : (deepName == "b") = false := beq_eq_false_iff_ne.mpr (deepName_ne (by decide))
  have hx : ("x" == deepName) = false :=
    beq_eq_false_iff_ne.mpr (deepName_ne (by decide)).symm
  simp [deepEntries, List.lookup_cons, hb, hx]

theorem at?_deepBox : deepBox.root.at? deepNames = some (.directory deepEntries) :=
  at?_nest ..

theorem at?_deepBox_nil :
    deepBox.root.at? (deepNames ++ []) = some (.directory deepEntries) := by
  rw [List.append_nil]
  exact at?_deepBox

theorem at?_deepBox_x :
    deepBox.root.at? (deepNames ++ ["x"]) = some (.directory [("y", .directory [])]) := by
  rw [FileTree.at?_concat at?_deepBox, lookup_deepEntries.2.2]

theorem at?_deepBox_y :
    deepBox.root.at? (deepNames ++ ["x", "y"]) = some (.directory []) := by
  have hy := FileTree.at?_concat at?_deepBox_x "y"
  rw [List.append_assoc] at hy
  exact hy

theorem deepRoot_eq : deepRoot = Path.slashed deepNames := Path.ofNames_cons ..

theorem zero_not_mem_deepRoot : '\x00' ∉ deepRoot.toList := by
  rw [deepRoot_eq]
  refine Path.zero_not_mem_slashed fun n hn => ?_
  rw [List.eq_of_mem_replicate hn]
  exact zero_not_mem_deepName

theorem utf8ByteSize_deepRoot : deepRoot.utf8ByteSize = 3840 := by
  have hsize : ∀ n ∈ deepNames, n.utf8ByteSize = 255 := fun n hn => by
    rw [List.eq_of_mem_replicate hn, utf8ByteSize_deepName]
  rw [deepRoot_eq, Path.utf8ByteSize_slashed hsize, deepNames, List.length_replicate]

theorem getLast?_deepRoot : deepRoot.toList.getLast? ≠ some '/' := by
  have hlast : deepNames = List.replicate 14 deepName ++ [deepName] := List.replicate_succ'
  have hone (path name : String) : Path.pushAll path [name] = Path.push path name := rfl
  rw [deepRoot, ← Path.pushAll_top plain_deepNames, hlast, Path.pushAll_append, hone]
  exact Path.getLast?_push isName_deepName

section
variable {relative : String} (hrel : Path.isAbsolute relative = false)
include hrel

/-- Paths behind the root are taken up to a length. -/
theorem admits_deep (hz : '\x00' ∉ relative.toList) :
    Admits (Path.push deepRoot relative) ↔ 3841 + relative.utf8ByteSize < FileTree.pathLimit := by
  have hempty : deepRoot ≠ "" := by simp [deepRoot, Path.ofNames]
  rcases @Path.push_relative deepRoot relative hrel with ⟨-, hb | hl⟩ | ⟨hp, -⟩
  · exact absurd hb hempty
  · exact absurd hl getLast?_deepRoot
  · have hone : "/".utf8ByteSize = 1 := rfl
    simp [hp, Admits, zero_not_mem_deepRoot, hz, hempty, utf8ByteSize_deepRoot, hone]

/-- The system comes to the root and goes on from there. -/
theorem resolve_deep (hne : relative ≠ "") (ha : Admits (Path.push deepRoot relative)) :
    deepBox.resolve (Path.push deepRoot relative) =
      deepBox.root.walk true FileTree.linkLimit deepNames (Path.steps relative) := by
  have habs : Path.isAbsolute deepRoot = true := Path.isAbsolute_ofNames _
  rw [FileSystem.resolve, FileSystem.locate_eq_walk ha, FileSystem.start,
    Path.isAbsolute_behind hrel, if_pos habs, Path.steps_behind hrel hne, deepRoot,
    Path.named_ofNames plain_deepNames, FileTree.walk_over at?_deepBox plain_deepNames]

end

theorem rootAt_deepRoot : RootAt deepBox deepRoot deepNames where
  canonicalize := by
    refine FileSystem.canonicalize_ofNames rfl ?_ at?_deepBox
    have ha : Admits deepRoot :=
      ⟨zero_not_mem_deepRoot, by simp [deepRoot, Path.ofNames],
        by rw [utf8ByteSize_deepRoot]; decide⟩
    have habs : Path.isAbsolute deepRoot = true := Path.isAbsolute_ofNames _
    have hover := FileTree.walk_over at?_deepBox plain_deepNames FileTree.linkLimit []
    rw [List.append_nil, FileTree.walk] at hover
    rw [FileSystem.resolve, FileSystem.locate_eq_walk ha, FileSystem.start, if_pos habs, deepRoot,
      Path.steps_ofNames plain_deepNames (List.cons_ne_nil _ _), hover]
  directory := ⟨_, at?_deepBox⟩
  components := Path.components_ofNames plain_deepNames

/-- The system comes to `y`, and goes up twice. -/
theorem resolve_deepBox : deepBox.resolve (Path.push deepRoot "b/../..") = .ok deepNames := by
  obtain ⟨hb, hdeep, hx⟩ := lookup_deepEntries
  have hrel : Path.isAbsolute "b/../.." = false := by decide
  have ha : Admits (Path.push deepRoot "b/../..") :=
    (admits_deep hrel (by decide)).mpr (by decide)
  have hsteps : Path.steps "b/../.." = ["b", "..", ".."] := by decide
  have hlink : Path.steps deepName = [deepName] := Path.steps_name isName_deepName
  have hstart : Path.isAbsolute deepName = false := Path.isAbsolute_name isName_deepName
  have hinner : Path.steps "x/y" = ["x", "y"] := by decide
  rw [resolve_deep hrel (by decide) ha, hsteps]
  show deepBox.root.walk true (38 + 1 + 1) deepNames ["b", "..", ".."] = _
  -- Over both links,
  rw [FileTree.walk_link _ _ _ at?_deepBox _ (by decide) (by decide) hb (Or.inl rfl), hstart,
    if_neg Bool.false_ne_true, hlink, List.singleton_append,
    FileTree.walk_link _ _ _ at?_deepBox _ isName_deepName.2.1 isName_deepName.2.2.1 hdeep
      (Or.inl rfl), if_neg (by decide), hinner]
  show deepBox.root.walk true 38 deepNames ["x", "y", "..", ".."] = _
  -- down to the directory inside the other one,
  rw [FileTree.walk_enter _ _ _ at?_deepBox _ (by decide) (by decide) hx (by simp),
    FileTree.walk_enter _ _ _ at?_deepBox_x _ (by decide) (by decide) rfl (by simp),
    List.append_assoc]
  show deepBox.root.walk true 38 (deepNames ++ ["x", "y"]) ["..", ".."] = _
  -- and up again.
  rw [FileTree.walk_up _ _ _ at?_deepBox_y, List.dropLast_append_of_ne_nil (List.cons_ne_nil _ _)]
  show deepBox.root.walk true 38 (deepNames ++ ["x"]) [".."] = _
  rw [FileTree.walk_up _ _ _ at?_deepBox_x, List.dropLast_concat, FileTree.walk]

theorem staysInside_deepBox : StaysInside deepBox deepRoot deepNames "b/../.." := by
  obtain ⟨hb, hdeep, hx⟩ := lookup_deepEntries
  have hrel : Path.trail "b/../.." = ["b", "..", ".."] := by decide
  have hlink : Path.trail deepName = [deepName] := Path.trail_name isName_deepName
  have hinner : Path.trail "x/y" = ["x", "y"] := by decide
  refine ⟨2, [], ?_⟩
  rw [hrel]
  refine .near at?_deepBox_nil (by decide) hb (Path.isAbsolute_name isName_deepName) ?_
  rw [hlink]
  refine .near at?_deepBox_nil isName_deepName.2.2.1 hdeep (by decide) ?_
  rw [hinner]
  refine .enter at?_deepBox_nil (by decide) hx (by simp) ?_
  refine .enter at?_deepBox_x (by decide) rfl (by simp) ?_
  exact .up (by simp) at?_deepBox_y (.up (by simp) at?_deepBox_x .done)

/-- The join takes the link that it cannot see for a directory, and goes up from it to the root and
beyond. -/
theorem join_deepBox :
    join deepBox deepRoot "b/../.." = .error (.of (.pathEscape deepRoot "b/../..")) := by
  have hrel : Path.trail "b/../.." = ["b", "..", ".."] := by decide
  have hlink : Path.trail deepName = [deepName] := Path.trail_name isName_deepName
  have hpath (name : String) : Path.pushAll deepRoot ([] ++ [name]) = Path.push deepRoot name := rfl
  have hb : deepBox.linkTarget? (Path.pushAll deepRoot ([] ++ ["b"])) = some deepName := by
    have ha : Admits (Path.pushAll deepRoot ([] ++ ["b"])) := by
      rw [hpath, admits_deep (by decide) (by decide)]
      decide
    rw [linkTarget?_below rootAt_deepRoot.resolve stands_nil (by decide) at?_deepBox_nil
      ha, linkIn?, lookup_deepEntries.1]
  have hfar : deepBox.linkTarget? (Path.pushAll deepRoot ([] ++ [deepName])) = none := by
    rw [hpath]
    refine FileSystem.linkTarget?_of_not_admits fun ha => ?_
    rw [admits_deep (Path.isAbsolute_name isName_deepName) zero_not_mem_deepName,
      utf8ByteSize_deepName] at ha
    exact absurd ha (by decide)
  refine join_error_iff.mpr ⟨rfl, (names_eq_none_iff rootAt_deepRoot).mpr ?_⟩
  have hstart : Comes deepBox deepRoot (Path.trail "b/../..") FileTree.linkLimit []
      ["b", "..", ".."] := by
    rw [hrel]
    exact .start
  have hcomes := hstart.near (by decide) hb (Path.isAbsolute_name isName_deepName)
  rw [hlink] at hcomes
  exact .barred ((hcomes.enter isName_deepName.2.2.1 hfar).up (by simp)) .above

/-- The path leads to the root itself and no further, and is refused. -/
theorem join_refuses_deepBox :
    deepBox.isDirectory deepRoot = true ∧ deepBox.canonicalize deepRoot = .ok deepNames ∧
      Path.components deepRoot = .root :: deepNames.map .name ∧
      deepBox.resolve (Path.push deepRoot "b/../..") = .ok deepNames ∧
      StaysInside deepBox deepRoot deepNames "b/../.." ∧
      join deepBox deepRoot "b/../.." = .error (.of (.pathEscape deepRoot "b/../..")) :=
  ⟨FileSystem.isDirectory_of_resolve rootAt_deepRoot.resolve at?_deepBox,
    rootAt_deepRoot.canonicalize, rootAt_deepRoot.components, resolve_deepBox, staysInside_deepBox,
    join_deepBox⟩

end Sandbox
end StepPipeline

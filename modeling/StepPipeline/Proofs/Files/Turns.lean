import StepPipeline.Proofs.Files.Acceptance
import Mathlib.Logic.Relation

/-!
# The loop of a join ends

A join takes the first of its pending directions, over and over. A link puts the directions of its
target in front of the others, so there may be more of them after a turn than before, and links may
lead back to themselves. What ends the loop is the limit on links, and what bounds it is the length
of the paths that it was given: its own and the targets of the links.

**Turns (`Turn`, `Refused`).** What one turn of the loop makes of where it stands; in a turn that is
refused the loop gives up. The limit on links is a parameter here.

**Ends (`Ends`).** How many turns the loop takes from where it stands, the targets of all links that
it has followed by then, and the names that it comes to, if it does not give up.

**Chains (`Chain`).** Links that stand in the root, each to the name of the next.

**Results.**
* `wellFounded_turn`: a turn uses up one of the links that are left, or else a direction.
* `exists_ends`: so the loop ends, wherever it stands.
* `Ends.turns_le`, `Ends.followed_le`: after how many turns and links.
* `Ends.follow_eq`: what it comes to is what a join comes to.
* `Ends.with_limit`: another limit counts only when more links would be followed.
* `chain_of_links`: links in the tree are a chain if the system takes the paths to them.
* `join_of_cycle`: links that lead to each other only are refused.
* `join_ends`: how every join goes with the limit of the system.
-/
namespace StepPipeline

open FileSystem (Admits)

namespace Path

/-- How many components the paths have, all together. -/
def componentCount : (paths : List String) → Nat
  | [] => 0
  | path :: rest => (components path).length + componentCount rest

theorem componentCount_concat (paths : List String) (path : String) :
    componentCount (paths ++ [path]) = componentCount paths + (components path).length := by
  induction paths with
  | nil => exact Nat.add_comm ..
  | cons first rest ih => rw [List.cons_append, componentCount, ih, componentCount, Nat.add_assoc]

theorem length_directions_le {cs : List Component} {steps : List String}
    (h : directions cs = some steps) : steps.length ≤ cs.length := by
  induction cs generalizing steps with
  | nil => cases h; exact Nat.le_refl 0
  | cons c cs ih =>
    cases c with
    | root => cases h
    | current => exact Nat.le_succ_of_le (ih h)
    | parent =>
      obtain ⟨rest, hrest, rfl⟩ := Option.map_eq_some_iff.mp h
      exact Nat.succ_le_succ (ih hrest)
    | name s =>
      obtain ⟨rest, hrest, rfl⟩ := Option.map_eq_some_iff.mp h
      exact Nat.succ_le_succ (ih hrest)

theorem length_trail_le {path : String} (h : isAbsolute path = false) :
    (trail path).length ≤ (components path).length :=
  length_directions_le (directions_components h)

end Path

namespace Sandbox

/-- What an absolute link leads to inside the root is a part of its target. -/
theorem length_insideRoot_le {fs : FileSystem} {root target : String} {steps : List String}
    (h : insideRoot fs root target = some steps) :
    steps.length ≤ (Path.components target).length := by
  have hbeyond {start rest : List Path.Component}
      (hb : Path.beyond start (Path.components target) = some rest)
      (hd : Path.directions rest = some steps) :
      steps.length ≤ (Path.components target).length := by
    rw [components_of_beyond hb, List.length_append]
    exact Nat.le_trans (Path.length_directions_le hd) (Nat.le_add_left _ _)
  unfold insideRoot at h
  split at h
  · rename_i rest hb
    exact hbeyond hb h
  · split at h
    · obtain ⟨rest, hb, hd⟩ := Option.bind_eq_some_iff.mp h
      exact hbeyond hb hd
    · cases h

/-! ## Turns -/

/-- Where the loop stands. -/
structure Search where
  /-- The targets of the links that it has followed. -/
  followed : List String
  /-- The names below the root that it has come to. -/
  resolved : List String
  /-- The directions that are left. -/
  pending : List String

/-- Where the loop begins. -/
def Search.start (relative : String) : Search :=
  ⟨[], [], Path.trail relative⟩

/-- A turn of the loop, with so many links at most. -/
inductive Turn (fs : FileSystem) (root : String) (limit : Nat) : Search → Search → Prop where
  | up {followed resolved rest : List String} (hne : resolved ≠ []) :
    Turn fs root limit ⟨followed, resolved, ".." :: rest⟩ ⟨followed, resolved.dropLast, rest⟩
  | enter {followed resolved rest : List String} {step : String} (hup : step ≠ "..")
    (hl : fs.linkTarget? (Path.pushAll root (resolved ++ [step])) = none) :
    Turn fs root limit ⟨followed, resolved, step :: rest⟩ ⟨followed, resolved ++ [step], rest⟩
  | near {followed resolved rest : List String} {step target : String}
    (hb : followed.length < limit) (hup : step ≠ "..")
    (hl : fs.linkTarget? (Path.pushAll root (resolved ++ [step])) = some target)
    (hrel : Path.isAbsolute target = false) :
    Turn fs root limit ⟨followed, resolved, step :: rest⟩
      ⟨followed ++ [target], resolved, Path.trail target ++ rest⟩
  | far {followed resolved rest steps : List String} {step target : String}
    (hb : followed.length < limit) (hup : step ≠ "..")
    (hl : fs.linkTarget? (Path.pushAll root (resolved ++ [step])) = some target)
    (habs : Path.isAbsolute target = true) (hin : insideRoot fs root target = some steps) :
    Turn fs root limit ⟨followed, resolved, step :: rest⟩
      ⟨followed ++ [target], [], steps ++ rest⟩

/-- The loop gives up in this turn. -/
inductive Refused (fs : FileSystem) (root : String) (limit : Nat) : Search → Prop where
  | above {followed rest : List String} : Refused fs root limit ⟨followed, [], ".." :: rest⟩
  | outside {followed resolved rest : List String} {step target : String}
    (hb : followed.length < limit) (hup : step ≠ "..")
    (hl : fs.linkTarget? (Path.pushAll root (resolved ++ [step])) = some target)
    (habs : Path.isAbsolute target = true) (hin : insideRoot fs root target = none) :
    Refused fs root limit ⟨followed, resolved, step :: rest⟩
  | overrun {followed resolved rest : List String} {step target : String}
    (hb : limit ≤ followed.length) (hup : step ≠ "..")
    (hl : fs.linkTarget? (Path.pushAll root (resolved ++ [step])) = some target) :
    Refused fs root limit ⟨followed, resolved, step :: rest⟩

section
variable {fs : FileSystem} {root : String} {limit : Nat} {s t : Search}

/-- As long as directions are left, there is a turn, or the loop gives up. -/
theorem turn_or_refused (h : s.pending ≠ []) :
    Refused fs root limit s ∨ ∃ t, Turn fs root limit s t := by
  obtain ⟨followed, resolved, pending⟩ := s
  obtain ⟨step, rest, rfl⟩ := List.exists_cons_of_ne_nil h
  by_cases hup : step = ".."
  · subst hup
    by_cases hne : resolved = []
    · subst hne
      exact .inl .above
    · exact .inr ⟨_, .up hne⟩
  cases hl : fs.linkTarget? (Path.pushAll root (resolved ++ [step])) with
  | none => exact .inr ⟨_, .enter hup hl⟩
  | some target =>
    by_cases hb : followed.length < limit
    · cases habs : Path.isAbsolute target with
      | false => exact .inr ⟨_, .near hb hup hl habs⟩
      | true =>
        cases hin : insideRoot fs root target with
        | none => exact .inl (.outside hb hup hl habs hin)
        | some steps => exact .inr ⟨_, .far hb hup hl habs hin⟩
    · exact .inl (.overrun (Nat.not_lt.mp hb) hup hl)

/-- A turn follows a link, or takes a direction away. -/
theorem Turn.decreases (h : Turn fs root limit s t) :
    Prod.Lex (· < ·) (· < ·) (limit - t.followed.length, t.pending.length)
      (limit - s.followed.length, s.pending.length) := by
  have hlink {followed : List String} (target : String) (hb : followed.length < limit) :
      limit - (followed ++ [target]).length < limit - followed.length := by
    rw [List.length_append, List.length_singleton]
    omega
  cases h with
  | up _ => exact .right _ (Nat.lt_succ_self _)
  | enter _ _ => exact .right _ (Nat.lt_succ_self _)
  | near hb _ _ _ => exact .left _ _ (hlink _ hb)
  | far hb _ _ _ _ => exact .left _ _ (hlink _ hb)

/-- **Termination.** The loop cannot take turn after turn forever. -/
theorem wellFounded_turn (fs : FileSystem) (root : String) (limit : Nat) :
    WellFounded fun t s => Turn fs root limit s t :=
  Subrelation.wf Turn.decreases
    (InvImage.wf (fun s : Search => (limit - s.followed.length, s.pending.length))
      (Prod.lex Nat.lt_wfRel Nat.lt_wfRel).wf)

/-- What a turn adds to the pending directions comes from the target of a link. -/
theorem Turn.cost (h : Turn fs root limit s t) :
    1 + t.pending.length + Path.componentCount s.followed ≤
      s.pending.length + Path.componentCount t.followed := by
  cases h with
  | up _ => simp only [List.length_cons]; omega
  | enter _ _ => simp only [List.length_cons]; omega
  | near _ _ _ hrel =>
    have := Path.length_trail_le hrel
    simp only [Path.componentCount_concat, List.length_append, List.length_cons]
    omega
  | far _ _ _ _ hin =>
    have := length_insideRoot_le hin
    simp only [Path.componentCount_concat, List.length_append, List.length_cons]
    omega

theorem Turn.followed_le (h : Turn fs root limit s t) (hs : s.followed.length ≤ limit) :
    t.followed.length ≤ limit := by
  cases h with
  | up _ => exact hs
  | enter _ _ => exact hs
  | near hb _ _ _ => rw [List.length_append]; exact hb
  | far hb _ _ _ _ => rw [List.length_append]; exact hb

/-! ## What a join makes of a turn -/

/-- The names to which a join comes from where the loop stands. -/
def Search.names (fs : FileSystem) (root : String) (limit : Nat) (s : Search) :
    Option (List String) :=
  follow fs root (limit - s.followed.length) s.resolved s.pending

theorem links_left {followed : List String} (hb : followed.length < limit) (target : String) :
    limit - followed.length = limit - (followed ++ [target]).length + 1 := by
  rw [List.length_append, List.length_singleton]
  omega

/-- A turn changes nothing about where the join comes to. -/
theorem Turn.names_eq (h : Turn fs root limit s t) :
    s.names fs root limit = t.names fs root limit := by
  unfold Search.names
  cases h with
  | up hne => exact follow_up hne
  | enter hup hl => exact follow_enter hup hl
  | @near _ _ _ _ target hb hup hl hrel =>
    simp only [links_left hb target]
    exact follow_near hup hl hrel
  | @far _ _ _ _ _ target hb hup hl habs hin =>
    simp only [links_left hb target]
    exact follow_far hup hl habs hin

theorem Refused.names_eq (h : Refused fs root limit s) : s.names fs root limit = none := by
  unfold Search.names
  cases h with
  | above => exact follow_top
  | @outside _ _ _ _ target hb hup hl habs hin =>
    simp only [links_left hb target]
    exact follow_outside hup hl habs hin
  | overrun hb hup hl =>
    simp only [Nat.sub_eq_zero_of_le hb]
    exact follow_overrun hup hl

/-! ## Ends -/

/-- From where it stands the loop takes so many turns; then it has followed links to all these
targets, and has come to names, or given up. -/
inductive Ends (fs : FileSystem) (root : String) (limit : Nat) :
    Search → (turns : Nat) → (followed : List String) → Option (List String) → Prop where
  | done {followed resolved : List String} :
    Ends fs root limit ⟨followed, resolved, []⟩ 0 followed (some resolved)
  | refused {s : Search} (h : Refused fs root limit s) : Ends fs root limit s 1 s.followed none
  | turn {s t : Search} {turns : Nat} {followed : List String} {outcome : Option (List String)}
    (h : Turn fs root limit s t) (hs : Ends fs root limit t turns followed outcome) :
    Ends fs root limit s (turns + 1) followed outcome

/-- The loop ends, wherever it stands. -/
theorem exists_ends (fs : FileSystem) (root : String) (limit : Nat) (s : Search) :
    ∃ turns followed outcome, Ends fs root limit s turns followed outcome := by
  induction s using (wellFounded_turn fs root limit).induction with
  | h s ih =>
    by_cases hp : s.pending = []
    · obtain ⟨followed, resolved, pending⟩ := s
      subst hp
      exact ⟨0, followed, some resolved, .done⟩
    rcases turn_or_refused hp with hr | ⟨t, ht⟩
    · exact ⟨1, s.followed, none, .refused hr⟩
    · obtain ⟨turns, followed, outcome, hs⟩ := ih t ht
      exact ⟨turns + 1, followed, outcome, .turn ht hs⟩

variable {turns : Nat} {followed : List String} {outcome : Option (List String)}

/-- **Turns.** Each of them takes a direction, of the path or of the target of a link. -/
theorem Ends.turns_le (h : Ends fs root limit s turns followed outcome) :
    turns + Path.componentCount s.followed ≤
      s.pending.length + Path.componentCount followed := by
  induction h with
  | done => simp
  | refused hr =>
    cases hr <;> simp only [List.length_cons] <;> omega
  | turn ht _ ih =>
    have := ht.cost
    omega

/-- **Links.** There are no more of them than the limit allows. -/
theorem Ends.followed_le (h : Ends fs root limit s turns followed outcome)
    (hs : s.followed.length ≤ limit) : followed.length ≤ limit := by
  induction h with
  | done => exact hs
  | refused _ => exact hs
  | turn ht _ ih => exact ih (ht.followed_le hs)

/-- The loop comes to the names that the join comes to. -/
theorem Ends.follow_eq (h : Ends fs root limit s turns followed outcome) :
    s.names fs root limit = outcome := by
  induction h with
  | done => unfold Search.names; rw [follow]
  | refused hr => exact hr.names_eq
  | turn ht _ ih => rw [ht.names_eq, ih]

theorem Ends.length_le (h : Ends fs root limit s turns followed outcome) :
    s.followed.length ≤ followed.length := by
  induction h with
  | done => exact Nat.le_refl _
  | refused _ => exact Nat.le_refl _
  | turn ht _ ih =>
    refine Nat.le_trans ?_ ih
    cases ht <;> simp

/-- What the loop has reached has the outcome of the whole. -/
theorem names_eq_of_reached (h : Relation.ReflTransGen (Turn fs root limit) s t) :
    s.names fs root limit = t.names fs root limit := by
  induction h with
  | refl => rfl
  | tail _ ht ih => rw [ih, ht.names_eq]

/-! ## Other limits -/

/-- The same turn is possible with another limit, unless it follows a link too many for that. -/
theorem Turn.with_limit (h : Turn fs root limit s t) (other : Nat) :
    Turn fs root other s t ∨ Refused fs root other s ∧ other < t.followed.length := by
  have hover {followed : List String} {target : String} (hb : other ≤ followed.length) :
      other < (followed ++ [target]).length := by
    rw [List.length_append, List.length_singleton]
    omega
  cases h with
  | up hne => exact .inl (.up hne)
  | enter hup hl => exact .inl (.enter hup hl)
  | @near followed _ _ _ _ _ hup hl hrel =>
    rcases Nat.lt_or_ge followed.length other with hb | hb
    · exact .inl (.near hb hup hl hrel)
    · exact .inr ⟨.overrun hb hup hl, hover hb⟩
  | @far followed _ _ _ _ _ _ hup hl habs hin =>
    rcases Nat.lt_or_ge followed.length other with hb | hb
    · exact .inl (.far hb hup hl habs hin)
    · exact .inr ⟨.overrun hb hup hl, hover hb⟩

/-- A loop that comes to names follows the same links with another limit, if that allows so many;
otherwise it gives up. -/
theorem Ends.with_limit (h : Ends fs root limit s turns followed outcome) {names : List String}
    (hout : outcome = some names) {other : Nat} (hs : s.followed.length ≤ other) :
    s.names fs root other = if followed.length ≤ other then some names else none := by
  induction h with
  | done => rw [if_pos hs, ← hout, Search.names, follow]
  | refused _ => cases hout
  | turn ht hends ih =>
    rcases ht.with_limit other with hother | ⟨hr, hmore⟩
    · rw [hother.names_eq, ih hout (hother.followed_le hs)]
    · rw [hr.names_eq, if_neg (Nat.not_le.mpr (Nat.lt_of_lt_of_le hmore hends.length_le))]

/-! ## Chains of links -/

/-- Links that stand in the root, so many, each to the name of the next; the last is to a name that
is no link. -/
inductive Chain (fs : FileSystem) (root : String) :
    (first : String) → (links : Nat) → (last : String) → Prop where
  | last {name : String} (hname : Path.IsName name)
    (hl : fs.linkTarget? (Path.push root name) = none) : Chain fs root name 0 name
  | link {name next last : String} {links : Nat} (hname : Path.IsName name)
    (hl : fs.linkTarget? (Path.push root name) = some next) (h : Chain fs root next links last) :
    Chain fs root name (links + 1) last

theorem Chain.isName {first last : String} {links : Nat} (h : Chain fs root first links last) :
    Path.IsName first := by
  cases h with
  | last hname _ => exact hname
  | link hname _ _ => exact hname

/-- The loop goes along a chain, and follows each of its links. -/
theorem Chain.ends {first last : String} {links : Nat} (h : Chain fs root first links last)
    (before : List String) (hb : before.length + links ≤ limit) :
    ∃ turns followed, Ends fs root limit ⟨before, [], [first]⟩ turns followed (some [last]) ∧
      followed.length = before.length + links := by
  induction h generalizing before with
  | last hname hl => exact ⟨1, before, .turn (.enter hname.2.2.1 hl) .done, rfl⟩
  | @link name next last links hname hl hc ih =>
    have hlength : (before ++ [next]).length = before.length + 1 := by simp
    obtain ⟨turns, followed, hends, hcount⟩ := ih (before ++ [next]) (by omega)
    have hturn : Turn fs root limit ⟨before, [], [name]⟩
        ⟨before ++ [next], [], Path.trail next ++ []⟩ :=
      .near (by omega) hname.2.2.1 hl (Path.isAbsolute_name hc.isName)
    rw [Path.trail_name hc.isName] at hturn
    exact ⟨turns + 1, followed, .turn hturn hends, by omega⟩

/-- Links that the tree has in the root, each to the next, are a chain if the system takes the paths
to them. -/
theorem chain_of_links {base : List String} {entries : List (String × FileTree)}
    (hroot : fs.resolve root = .ok base) (hd : fs.root.at? base = some (.directory entries))
    {name : Nat → String} (n : Nat) (hplain : ∀ k ≤ n, Path.IsName (name k))
    (hadmits : ∀ k ≤ n, Admits (Path.push root (name k)))
    (hlinks : ∀ k < n, entries.lookup (name k) = some (.link (name (k + 1))))
    (hlast : linkIn? entries (name n) = none) : Chain fs root (name 0) n (name n) := by
  have hbase : fs.root.at? (base ++ []) = some (.directory entries) := by
    rw [List.append_nil]
    exact hd
  have hlook (k : Nat) (hk : k ≤ n) :
      fs.linkTarget? (Path.push root (name k)) = linkIn? entries (name k) :=
    linkTarget?_below hroot stands_nil (hplain k hk) hbase (hadmits k hk)
  have hfrom (k : Nat) (hk : k ≤ n) : Chain fs root (name (n - k)) k (name n) := by
    induction k with
    | zero => exact .last (hplain n (Nat.le_refl n)) ((hlook n (Nat.le_refl n)).trans hlast)
    | succ k ih =>
      have hnext : n - (k + 1) + 1 = n - k := by omega
      refine .link (hplain _ (Nat.sub_le n _)) ?_ (ih (Nat.le_of_succ_le hk))
      rw [hlook _ (Nat.sub_le n _), linkIn?, hlinks _ (by omega), hnext]
  have hall := hfrom n (Nat.le_refl n)
  rwa [Nat.sub_self] at hall

/-- Among links that lead to each other only, the loop comes to nothing else. -/
theorem Ends.of_cycle {cycle : List String} (hplain : ∀ name ∈ cycle, Path.IsName name)
    (hlinks : ∀ name ∈ cycle, ∃ next ∈ cycle, fs.linkTarget? (Path.push root name) = some next)
    (h : Ends fs root limit s turns followed outcome) {name : String} (hname : name ∈ cycle)
    (hresolved : s.resolved = []) (hpending : s.pending = [name]) : outcome = none := by
  induction h generalizing name with
  | done => cases hpending
  | refused _ => rfl
  | turn ht _ ih =>
    obtain ⟨next, hnext, hl⟩ := hlinks name hname
    cases ht with
    | up _ =>
      obtain ⟨rfl, -⟩ := List.cons.inj hpending
      exact absurd rfl (hplain _ hname).2.2.1
    | enter _ hnone =>
      obtain ⟨rfl, -⟩ := List.cons.inj hpending
      cases hresolved
      cases hnone.symm.trans hl
    | near _ _ htarget _ =>
      obtain ⟨rfl, rfl⟩ := List.cons.inj hpending
      cases hresolved
      cases htarget.symm.trans hl
      refine ih hnext rfl ?_
      rw [Path.trail_name (hplain next hnext), List.append_nil]
    | far _ _ htarget habs _ =>
      obtain ⟨rfl, -⟩ := List.cons.inj hpending
      cases hresolved
      cases htarget.symm.trans hl
      rw [Path.isAbsolute_name (hplain next hnext)] at habs
      cases habs

theorem Search.start_name {name : String} (h : Path.IsName name) :
    Search.start name = ⟨[], [], [name]⟩ := by
  rw [start, Path.trail_name h]

end

/-! ## Joins -/

section
variable {fs : FileSystem} {root relative : String}

theorem names_eq_start (hrel : Path.isAbsolute relative = false) :
    names fs root relative = (Search.start relative).names fs root FileTree.linkLimit :=
  names_relative hrel

/-- What a join gives for what its loop comes to. -/
def answer (root relative : String) : Option (List String) → Except Failure String
  | some names => .ok (Path.pushAll root names)
  | none => .error (.of (.pathEscape root relative))

theorem join_eq_answer (hrel : Path.isAbsolute relative = false) :
    join fs root relative =
      answer root relative ((Search.start relative).names fs root FileTree.linkLimit) := by
  rw [← names_eq_start hrel, join]
  cases names fs root relative <;> rfl

/-- How a join of a relative path goes, with the limit of the system. -/
structure Ending (fs : FileSystem) (root relative : String) : Prop where
  /-- The loop ends. -/
  ends : ∃ turns followed outcome,
    Ends fs root FileTree.linkLimit (Search.start relative) turns followed outcome
  /-- There is at most one turn for each component of the path, and of the targets of the links
  followed, of which there are at most so many. -/
  bounded : ∀ {turns followed outcome},
    Ends fs root FileTree.linkLimit (Search.start relative) turns followed outcome →
      followed.length ≤ FileTree.linkLimit ∧ turns ≤ Path.componentCount (relative :: followed)
  /-- What the loop comes to is what the join gives. -/
  answer : ∀ {turns followed outcome},
    Ends fs root FileTree.linkLimit (Search.start relative) turns followed outcome →
      join fs root relative = answer root relative outcome
  /-- A link is refused when so many have been followed. -/
  overrun : ∀ {followed resolved rest step target},
    Relation.ReflTransGen (Turn fs root FileTree.linkLimit) (Search.start relative)
      ⟨followed, resolved, step :: rest⟩ →
    followed.length = FileTree.linkLimit → step ≠ ".." →
    fs.linkTarget? (Path.pushAll root (resolved ++ [step])) = some target →
      join fs root relative = .error (.of (.pathEscape root relative))
  /-- If the loop comes to names with any limit, it does with that of the system, unless it follows
  more links. -/
  links : ∀ {limit turns followed names},
    Ends fs root limit (Search.start relative) turns followed (some names) →
      join fs root relative =
        if followed.length ≤ FileTree.linkLimit then .ok (Path.pushAll root names)
        else .error (.of (.pathEscape root relative))

theorem ending (hrel : Path.isAbsolute relative = false) : Ending fs root relative where
  ends := exists_ends fs root FileTree.linkLimit (Search.start relative)
  bounded := by
    intro turns followed outcome h
    refine ⟨h.followed_le (Nat.zero_le _), ?_⟩
    have hturns := h.turns_le
    have htrail := Path.length_trail_le hrel
    simp only [Search.start, Path.componentCount] at hturns ⊢
    omega
  answer h := by rw [join_eq_answer hrel, h.follow_eq]
  overrun := by
    intro followed resolved rest step target hreach hfull hup hl
    have hrefused : Refused fs root FileTree.linkLimit ⟨followed, resolved, step :: rest⟩ :=
      .overrun (Nat.le_of_eq hfull.symm) hup hl
    rw [join_eq_answer hrel, names_eq_of_reached hreach, hrefused.names_eq, answer]
  links := by
    intro limit turns followed names h
    rw [join_eq_answer hrel, h.with_limit rfl (Nat.zero_le _), apply_ite (answer root relative)]
    rfl

/-- Links that lead to each other only are refused, each of them. -/
theorem join_of_cycle {cycle : List String} (hplain : ∀ name ∈ cycle, Path.IsName name)
    (hlinks : ∀ name ∈ cycle, ∃ next ∈ cycle, fs.linkTarget? (Path.push root name) = some next)
    {name : String} (hname : name ∈ cycle) :
    join fs root name = .error (.of (.pathEscape root name)) := by
  have hrelative : Ending fs root name := ending (Path.isAbsolute_name (hplain name hname))
  obtain ⟨turns, followed, outcome, hends⟩ := hrelative.ends
  have hpending : (Search.start name).pending = [name] := Path.trail_name (hplain name hname)
  rw [hrelative.answer hends, hends.of_cycle hplain hlinks hname rfl hpending, answer]

end

/-- **Termination.** In any file system and below any root, whatever its links lead to:

* the loop cannot take turn after turn forever, from wherever it stands;
* a relative path is joined after as many turns as there are components in it and in the targets of
  the links that were followed, at the most, and those are at most forty; with one more to follow,
  the join fails with the escape of the path;
* the join of an absolute path fails before the loop;
* a chain of links is joined as the name behind it if there are forty or fewer, and is refused if
  there are more.

A link is what the system shows as one at the path that the loop looks at; where it does not take the
path, there is none. -/
theorem join_ends (fs : FileSystem) (root : String) :
    (WellFounded fun t s => Turn fs root FileTree.linkLimit s t) ∧
    FileTree.linkLimit = 40 ∧
    (∀ relative, Path.isAbsolute relative = false → Ending fs root relative) ∧
    (∀ relative, Path.isAbsolute relative = true →
      join fs root relative = .error (.of (.pathEscape root relative))) ∧
    ∀ first links last, Chain fs root first links last →
      join fs root first =
        if links ≤ 40 then .ok (Path.push root last)
        else .error (.of (.pathEscape root first)) := by
  refine ⟨wellFounded_turn fs root _, rfl, fun relative => ending, fun relative habs => ?_,
    fun first links last hchain => ?_⟩
  · exact join_error_iff.mpr ⟨rfl, names_absolute habs⟩
  · obtain ⟨turns, followed, hends, hcount⟩ :=
      hchain.ends [] (Nat.le_of_eq (Nat.zero_add links))
    rw [← Search.start_name hchain.isName] at hends
    rw [(ending (Path.isAbsolute_name hchain.isName)).links hends, hcount]
    simp [FileTree.linkLimit, Path.pushAll]

/-- The names of the links in a chain, each one letter longer than the one before. -/
def rung (k : Nat) : String := String.ofList (List.replicate (k + 1) 'l')

/-- So many links, each to the next. -/
def rungs : Nat → List (String × FileTree)
  | 0 => []
  | n + 1 => (rung n, .link (rung (n + 1))) :: rungs n

def ladder (n : Nat) : FileSystem := ⟨.directory [("box", .directory (rungs n))], []⟩

theorem toList_rung (k : Nat) : (rung k).toList = List.replicate (k + 1) 'l' :=
  String.toList_ofList ..

theorem eq_of_mem_rung {k : Nat} {c : Char} (h : c ∈ (rung k).toList) : c = 'l' := by
  rw [toList_rung] at h
  exact List.eq_of_mem_replicate h

theorem isName_rung (k : Nat) : Path.IsName (rung k) := by
  have hne {s : String} (h : s.toList.head? ≠ some 'l') : rung k ≠ s := by
    rintro rfl
    rw [toList_rung] at h
    exact h rfl
  exact ⟨hne (by decide), hne (by decide), hne (by decide),
    fun h => absurd (eq_of_mem_rung h) (by decide)⟩

theorem admits_rung {k : Nat} (hk : k ≤ 41) : Admits (Path.push "/box" (rung k)) := by
  have hpush : Path.push "/box" (rung k) = "/box/" ++ rung k := by
    rw [Path.push, Path.isAbsolute_name (isName_rung k), if_neg Bool.false_ne_true,
      if_neg (by decide)]
    rfl
  have hsize : (rung k).utf8ByteSize = k + 1 := utf8ByteSize_replicate rfl (k + 1)
  have hfront : "/box/".utf8ByteSize = 5 := rfl
  have hzero : '\x00' ∉ (rung k).toList := fun h => absurd (eq_of_mem_rung h) (by decide)
  rw [hpush]
  refine ⟨?_, by simp, ?_⟩
  · rw [String.toList_append, List.mem_append, not_or]
    exact ⟨by decide, hzero⟩
  · rw [String.utf8ByteSize_append, hsize, hfront, FileTree.pathLimit]
    omega

theorem lookup_rungs (n k : Nat) :
    (rungs n).lookup (rung k) = if k < n then some (.link (rung (k + 1))) else none := by
  have hlength (m : Nat) : (rung m).length = m + 1 := by simp [rung]
  induction n with
  | zero => rfl
  | succ n ih =>
    rw [rungs, List.lookup_cons, ih]
    by_cases hk : k = n
    · simp [hk]
    · have hne : (rung k == rung n) = false := by
        rw [beq_eq_false_iff_ne]
        intro heq
        have := congrArg String.length heq
        rw [hlength, hlength] at this
        omega
      rw [hne]
      grind

theorem chain_ladder {n : Nat} (hn : n ≤ 41) : Chain (ladder n) "/box" "l" n (rung n) := by
  have hbox : (ladder n).resolve "/box" = .ok ["box"] := by
    rw [FileSystem.resolve_absolute _ "/box" ["box"] (by decide)]
    simp [ladder, FileTree.walk, FileTree.at?]
  refine chain_of_links hbox rfl n (fun k _ => isName_rung k) (fun k hk => admits_rung (by omega))
    (fun k hk => ?_) ?_
  · rw [lookup_rungs, if_pos hk]
  · rw [linkIn?, lookup_rungs, if_neg (Nat.lt_irrefl n)]

/-- Forty links are followed, and a chain of forty-one is refused. -/
theorem join_ends_ladder :
    join (ladder 40) "/box" "l" = .ok (Path.push "/box" (rung 40)) ∧
      join (ladder 41) "/box" "l" = .error (.of (.pathEscape "/box" "l")) := by
  obtain ⟨-, -, -, -, hforty⟩ := join_ends (ladder 40) "/box"
  obtain ⟨-, -, -, -, hmore⟩ := join_ends (ladder 41) "/box"
  exact ⟨hforty "l" 40 _ (chain_ladder (by decide)), hmore "l" 41 _ (chain_ladder (by decide))⟩

end Sandbox
end StepPipeline

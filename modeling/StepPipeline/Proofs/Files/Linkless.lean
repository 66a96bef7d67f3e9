import StepPipeline.Proofs.Files.Acceptance

/-!
# Joins where no link is

Below a root without links a join need not look at the files: it is a normal form of the path.

**Directions by themselves.** `Path.Balanced`: nowhere on the way has there been more `..` than
names. `Path.collapse`: what is left of the directions if each `..` takes away the name before it.

**Trees without links (`Linkless`).** What stands below the root may be directories and files, or
not be there at all.

**Results.**
* `Path.balanced_cancel`, `Path.collapse_cancel`: to cancel a `..` against the name before it changes
  neither whether directions are balanced nor what is left of them.
* `linkTarget?_linkless`: none of the paths that a join looks at is a link.
* `follow_linkless`: so the join collapses the directions, or they are not balanced.
* `join_linkless`: which paths are accepted, and what they are joined to.
-/
namespace StepPipeline

open FileSystem (Admits)

namespace Path

/-! ## Directions by themselves -/

/-- No first part of the directions has more `..` than names. -/
def Balanced (steps : List String) : Prop :=
  ∀ front, front <+: steps → front.count ".." ≤ front.countP (· ≠ "..")

/-- What is left of the directions if each `..` takes away the name before it. -/
def collapse (steps : List String) : List String :=
  steps.foldl (fun names step => if step = ".." then names.dropLast else names ++ [step]) []

theorem balanced_iff_take {steps : List String} :
    Balanced steps ↔
      ∀ n < steps.length + 1, (steps.take n).count ".." ≤ (steps.take n).countP (· ≠ "..") := by
  refine ⟨fun h n _ => h _ (List.take_prefix n steps), fun h front hp => ?_⟩
  have := h front.length (Nat.lt_succ_of_le hp.length_le)
  rwa [← List.prefix_iff_eq_take.mp hp] at this

instance (steps : List String) : Decidable (Balanced steps) :=
  decidable_of_iff _ balanced_iff_take.symm

section
variable {a b names : List String} {name : String}

theorem balanced_append :
    Balanced (a ++ b) ↔ Balanced a ∧
      ∀ front, front <+: b → (a ++ front).count ".." ≤ (a ++ front).countP (· ≠ "..") := by
  refine ⟨fun h => ⟨fun front hp => h front (hp.trans (List.prefix_append a b)),
    fun front hp => h _ ((List.prefix_append_right_inj a).mpr hp)⟩, ?_⟩
  rintro ⟨ha, hb⟩ front hp
  rcases List.prefix_or_prefix_of_prefix hp (List.prefix_append a b) with hf | ⟨rest, rfl⟩
  · exact ha front hf
  · exact hb rest ((List.prefix_append_right_inj a).mp hp)

theorem balanced_names (h : ".." ∉ names) : Balanced names := fun front hp => by
  rw [List.count_eq_zero.mpr fun hm => h (hp.subset hm)]
  exact Nat.zero_le _

theorem not_balanced_up : ¬Balanced (".." :: b) := fun h => by
  have := h [".."] (by simp)
  revert this
  decide

theorem balanced_cancel (hname : name ≠ "..") :
    Balanced (a ++ name :: ".." :: b) ↔ Balanced (a ++ b) := by
  simp only [balanced_append]
  refine and_congr_right fun ha => ⟨fun h front hp => ?_, fun h front hp => ?_⟩
  · have := h (name :: ".." :: front) (by simpa using hp)
    simp [hname] at this ⊢
    omega
  · -- A first part of what is behind `a` ends before the name, behind it, or behind the `..`.
    have hself := ha a (List.prefix_refl a)
    rcases List.prefix_cons_iff.mp hp with rfl | ⟨behind, rfl, hbehind⟩
    · simpa using hself
    rcases List.prefix_cons_iff.mp hbehind with rfl | ⟨more, rfl, hmore⟩
    · simp [hname] at hself ⊢
      omega
    · have := h more hmore
      simp [hname] at this ⊢
      omega

theorem collapse_append (hb : ".." ∉ b) : collapse (a ++ b) = collapse a ++ b := by
  induction b generalizing a with
  | nil => simp
  | cons name rest ih =>
    rw [List.mem_cons, not_or] at hb
    obtain ⟨hname, hrest⟩ := hb
    have hone : collapse (a ++ [name]) = collapse a ++ [name] := by simp [collapse, Ne.symm hname]
    rw [List.append_cons, ih hrest, hone, List.append_assoc]
    rfl

theorem collapse_names (h : ".." ∉ names) : collapse names = names :=
  collapse_append (a := []) h

theorem collapse_cancel (hname : name ≠ "..") :
    collapse (a ++ name :: ".." :: b) = collapse (a ++ b) := by
  simp [collapse, hname]

end

end Path

/-! ## Trees without links -/

namespace Sandbox

/-- No link stands below the root. -/
def Linkless (fs : FileSystem) (root : String) : Prop :=
  ∀ base names target, fs.rootPlace root = .ok base → names ≠ [] →
    fs.root.at? (base ++ names) ≠ some (.link target)

end Sandbox

/-- Where no link is, names lead to themselves. -/
theorem FileTree.walk_linkless {root : FileTree} {follow : Bool} {links : Nat}
    {here names place : List String} (hn : ∀ n ∈ names, Path.IsName n)
    (hl : ∀ front target, front ≠ [] → root.at? (here ++ front) ≠ some (.link target))
    (h : root.walk follow links here names = .ok place) : place = here ++ names := by
  induction names generalizing here with
  | nil => rw [walk] at h; cases h; simp
  | cons name rest ih =>
    obtain ⟨⟨-, hdot, hup, -⟩, hrest⟩ := List.forall_mem_cons.mp hn
    obtain ⟨entries, hd⟩ := walk_cons_ok h
    cases hlook : entries.lookup name with
    | none => rw [walk_missing _ _ _ hd _ hdot hup hlook] at h; cases h
    | some tree =>
      have ht : ∀ target, tree ≠ .link target := by
        rintro target rfl
        exact hl [name] target (List.cons_ne_nil _ _) ((at?_concat hd name).trans hlook)
      rw [walk_enter _ _ _ hd _ hdot hup hlook ht] at h
      have hbelow : ∀ front target, front ≠ [] →
          root.at? (here ++ [name] ++ front) ≠ some (.link target) := fun front target _ => by
        rw [List.append_assoc]
        exact hl _ target (List.cons_ne_nil _ _)
      rw [ih hrest hbelow h, List.append_assoc, List.singleton_append]

namespace Sandbox

section
variable {fs : FileSystem} {root : String} (h : Linkless fs root)
include h

theorem linkTarget?_linkless {names : List String} (hn : ∀ n ∈ names, Path.IsName n)
    (hne : names ≠ []) : fs.linkTarget? (Path.pushAll root names) = none := by
  by_cases ha : Admits (Path.pushAll root names)
  · rw [FileSystem.linkTarget?_eq ha, FileSystem.start, Path.isAbsolute_pushAll hn,
      Path.steps_pushAll hn root hne]
    show FileTree.linkAt? fs.root FileTree.linkLimit (fs.start root) _ = none
    unfold FileTree.linkAt?
    split
    · rename_i place hw
      obtain ⟨links, base, -, hwalk, hbase⟩ := FileSystem.walk_root hne hw
      have hroot : fs.rootPlace root = .ok base := hbase <| by
        by_cases he : root = ""
        · exact Or.inl he
        · exact Or.inr (ha.of_pushAll hn he)
      have hbelow front target := h base front target hroot
      rw [FileTree.walk_linkless hn hbelow hwalk]
      split
      · exact absurd ‹_› (hbelow names _ hne)
      · rfl
    · rfl
  · exact FileSystem.linkTarget?_of_not_admits ha

/-- **The loop.** With names resolved, the join collapses them and the directions behind them. -/
theorem follow_linkless {links : Nat} {resolved pending names : List String}
    (hr : ∀ n ∈ resolved, Path.IsName n) (hp : ∀ s ∈ pending, Path.IsDirection s) :
    follow fs root links resolved pending = some names ↔
      Path.Balanced (resolved ++ pending) ∧ names = Path.collapse (resolved ++ pending) := by
  induction pending generalizing resolved with
  | nil =>
    have hup : ".." ∉ resolved := fun hm => (hr _ hm).2.2.1 rfl
    rw [follow, List.append_nil, Path.collapse_names hup, Option.some.injEq, eq_comm]
    exact (and_iff_right (Path.balanced_names hup)).symm
  | cons step rest ih =>
    obtain ⟨rfl | hstep, hrest⟩ := List.forall_mem_cons.mp hp
    · rcases List.eq_nil_or_concat resolved with rfl | ⟨front, name, rfl⟩
      · rw [follow_top]
        simp [Path.not_balanced_up]
      · rw [List.concat_eq_append] at hr ⊢
        obtain ⟨hfront, hname⟩ := List.forall_mem_append.mp hr
        have hup : name ≠ ".." := (hname name List.mem_cons_self).2.2.1
        rw [follow_up (by simp), List.dropLast_concat, ih hfront hrest, List.append_assoc,
          List.singleton_append, Path.balanced_cancel hup, Path.collapse_cancel hup]
    · have hnext : ∀ n ∈ resolved ++ [step], Path.IsName n := by
        rintro n hm
        rcases List.mem_append.mp hm with hm | hm
        · exact hr n hm
        · exact List.mem_singleton.mp hm ▸ hstep
      have hlink := linkTarget?_linkless h hnext (by simp)
      rw [follow_enter hstep.2.2.1 hlink, ih hnext hrest, ← List.append_cons]

/-- **Normal forms.** Without links, a join does not depend on the files: a relative path whose
directions are balanced is joined as what is left of them, and any other path is refused. -/
theorem join_linkless (relative : String) :
    (∀ path, join fs root relative = .ok path ↔
      Path.isAbsolute relative = false ∧ Path.Balanced (Path.trail relative) ∧
        path = Path.pushAll root (Path.collapse (Path.trail relative))) ∧
    ∀ f, join fs root relative = .error f ↔
      ¬(Path.isAbsolute relative = false ∧ Path.Balanced (Path.trail relative)) ∧
        f = .of (.pathEscape root relative) := by
  have hnames (names : List String) : Sandbox.names fs root relative = some names ↔
      (Path.isAbsolute relative = false ∧ Path.Balanced (Path.trail relative)) ∧
        names = Path.collapse (Path.trail relative) := by
    cases habs : Path.isAbsolute relative with
    | true => simp [names_absolute habs]
    | false =>
      have hloop := @follow_linkless fs root h FileTree.linkLimit [] (Path.trail relative) names
        (by simp) fun s => Path.isDirection_of_mem_trail
      simpa [names_relative habs] using hloop
  constructor
  · intro path
    rw [join_ok_iff]
    constructor
    · rintro ⟨names, hn, rfl⟩
      obtain ⟨⟨habs, hb⟩, rfl⟩ := (hnames names).mp hn
      exact ⟨habs, hb, rfl⟩
    · rintro ⟨habs, hb, rfl⟩
      exact ⟨_, (hnames _).mpr ⟨⟨habs, hb⟩, rfl⟩, rfl⟩
  · intro f
    rw [join_error_iff, Option.eq_none_iff_forall_ne_some, and_comm]
    refine and_congr_left fun _ => ⟨fun hnone hb => ?_, fun hb names hn => ?_⟩
    · exact hnone _ ((hnames _).mpr ⟨hb, rfl⟩)
    · exact hb ((hnames names).mp hn).1

end

/-- A box with a directory and a file. -/
def plainBox : FileSystem :=
  ⟨.directory [("box", .directory [("real", .directory []), ("note", .file [])])], []⟩

theorem linkless_plainBox : Linkless plainBox "/box" := by
  have hroot : plainBox.rootPlace "/box" = .ok ["box"] := by
    rw [FileSystem.rootPlace, if_neg (by decide),
      FileSystem.resolve_absolute _ "/box" ["box"] (by decide)]
    simp [plainBox, FileTree.walk, FileTree.at?]
  intro base names target hbase hne
  rw [hroot] at hbase
  cases hbase
  obtain ⟨name, rest, rfl⟩ := List.exists_cons_of_ne_nil hne
  have hbox : plainBox.root.at? ["box"] =
    some (.directory [("real", .directory []), ("note", .file [])]) := rfl
  rw [FileTree.at?_append, hbox]
  rcases rest with _ | ⟨inner, rest⟩ <;>
    cases hreal : name == "real" <;> cases hnote : name == "note" <;>
      simp [FileTree.at?, FileTree.child?, List.lookup_cons, hreal, hnote]

/-- What goes through a file or through nothing is joined all the same; a path that goes up once too
often is refused, wherever it goes then. -/
theorem join_linkless_plainBox :
    Linkless plainBox "/box" ∧
      join plainBox "/box" "note/inner/./../../gone//../real" = .ok "/box/real" ∧
      join plainBox "/box" "real/../../box/real" =
        .error (.of (.pathEscape "/box" "real/../../box/real")) := by
  have hinside := (join_linkless linkless_plainBox "note/inner/./../../gone//../real").1
  have hoff := (join_linkless linkless_plainBox "real/../../box/real").2
  exact ⟨linkless_plainBox, (hinside _).mpr (by decide),
    (hoff _).mpr ⟨by decide, rfl⟩⟩

end Sandbox
end StepPipeline

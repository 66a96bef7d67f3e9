import StepPipeline.Proofs.Files.Acceptance

/-!
# Joining in stages

A join takes the directions of a path one after the other. So it can be cut in two: the first
directions lead to names below the root, and the others go on from there. Here the names of the
first stage are made a path again, and the second stage is a join of its own.

**What the first stage leaves (`follow_append`).** Links that the first directions lead over are
followed to their end before the next direction is taken; what is left of the links goes on.

**What the second join needs (`follow_confined_names`, `follow_mono`).** Names that a join has
resolved are no links, so they are resolved to themselves and use up no link; and a join that may
follow more links comes to the same names.

**Results.**
* `join_in_stages`: a path is joined as its front is, and what is behind the front from there;
  what a join returns is joined to itself; and with a front that is refused the path is.
-/
namespace StepPipeline

namespace Path

/-! ## Paths with a slash between them -/

theorem pieces_slash (a b : String) : pieces (a ++ "/" ++ b) = pieces a ++ pieces b := by
  simp [pieces, splitSlash_slash]

theorem trail_slash (a b : String) : trail (a ++ "/" ++ b) = trail a ++ trail b := by
  simp [trail, named, pieces_slash]

theorem isAbsolute_slash {a : String} (h : a ≠ "") (b : String) :
    isAbsolute (a ++ "/" ++ b) = isAbsolute a := by
  obtain ⟨c, rest, hc⟩ := List.exists_cons_of_ne_nil (show a.toList ≠ [] by simpa using h)
  simp [isAbsolute, hc]

/-- Names as a relative path. -/
def ofRelative (names : List String) : String := pushAll "" names

section
variable {names : List String} (h : ∀ n ∈ names, IsName n)
include h

theorem isAbsolute_ofRelative : isAbsolute (ofRelative names) = false := isAbsolute_pushAll h ""

theorem trail_ofRelative : trail (ofRelative names) = names := by
  have hdots : names.filter (· ≠ ".") = names :=
    List.filter_eq_self.mpr fun n hn => decide_eq_true (h n hn).2.1
  have hempty : named "" = [] := rfl
  rw [trail, ofRelative, named_pushAll h, hempty, List.nil_append, hdots]

end
end Path

namespace Sandbox

section
variable {fs : FileSystem} {root : String} {links : Nat} {resolved pending names : List String}

/-- **Stages.** A join of directions goes on from where the first of them lead, with the links that
they left. -/
theorem follow_append {more : List String}
    (h : follow fs root links resolved (pending ++ more) = some names) :
    ∃ left mid, left ≤ links ∧ follow fs root links resolved pending = some mid ∧
      follow fs root left mid more = some names := by
  fun_induction follow fs root links resolved pending with
  | case1 links resolved => exact ⟨links, resolved, Nat.le_refl links, rfl, h⟩
  | case2 => rw [List.cons_append, follow_top] at h; cases h
  | case3 links rest first others ih =>
    rw [List.cons_append, follow_up (List.cons_ne_nil _ _)] at h
    exact ih h
  | case4 links resolved step rest hup hl ih =>
    rw [List.cons_append, follow_enter hup hl] at h
    exact ih h
  | case5 resolved step rest hup target hl =>
    rw [List.cons_append, follow_overrun hup hl] at h
    cases h
  | case6 resolved step rest hup target hl links habs hin =>
    rw [List.cons_append, follow_outside hup hl habs hin] at h
    cases h
  | case7 resolved step rest hup target hl links habs steps hin ih =>
    rw [List.cons_append, follow_far hup hl habs hin, ← List.append_assoc] at h
    obtain ⟨left, mid, hle, hmid, hmore⟩ := ih h
    exact ⟨left, mid, Nat.le_succ_of_le hle, hmid, hmore⟩
  | case8 resolved step rest hup target hl links habs hdir =>
    rw [Path.directions_components (Bool.not_eq_true _ ▸ habs)] at hdir
    cases hdir
  | case9 resolved step rest hup target hl links habs steps hdir ih =>
    have hrel : Path.isAbsolute target = false := Bool.not_eq_true _ ▸ habs
    rw [Path.directions_components hrel, Option.some.injEq] at hdir
    subst hdir
    rw [List.cons_append, follow_near hup hl hrel, ← List.append_assoc] at h
    obtain ⟨left, mid, hle, hmid, hmore⟩ := ih h
    exact ⟨left, mid, Nat.le_succ_of_le hle, hmid, hmore⟩

/-- More links to follow lead to the same names. -/
theorem follow_mono {more : Nat} (h : follow fs root links resolved pending = some names)
    (hle : links ≤ more) : follow fs root more resolved pending = some names := by
  fun_induction follow fs root links resolved pending generalizing more with
  | case1 => rw [follow]; exact h
  | case2 => cases h
  | case3 links rest first others ih =>
    rw [follow_up (List.cons_ne_nil _ _)]
    exact ih h hle
  | case4 links resolved step rest hup hl ih =>
    rw [follow_enter hup hl]
    exact ih h hle
  | case5 => cases h
  | case6 => cases h
  | case7 resolved step rest hup target hl links habs steps hin ih =>
    obtain ⟨more, rfl⟩ : ∃ n, more = n + 1 := ⟨more - 1, by omega⟩
    rw [follow_far hup hl habs hin]
    exact ih h (Nat.le_of_succ_le_succ hle)
  | case8 => cases h
  | case9 resolved step rest hup target hl links habs steps hdir ih =>
    have hrel : Path.isAbsolute target = false := Bool.not_eq_true _ ▸ habs
    rw [Path.directions_components hrel, Option.some.injEq] at hdir
    subst hdir
    obtain ⟨more, rfl⟩ : ∃ n, more = n + 1 := ⟨more - 1, by omega⟩
    rw [follow_near hup hl hrel]
    exact ih h (Nat.le_of_succ_le_succ hle)

/-- Names from which no link leads away are joined as they are, and use up no link. -/
theorem follow_confined_names (hc : Confined fs root (resolved ++ names)) :
    follow fs root links resolved (names ++ pending) =
      follow fs root links (resolved ++ names) pending := by
  induction names generalizing resolved with
  | nil => rw [List.nil_append, List.append_nil]
  | cons name rest ih =>
    rw [List.append_cons] at hc ⊢
    have hname : Path.IsName name := hc.plain name (by simp)
    have hl : fs.linkTarget? (Path.pushAll root (resolved ++ [name])) = none :=
      hc.linkless _ (by simp) (List.prefix_append _ _)
    rw [List.cons_append, follow_enter hname.2.2.1 hl, ih hc]

end

/-! ## Joining in two stages -/

section
variable {fs : FileSystem} {root a b : String}

/-- The names of the whole path are those of its rest behind the names of its front. -/
theorem names_in_stages (ha : a ≠ "") (hb : Path.isAbsolute b = false) {names : List String}
    (h : Sandbox.names fs root (a ++ "/" ++ b) = some names) :
    ∃ first, Sandbox.names fs root a = some first ∧
      Sandbox.names fs root (Path.push (Path.ofRelative first) b) = some names := by
  cases habs : Path.isAbsolute a with
  | true =>
    rw [names_absolute (by rw [Path.isAbsolute_slash ha, habs])] at h
    cases h
  | false =>
    rw [names_relative (by rw [Path.isAbsolute_slash ha, habs]), Path.trail_slash] at h
    obtain ⟨left, first, hle, hfirst, hrest⟩ := follow_append h
    have hnames : Sandbox.names fs root a = some first := by rw [names_relative habs, hfirst]
    have hc := names_confined hnames
    refine ⟨first, hnames, ?_⟩
    have hrel : Path.isAbsolute (Path.push (Path.ofRelative first) b) = false := by
      rw [Path.isAbsolute_behind hb, Path.isAbsolute_ofRelative hc.plain]
    rw [names_relative hrel, Path.trail_push hb, Path.trail_ofRelative hc.plain]
    rw [follow_confined_names (by simpa using hc), List.nil_append]
    exact follow_mono hrest hle

theorem names_again {names : List String} (h : Sandbox.names fs root a = some names) :
    Sandbox.names fs root (Path.ofRelative names) = some names := by
  have hc := names_confined h
  have hjoin := @follow_confined_names fs root FileTree.linkLimit [] [] names (by simpa using hc)
  rw [List.append_nil, List.nil_append, follow] at hjoin
  rw [names_relative (Path.isAbsolute_ofRelative hc.plain), Path.trail_ofRelative hc.plain, hjoin]

/-- A joined path says which names were pushed onto the root. -/
theorem pushAll_injective {names names' : List String} (h : ∀ n ∈ names, Path.IsName n)
    (h' : ∀ n ∈ names', Path.IsName n)
    (he : Path.pushAll root names = Path.pushAll root names') : names = names' := by
  have hcomps := congrArg Path.components he
  rw [Path.components_pushAll h, Path.components_pushAll h'] at hcomps
  exact (List.map_inj_right fun _ _ => Path.Component.name.inj).mp (List.append_cancel_left hcomps)

end

/-- **Two stages.** If a path is joined, its front is, and the rest can be joined behind the names
that the front leads to: both ways come to the same path. What a join returns is joined to itself.
If the front is refused, so is every path that goes on from it. -/
theorem join_in_stages (fs : FileSystem) (root : String) {a : String} (ha : a ≠ "") :
    (∀ b path, Path.isAbsolute b = false → join fs root (a ++ "/" ++ b) = .ok path →
      ∃ names, (∀ n ∈ names, Path.IsName n) ∧ join fs root a = .ok (Path.pushAll root names) ∧
        join fs root (Path.push (Path.ofRelative names) b) = .ok path) ∧
    (∀ relative names, (∀ n ∈ names, Path.IsName n) →
      join fs root relative = .ok (Path.pushAll root names) →
      join fs root (Path.ofRelative names) = .ok (Path.pushAll root names)) ∧
    ∀ f, join fs root a = .error f → f.code = .pathEscape ∧
      ∀ b, Path.isAbsolute b = false →
        join fs root (a ++ "/" ++ b) = .error (.of (.pathEscape root (a ++ "/" ++ b))) := by
  refine ⟨fun b path hb hj => ?_, fun relative names hplain hj => ?_, fun f hf => ?_⟩
  · obtain ⟨names, hn, rfl⟩ := join_ok_iff.mp hj
    obtain ⟨first, hfirst, hsecond⟩ := names_in_stages ha hb hn
    exact ⟨first, (names_confined hfirst).plain, join_ok_iff.mpr ⟨first, hfirst, rfl⟩,
      join_ok_iff.mpr ⟨names, hsecond, rfl⟩⟩
  · obtain ⟨found, hfound, he⟩ := join_ok_iff.mp hj
    obtain rfl := pushAll_injective hplain (names_confined hfound).plain he
    exact join_ok_iff.mpr ⟨names, names_again hfound, rfl⟩
  · obtain ⟨rfl, hnone⟩ := join_error_iff.mp hf
    refine ⟨rfl, fun b hb => join_error_iff.mpr ⟨rfl, ?_⟩⟩
    cases hn : Sandbox.names fs root (a ++ "/" ++ b) with
    | none => rfl
    | some names =>
      obtain ⟨first, hfirst, -⟩ := names_in_stages ha hb hn
      rw [hnone] at hfirst
      cases hfirst

theorem join_near_linkedBox :
    join linkedBox "/box" "near" = .ok (Path.pushAll "/box" ["real"]) := by
  obtain ⟨near, real, -, -⟩ := linkedBox_links
  have hnear : Path.trail "near" = ["near"] := by decide
  have hreal : Path.trail "real" = ["real"] := by decide
  have hbox (name : String) : Path.pushAll "/box" ([] ++ [name]) = Path.push "/box" name := rfl
  refine join_ok_iff.mpr ⟨["real"], ?_, rfl⟩
  rw [names_relative (by decide), hnear]
  show follow linkedBox "/box" (39 + 1) [] ["near"] = _
  rw [follow_near (by decide) (by rw [hbox]; exact near) (by decide), hreal]
  rw [List.append_nil, follow_enter (by decide) (by rw [hbox]; exact real), follow]
  rfl

theorem join_up_linkedBox :
    join linkedBox "/box" ".." = .error (.of (.pathEscape "/box" "..")) := by
  have hup : Path.trail ".." = [".."] := by decide
  refine join_error_iff.mpr ⟨rfl, ?_⟩
  rw [names_relative (by decide), hup, follow_top]

/-- Behind `near`, the path goes on from the directory that this link leads to. -/
theorem join_in_stages_linkedBox :
    join linkedBox "/box" "real/../far" = .ok "/box/real/dir" ∧
      join linkedBox "/box" "real" = .ok "/box/real" ∧
      join linkedBox "/box" "../real" = .error (.of (.pathEscape "/box" "../real")) := by
  obtain ⟨hstages, hagain, -⟩ := join_in_stages linkedBox "/box" (show "near" ≠ "" by decide)
  obtain ⟨-, -, hrefused⟩ := join_in_stages linkedBox "/box" (show ".." ≠ "" by decide)
  obtain ⟨names, hplain, hfirst, hsecond⟩ :=
    hstages "../far" "/box/real/dir" (by decide) join_linkedBox
  have hreal : ∀ n ∈ ["real"], Path.IsName n := by decide
  rw [join_near_linkedBox, Except.ok.injEq] at hfirst
  obtain rfl := pushAll_injective hreal hplain hfirst
  exact ⟨hsecond, hagain "near" ["real"] hreal join_near_linkedBox,
    (hrefused _ join_up_linkedBox).2 "real" (by decide)⟩

end Sandbox
end StepPipeline

import StepPipeline.Proofs.Commit.Guard
import StepPipeline.Settings

/-!
# Who commits

Git takes the author and the committer of a commit from variables. The commit step sets them from
the author that its configuration names and from a default identity, name and e-mail address apart.

**Halves (`Half`).** Whatever is said of names is said of addresses, so both are treated as one.

**Sources (`firstNonempty`).** What a half is taken from, the first source first; a source may be
absent or empty.

**Results.**
* `identified_identityEnv`: what the variables of a commit are taken from.
* `identityEnv_filter`: an author without name and address is as good as none.
* `commitStep_sets`: the commit step starts git with these variables to commit, and otherwise with
  none.
-/
namespace StepPipeline

open StepPipeline.Action (Shadows)

/-! ## Halves and sources -/

/-- The halves of an identity. -/
inductive Half where
  | name
  | email

namespace Half

def of : Half → Identity → Option String
  | name, identity => identity.name
  | email, identity => identity.email

/-- The variable of the environment that stands in for the half. -/
def override : Half → String
  | name => Settings.nameVariable
  | email => Settings.emailVariable

/-- The variable that tells git the author. -/
def author : Half → String
  | name => "GIT_AUTHOR_NAME"
  | email => "GIT_AUTHOR_EMAIL"

/-- The variable that tells git the committer. -/
def committer : Half → String
  | name => "GIT_COMMITTER_NAME"
  | email => "GIT_COMMITTER_EMAIL"

end Half

/-- The first text that is there and not empty. -/
def firstNonempty (sources : List (Option String)) : Option String :=
  sources.findSome? nonempty

theorem firstNonempty_cons (source : Option String) (sources : List (Option String)) :
    firstNonempty (source :: sources) = (nonempty source).or (firstNonempty sources) := by
  unfold firstNonempty
  rw [List.findSome?_cons]
  cases nonempty source <;> rfl

theorem firstNonempty_one (source : Option String) : firstNonempty [source] = nonempty source := by
  rw [firstNonempty_cons]
  exact Option.or_none

theorem nonempty_or (first second : Option String) :
    nonempty ((nonempty first).or second) = firstNonempty [first, second] := by
  rw [firstNonempty_cons, firstNonempty_one]
  cases h : nonempty first with
  | none => rfl
  | some text =>
    have htext : text ≠ "" := by simpa using (Option.filter_eq_some_iff.mp h).2
    simp [nonempty, htext]

/-- The variables of a commit are taken from these sources, each half by itself: the author from the
one that is configured, the environment and the settings file, the committer from the environment
and the settings file. Without a source a variable is not set, and nothing else is. -/
structure Identified (configured environment file : Half → Option String)
    (bindings : List (String × String)) : Prop where
  author : ∀ half : Half, bindings.lookup half.author =
    firstNonempty [configured half, environment half, file half]
  committer : ∀ half : Half, bindings.lookup half.committer =
    firstNonempty [environment half, file half]
  only : ∀ pair ∈ bindings, ∃ half : Half, pair.1 = half.author ∨ pair.1 = half.committer
  once : (bindings.map (·.1)).Nodup

namespace Repository

theorem lookup_binding (name : String) (value : Option String) (rest : List (String × String))
    (key : String) :
    (binding name value ++ rest).lookup key =
      if key = name then value.or (rest.lookup key) else rest.lookup key := by
  cases value with
  | none => simp [binding]
  | some v =>
    by_cases hk : key = name
    · simp [binding, hk]
    · have hbeq : (key == name) = false := beq_eq_false_iff_ne.mpr hk
      simp [binding, List.lookup_cons, hk, hbeq]

theorem keys_binding (name : String) (value : Option String) :
    ((binding name value).map (·.1)).Sublist [name] := by
  cases value with
  | none => exact List.nil_sublist _
  | some v => exact List.Sublist.refl _

theorem keys_identityEnv (default : Identity) (author : Option Identity) :
    ((identityEnv default author).map (·.1)).Sublist
      [Half.name.author, Half.email.author, Half.name.committer, Half.email.committer] := by
  unfold identityEnv
  simp only [List.map_append]
  exact (((keys_binding _ _).append (keys_binding _ _)).append (keys_binding _ _)).append
    (keys_binding _ _)

theorem identified_identityEnv {default : Identity} {environment file : Half → Option String}
    (author : Option Identity)
    (h : ∀ half : Half, nonempty (half.of default) = firstNonempty [environment half, file half]) :
    Identified (fun half => author.bind half.of) environment file (identityEnv default author) := by
  have hlast (name : String) (value : Option String) (key : String) :
      (binding name value).lookup key = if key = name then value else none := by
    simpa using lookup_binding name value [] key
  refine ⟨fun half => ?_, fun half => ?_, fun pair hpair => ?_, ?_⟩
  · rw [firstNonempty_cons, ← h half]
    cases half <;> cases author <;>
      simp [identityEnv, List.append_assoc, lookup_binding, hlast, Half.author, pick, Half.of]
  · rw [← h half]
    cases half <;>
      simp [identityEnv, List.append_assoc, lookup_binding, hlast, Half.committer, Half.of]
  · have hkey := (keys_identityEnv default author).subset (List.mem_map_of_mem hpair)
    simp only [List.mem_cons, List.not_mem_nil, or_false] at hkey
    rcases hkey with hkey | hkey | hkey | hkey
    · exact ⟨.name, Or.inl hkey⟩
    · exact ⟨.email, Or.inl hkey⟩
    · exact ⟨.name, Or.inr hkey⟩
    · exact ⟨.email, Or.inr hkey⟩
  · exact (keys_identityEnv default author).nodup (by decide)

/-- The configured name is empty and the file gives no address, so one comes from each. -/
example :
    identityEnv ⟨some "Promoter", none⟩ (some ⟨some "", some "dev@example.com"⟩) =
      [("GIT_AUTHOR_NAME", "Promoter"), ("GIT_AUTHOR_EMAIL", "dev@example.com"),
        ("GIT_COMMITTER_NAME", "Promoter")] := by
  decide

theorem identityEnv_filter (default : Identity) (author : Option Identity) :
    identityEnv default (author.filter fun author => !author.isEmpty) =
      identityEnv default author := by
  cases author with
  | none => rfl
  | some author =>
    by_cases he : author.isEmpty = true
    · obtain ⟨hname, hemail⟩ := Bool.and_eq_true_iff.mp he
      rw [Option.isNone_iff_eq_none] at hname hemail
      have hnone : nonempty none = none := rfl
      simp [Option.filter_some, he, identityEnv, pick, hname, hemail, hnone]
    · simp [Option.filter_some, he]

/-! ## The commit step -/

/-- Git is started with these variables if it is to commit, and with none otherwise. -/
def Sets (bindings : List (String × String)) (launch : Launch) : Prop :=
  launch.program = "git" ∧
    launch.env = if launch.args.head? = some "commit" then bindings else []

theorem sets_of_check {path : String} {launch : Launch} (bindings : List (String × String))
    (h : launch ∈ [insideCheck path, topCheck path]) : Sets bindings launch := by
  rw [List.mem_cons, List.mem_singleton] at h
  rcases h with rfl | rfl <;> exact ⟨rfl, rfl⟩

theorem sets_of_onTree {identity : Identity} {author : Option Identity} {path : String}
    {launch : Launch} (h : OnTree identity author path launch) :
    Sets (identityEnv identity author) launch := by
  cases h with
  | commit message => exact ⟨rfl, rfl⟩
  | other h => exact ⟨rfl, (if_neg h).symm⟩

variable {ω : Type} [Host ω]

theorem inspect_sets (root path : String) (bindings : List (String × String)) (w : ω) :
    Shadows (inspect root path) (inspect root path) w
      fun (added : List (Started ω)) _ _ => ∀ s ∈ added, Sets bindings s.launch := by
  refine (inspect_passes root path w).mono fun added result _ h s hs => ?_
  have hcheck : s.launch ∈ [insideCheck path, topCheck path] := by
    cases h with
    | refused f h => exact h.subset (List.mem_map_of_mem hs)
    | passed h =>
      rw [List.mem_cons, List.mem_singleton] at hs
      rcases hs with rfl | rfl
      · exact h.insideAsked ▸ List.mem_cons_self
      · exact h.topAsked ▸ List.mem_cons_of_mem _ List.mem_cons_self
  exact sets_of_check bindings hcheck

theorem commitStep_sets (identity : Identity) {ctx : StepContext} {config : CommitConfig}
    (hd : decodeConfig CommitConfig.decode ctx.type ctx.config = .ok config) (w : ω) :
    Shadows (commitStep (load identity) ctx) (commitStep (load identity) ctx) w
      fun (added : List (Started ω)) _ _ => ∀ s ∈ added,
        Sets (identityEnv identity config.author) s.launch := by
  unfold commitStep
  rw [hd]
  refine .ofExcept_bind nofun ?_
  rintro _ ⟨⟩
  refine .look_bind (fun _ _ => nofun) fun path _ => ?_
  simp only [load, Action.within_return_bind]
  refine .bind_all (.within (inspect_sets ctx.workDir path _ w)) fun _ after => ?_
  refine (commitChanges_launches identity path ctx config after).mono fun added _ _ h s hs => ?_
  rw [← identityEnv_filter]
  exact sets_of_onTree (h s hs)

end Repository
end StepPipeline

import Mathlib.Data.List.Basic
import StepPipeline.Commit.Config
import StepPipeline.Proofs.Pipeline.Merges

/-!
# Commit messages

A commit is described by a literal message or, where there is none, by what the outputs of earlier
steps say of it. These outputs are read one behind the other, in the order in which the
configuration names them, so that the first one of the wrong shape decides how the reading fails.

**Fragments (`State.fragment?`).** The message that the output of an alias stores. An alias without
an output adds nothing, nor does an output without the field.

**Wordings (`Wording`).** What several fragments, one, or none are made into.

**Lines (`bullets`).** What stands behind the bullets of a text, line by line.

**Results.**
* `descriptions_ok_iff`, `descriptions_error_iff`: when the outputs can be read, and what for; if
  they cannot, the failure is that of the first one.
* `wording_composeMessage`, `Wording.unique`: fragments have one wording.
* `Wording.bullets_eq`: the fragments can be read off the lines of a message that lists them.
* `commitMessage_worded`: so the message of a commit is known from the configuration and the state.
-/
namespace StepPipeline

namespace State

/-! ## What outputs say -/

/-- The output of the alias cannot be read for a message, and the failure says so. -/
def Misshapen (s : State) (aliasName : String) (f : Failure) : Prop :=
  s.NoObject aliasName f ∨ s.NoText aliasName "commitMessage" f

/-- The message that the output of the alias stores. -/
def fragment? (s : State) (aliasName : String) : Option String :=
  match s.get? aliasName with
  | some (.object fields) =>
    match Fields.get? fields "commitMessage" with
    | some (.string text) => some text
    | _ => none
  | _ => none

/-- The messages that the outputs of the aliases store, in the order of the aliases. -/
def fragments (s : State) (aliases : List String) : List String :=
  aliases.filterMap s.fragment?

/-- None of the outputs is misshapen. -/
def Legible (s : State) (aliases : List String) : Prop :=
  ∀ aliasName ∈ aliases, ∀ f, ¬ s.Misshapen aliasName f

/-- The first of the outputs that is misshapen is so by the failure. -/
def FirstMisshapen (s : State) (aliases : List String) (f : Failure) : Prop :=
  ∃ front aliasName rest, aliases = front ++ aliasName :: rest ∧ s.Legible front ∧
    s.Misshapen aliasName f

section
variable {s : State} {aliasName : String} {aliases : List String} {f : Failure}

theorem fragment?_of_lacks (h : s.Lacks aliasName "commitMessage") :
    s.fragment? aliasName = none := by
  unfold fragment?
  rcases h with hnone | ⟨fields, hobject, hfield⟩
  · rw [hnone]
  · rw [hobject]
    simp only [hfield]

theorem fragment?_of_stores {text : String}
    (h : s.Stores aliasName "commitMessage" (.string text)) :
    s.fragment? aliasName = some text := by
  obtain ⟨fields, hobject, hfield⟩ := h
  unfold fragment?
  rw [hobject]
  simp only [hfield]

/-- An output is read as its fragment, unless it is misshapen. -/
theorem text_fragment (s : State) (aliasName : String) :
    (s.Legible [aliasName] ∧ s.text aliasName messageField = .ok (s.fragment? aliasName)) ∨
      ∃ f, s.Misshapen aliasName f ∧ s.text aliasName messageField = .error f := by
  have hsound : ∀ found, s.text aliasName messageField = .ok found → s.Legible [aliasName] := by
    intro found hfound
    refine List.forall_mem_singleton.mpr fun f hf => ?_
    rw [(text_error_iff s aliasName messageField f).mpr hf] at hfound
    cases hfound
  cases ht : s.text aliasName messageField with
  | error f => exact Or.inr ⟨f, (text_error_iff s aliasName messageField f).mp ht, rfl⟩
  | ok found =>
    refine Or.inl ⟨hsound found ht, ?_⟩
    cases found with
    | none => rw [fragment?_of_lacks ((text_none_iff s aliasName messageField).mp ht)]
    | some text =>
      rw [fragment?_of_stores ((text_some_iff s aliasName messageField text).mp ht)]

theorem legible_cons : s.Legible (aliasName :: aliases) ↔
    s.Legible [aliasName] ∧ s.Legible aliases := by
  unfold Legible
  rw [List.forall_mem_cons, List.forall_mem_singleton]

theorem not_legible (h : s.Misshapen aliasName f) : ¬ s.Legible (aliasName :: aliases) :=
  fun hl => hl aliasName List.mem_cons_self f h

/-- An output is misshapen in one way. -/
theorem Misshapen.unique {g : Failure} (h : s.Misshapen aliasName f)
    (h' : s.Misshapen aliasName g) : f = g := by
  have ht := (text_error_iff s aliasName messageField f).mpr h
  rw [(text_error_iff s aliasName messageField g).mpr h', Except.error.injEq] at ht
  exact ht.symm

/-- The failure names the alias, and the field if there is one. -/
theorem Misshapen.details (h : s.Misshapen aliasName f) :
    f.details.field? "alias" = some (.string aliasName) ∧
      (s.NoObject aliasName f → f.details.field? "field" = none) ∧
      (s.NoText aliasName "commitMessage" f →
        f.details.field? "field" = some (.string "commitMessage")) := by
  refine ⟨?_, ?_, ?_⟩
  · rcases h with ⟨value, -, -, rfl⟩ | ⟨value, -, -, rfl⟩ <;> rfl
  · rintro ⟨value, -, -, rfl⟩
    rfl
  · rintro ⟨value, -, -, rfl⟩
    rfl

theorem firstMisshapen_here (h : s.Misshapen aliasName f) (g : Failure) :
    s.FirstMisshapen (aliasName :: aliases) g ↔ g = f := by
  constructor
  · rintro ⟨front, name, rest, heq, hfront, hg⟩
    cases front with
    | nil =>
      cases heq
      exact hg.unique h
    | cons first front =>
      cases heq
      exact absurd hfront (not_legible h)
  · rintro rfl
    exact ⟨[], aliasName, aliases, rfl, List.forall_mem_nil _, h⟩

theorem firstMisshapen_later (h : s.Legible [aliasName]) :
    s.FirstMisshapen (aliasName :: aliases) f ↔ s.FirstMisshapen aliases f := by
  constructor
  · rintro ⟨front, name, rest, heq, hfront, hf⟩
    cases front with
    | nil =>
      cases heq
      exact absurd h (not_legible hf)
    | cons first front =>
      cases heq
      exact ⟨front, name, rest, rfl, (legible_cons.mp hfront).2, hf⟩
  · rintro ⟨front, name, rest, rfl, hfront, hf⟩
    exact ⟨aliasName :: front, name, rest, rfl, legible_cons.mpr ⟨h, hfront⟩, hf⟩

end

end State

/-! ## Reading outputs in order -/

section
variable {s : State} {aliasName : String}

theorem descriptions_of_legible (h : s.text aliasName messageField = .ok (s.fragment? aliasName))
    (aliases : List String) :
    descriptions s (aliasName :: aliases) =
      (descriptions s aliases).map ((s.fragment? aliasName).toList ++ ·) := by
  rw [descriptions, h]
  cases descriptions s aliases <;> rfl

theorem descriptions_of_misshapen {f : Failure} (h : s.text aliasName messageField = .error f)
    (aliases : List String) : descriptions s (aliasName :: aliases) = .error f := by
  rw [descriptions, h]
  rfl

theorem fragments_cons (aliases : List String) :
    s.fragments (aliasName :: aliases) = (s.fragment? aliasName).toList ++ s.fragments aliases := by
  unfold State.fragments
  rw [List.filterMap_cons]
  cases s.fragment? aliasName <;> rfl

theorem descriptions_ok_iff (s : State) (aliases parts : List String) :
    descriptions s aliases = .ok parts ↔ s.Legible aliases ∧ parts = s.fragments aliases := by
  induction aliases generalizing parts with
  | nil =>
    rw [descriptions, Except.ok.injEq, eq_comm]
    exact (and_iff_right (List.forall_mem_nil _)).symm
  | cons aliasName aliases ih =>
    rcases s.text_fragment aliasName with ⟨hl, ht⟩ | ⟨f, hf, ht⟩
    · rw [descriptions_of_legible ht, State.legible_cons, fragments_cons]
      cases hd : descriptions s aliases with
      | error f =>
        have hrest : ¬ s.Legible aliases := fun hrest => by
          rw [(ih _).mpr ⟨hrest, rfl⟩] at hd
          cases hd
        exact iff_of_false nofun fun h => hrest h.1.2
      | ok rest =>
        obtain ⟨hrest, rfl⟩ := (ih rest).mp hd
        show Except.ok _ = Except.ok parts ↔ _
        rw [Except.ok.injEq, eq_comm]
        exact (and_iff_right ⟨hl, hrest⟩).symm
    · rw [descriptions_of_misshapen ht]
      exact iff_of_false nofun fun h => State.not_legible hf h.1

theorem descriptions_error_iff (s : State) (aliases : List String) (f : Failure) :
    descriptions s aliases = .error f ↔ s.FirstMisshapen aliases f := by
  induction aliases with
  | nil =>
    refine iff_of_false nofun ?_
    rintro ⟨front, name, rest, heq, -⟩
    cases front <;> cases heq
  | cons aliasName aliases ih =>
    rcases s.text_fragment aliasName with ⟨hl, ht⟩ | ⟨g, hg, ht⟩
    · rw [descriptions_of_legible ht, State.firstMisshapen_later hl, ← ih]
      cases descriptions s aliases with
      | error g => exact Iff.rfl
      | ok rest => exact iff_of_false nofun nofun
    · rw [descriptions_of_misshapen ht, State.firstMisshapen_here hg, Except.error.injEq, eq_comm]

end

/-! ## Wordings -/

/-- Fragments, each behind a bullet on a line of its own. -/
def listed (fragments : List String) : String :=
  String.join (fragments.map ("\n  * " ++ ·))

/-- The message that fragments are made into. -/
inductive Wording : List String → String → Prop where
  | none : Wording [] "Promoter made some changes"
  | one (fragment : String) : Wording [fragment] fragment
  | many (first second : String) (rest : List String) :
    Wording (first :: second :: rest)
      ("Promoter applied multiple changes\n\nIncluding:\n" ++ listed (first :: second :: rest))

theorem foldl_listed (text : String) (fragments : List String) :
    fragments.foldl (fun text part => text ++ "\n  * " ++ part) text = text ++ listed fragments := by
  induction fragments generalizing text with
  | nil => exact String.append_empty.symm
  | cons first rest ih =>
    rw [List.foldl_cons, ih]
    simp only [listed, List.map_cons, String.join_cons, String.append_assoc]

theorem wording_composeMessage (fragments : List String) :
    Wording fragments (composeMessage fragments) := by
  match fragments with
  | [] => exact .none
  | [fragment] => exact .one fragment
  | first :: second :: rest =>
    show Wording _ ((first :: second :: rest).foldl _ _)
    rw [foldl_listed]
    exact .many first second rest

theorem Wording.unique {fragments : List String} {text : String} (h : Wording fragments text) :
    text = composeMessage fragments := by
  have hc := wording_composeMessage fragments
  generalize composeMessage fragments = composed at hc
  cases h <;> cases hc <;> rfl

/-- A message is empty only if it is one fragment that is. -/
theorem Wording.empty_iff {fragments : List String} {text : String} (h : Wording fragments text) :
    text = "" ↔ fragments = [""] := by
  cases h with
  | none => decide
  | one fragment => rw [List.singleton_inj]
  | many first second rest =>
    refine iff_of_false (fun he => ?_) nofun
    rw [String.append_eq_empty_iff] at he
    exact absurd he.1 (by decide)

/-! ## Bullets -/

/-- What stands behind the bullets of a text, line by line. -/
def bullets (text : String) : List String :=
  (text.toList.splitOn '\n').filterMap fun line =>
    (line.dropPrefix? "  * ".toList).map String.ofList

theorem splitOn_append_cons {α : Type} [BEq α] [LawfulBEq α] (xs ys : List α) (sep : α) :
    (xs ++ sep :: ys).splitOn sep = xs.splitOn sep ++ ys.splitOn sep :=
  List.splitOnP_append_cons xs ys (by simp)

/-- The lines of a text with one more line. -/
theorem bullets_line (text : String) {fragment : String} (h : '\n' ∉ fragment.toList) :
    bullets (text ++ ("\n  * " ++ fragment)) = bullets text ++ [fragment] := by
  have hline : (text ++ ("\n  * " ++ fragment)).toList =
      text.toList ++ '\n' :: ("  * ".toList ++ fragment.toList) := by simp
  have hnone : '\n' ∉ "  * ".toList ++ fragment.toList :=
    List.not_mem_append (by decide) h
  unfold bullets
  rw [hline, splitOn_append_cons, List.splitOn_eq_singleton hnone, List.filterMap_append,
    List.filterMap_cons, List.dropPrefix?_append_of_beq _ (beq_self_eq_true _)]
  simp

theorem bullets_append_listed (text : String) {fragments : List String}
    (h : ∀ fragment ∈ fragments, '\n' ∉ fragment.toList) :
    bullets (text ++ listed fragments) = bullets text ++ fragments := by
  induction fragments generalizing text with
  | nil => simp [listed]
  | cons first rest ih =>
    obtain ⟨hfirst, hrest⟩ := List.forall_mem_cons.mp h
    have hcut : text ++ listed (first :: rest) = text ++ ("\n  * " ++ first) ++ listed rest := by
      simp only [listed, List.map_cons, String.join_cons, String.append_assoc]
    rw [hcut, ih _ hrest, bullets_line text hfirst, List.append_assoc]
    rfl

/-- The lines of a message that lists fragments are theirs. -/
theorem Wording.bullets_eq {fragments : List String} {text : String} (h : Wording fragments text)
    (hmany : 2 ≤ fragments.length) (hlines : ∀ fragment ∈ fragments, '\n' ∉ fragment.toList) :
    bullets text = fragments := by
  cases h with
  | none => simp at hmany
  | one => simp at hmany
  | many first second rest =>
    have hheader : bullets "Promoter applied multiple changes\n\nIncluding:\n" = [] := by
      decide
    rw [bullets_append_listed _ hlines, hheader, List.nil_append]

/-! ## The message of a commit -/

/-- The configuration gives no message of its own; an empty one does not count. -/
def CommitConfig.Silent (config : CommitConfig) : Prop :=
  config.message = none ∨ config.message = some ""

/-- What the message of a commit is, or why there is none. -/
structure Worded (s : State) (config : CommitConfig) (answer : Except Failure String) : Prop where
  /-- A literal message is taken as it is, whatever else there is. -/
  literal : ∀ message, config.message = some message → message ≠ "" → answer = .ok message
  /-- Without one, the first output that is misshapen is what the message fails by. -/
  failure : config.Silent →
    ∀ f, answer = .error f ↔ s.FirstMisshapen config.messageFromSteps f
  /-- If none is, the fragments are worded. -/
  wording : config.Silent → ∀ message,
    answer = .ok message ↔ s.Legible config.messageFromSteps ∧
      Wording (s.fragments config.messageFromSteps) message
  code : ∀ f, answer = .error f → f.code.name = "state.type_mismatch"
  /-- A failure names what is misshapen. -/
  named : ∀ aliasName f, s.Misshapen aliasName f →
    f.details.field? "alias" = some (.string aliasName) ∧
      (s.NoObject aliasName f → f.details.field? "field" = none) ∧
      (s.NoText aliasName "commitMessage" f →
        f.details.field? "field" = some (.string "commitMessage"))
  /-- Fragments that fit on lines can be read off the message that lists them. -/
  bullets : config.Silent → ∀ message, answer = .ok message →
    2 ≤ (s.fragments config.messageFromSteps).length →
      (∀ fragment ∈ s.fragments config.messageFromSteps, '\n' ∉ fragment.toList) →
      bullets message = s.fragments config.messageFromSteps
  /-- Only a single fragment can be an empty message. -/
  empty : answer = .ok "" ↔ config.Silent ∧ s.Legible config.messageFromSteps ∧
    s.fragments config.messageFromSteps = [""]

section
variable {s : State} {config : CommitConfig}

theorem CommitConfig.silent_iff : config.Silent ↔ nonempty config.message = none := by
  unfold Silent
  cases config.message <;> simp [nonempty]

theorem commitMessage_literal {message : String} (h : config.message = some message)
    (hne : message ≠ "") : commitMessage s config = .ok message := by
  have hliteral : nonempty config.message = some message := by
    rw [h, nonempty, Option.filter_some, if_pos (by simpa using hne)]
  unfold commitMessage
  rw [hliteral]

theorem commitMessage_collected (h : config.Silent) :
    commitMessage s config =
      (descriptions s config.messageFromSteps).map composeMessage := by
  unfold commitMessage
  rw [CommitConfig.silent_iff.mp h]

theorem commitMessage_error_iff (h : config.Silent) (f : Failure) :
    commitMessage s config = .error f ↔ s.FirstMisshapen config.messageFromSteps f := by
  rw [commitMessage_collected h, ← descriptions_error_iff]
  cases descriptions s config.messageFromSteps with
  | error g => rw [Except.map, Except.error.injEq, Except.error.injEq]
  | ok parts => exact iff_of_false nofun nofun

theorem commitMessage_ok_iff (h : config.Silent) (message : String) :
    commitMessage s config = .ok message ↔ s.Legible config.messageFromSteps ∧
      Wording (s.fragments config.messageFromSteps) message := by
  rw [commitMessage_collected h]
  cases hd : descriptions s config.messageFromSteps with
  | error f =>
    refine iff_of_false nofun fun hread => ?_
    rw [(descriptions_ok_iff s _ _).mpr ⟨hread.1, rfl⟩] at hd
    cases hd
  | ok parts =>
    obtain ⟨hl, rfl⟩ := (descriptions_ok_iff s _ _).mp hd
    rw [Except.map, Except.ok.injEq, and_iff_right hl]
    constructor
    · rintro rfl
      exact wording_composeMessage _
    · exact fun hw => hw.unique.symm

end

theorem literal_or_silent (config : CommitConfig) :
    (∃ message, config.message = some message ∧ message ≠ "") ∨ config.Silent := by
  unfold CommitConfig.Silent
  cases config.message with
  | none => exact Or.inr (Or.inl rfl)
  | some message =>
    by_cases he : message = ""
    · exact Or.inr (Or.inr (congrArg some he))
    · exact Or.inl ⟨message, rfl, he⟩

/-- **Messages.** The message of a commit is the literal one, unless that is absent or empty; then it
is worded from what the outputs of the named steps say, in order, or fails by the first of them that
is misshapen. -/
theorem commitMessage_worded (s : State) (config : CommitConfig) :
    Worded s config (commitMessage s config) where
  literal _ h hne := commitMessage_literal h hne
  failure h := commitMessage_error_iff h
  wording h := commitMessage_ok_iff h
  code f hf := by
    rcases literal_or_silent config with ⟨message, hm, hne⟩ | hc
    · rw [commitMessage_literal hm hne] at hf
      cases hf
    · obtain ⟨front, aliasName, rest, -, -, hmis⟩ := (commitMessage_error_iff hc f).mp hf
      exact State.code_of_misshapen s aliasName "commitMessage" f hmis
  named _ _ h := h.details
  bullets h message hok := ((commitMessage_ok_iff h message).mp hok).2.bullets_eq
  empty := by
    rcases literal_or_silent config with ⟨message, hm, hne⟩ | hc
    · rw [commitMessage_literal hm hne, Except.ok.injEq]
      refine iff_of_false hne fun h => ?_
      rcases h.1 with hn | he
      · rw [hm] at hn
        cases hn
      · rw [hm, Option.some.injEq] at he
        exact hne he
    · rw [commitMessage_ok_iff hc, and_iff_right hc]
      exact and_congr_right fun _ =>
        ⟨fun hw => hw.empty_iff.mp rfl, fun he => he ▸ .one ""⟩

example : bullets "Promoter applied multiple changes\n\nIncluding:\n\n  * one\n  * two" =
    ["one", "two"] := by decide

end StepPipeline

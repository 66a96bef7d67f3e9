import StepPipeline.Pipeline.Step

/-!
# Aliases of a pipeline

Aliases are resolved before any step runs. The steps get them in order, one each, and no two alike;
so the aliases that a run uses as keys of the shared state are distinct from the start.

**Names (`aliasesOf`).** A step is named by the alias that it brings, and a step that brings none by
the stem and its position. Generated names are distinct among themselves, whatever the stem is, but
one of them may be what another step calls itself.

**Results.**
* `firstRepeated_eq_none_iff`, `firstTaken_iff`: what the scan for repeated names finds.
* `resolveAliases_ok`: aliases that are resolved are distinct.
* `nodup_aliasesOf_iff`: the names are distinct exactly if no step can be mistaken for another.
* `resolveAliases_decides`: so the aliases are resolved exactly then, and otherwise the first name
  that is taken is told.
-/
namespace StepPipeline

theorem firstRepeated_eq_none_iff {seen names : List String} :
    firstRepeated seen names = none ↔ names.Nodup ∧ ∀ n ∈ names, n ∉ seen := by
  induction names generalizing seen with
  | nil => simp [firstRepeated]
  | cons name rest ih =>
    unfold firstRepeated
    by_cases h : name ∈ seen
    · simp [h]
    · rw [if_neg h, ih, List.nodup_cons, List.forall_mem_cons]
      constructor
      · rintro ⟨hd, hs⟩
        exact ⟨⟨fun hm => hs name hm (by simp), hd⟩, h,
          fun n hn hm => hs n hn (List.mem_cons_of_mem _ hm)⟩
      · rintro ⟨⟨hm, hd⟩, -, hs⟩
        refine ⟨hd, fun n hn hc => ?_⟩
        rcases List.mem_cons.mp hc with rfl | hc
        · exact hm hn
        · exact hs n hn hc

theorem resolveAliases_ok {steps : List Step} {stem : String} {names : List String}
    (h : resolveAliases steps stem = .ok names) :
    names = steps.mapIdx (Step.aliasAt stem) ∧ names.Nodup := by
  unfold resolveAliases at h
  dsimp only at h
  split at h
  · cases h
  · rename_i hn
    cases h
    exact ⟨rfl, (firstRepeated_eq_none_iff.mp hn).1⟩

theorem resolveAliases_error {steps : List Step} {stem : String} {f : Failure}
    (h : resolveAliases steps stem = .error f) :
    ∃ problem, f = .of (.invalidArgument "steps" problem none none) := by
  unfold resolveAliases at h
  dsimp only at h
  split at h
  · cases h
    exact ⟨_, rfl⟩
  · cases h

theorem length_of_resolveAliases {steps : List Step} {stem : String} {names : List String}
    (h : resolveAliases steps stem = .ok names) : names.length = steps.length := by
  rw [(resolveAliases_ok h).1, List.length_mapIdx]

/-! ## The name of every step -/

/-- The alias that a step brings, unless it is absent or empty. -/
def Step.ownAlias (step : Step) : Option String := step.aliasName.filter (· ≠ "")

/-- The name of a step that brings none: the stem and the position in decimal. -/
def generatedAlias (stem : String) (i : Nat) : String := stem ++ "-" ++ toString i

/-- The name of every step, in order: its own alias or a generated one. -/
def aliasesOf (steps : List Step) (stem : String) : List String :=
  steps.mapIdx fun i step => step.ownAlias.getD (generatedAlias stem i)

theorem aliasAt_eq (stem : String) (i : Nat) (step : Step) :
    Step.aliasAt stem i step = step.ownAlias.getD (generatedAlias stem i) := by
  unfold Step.aliasAt Step.ownAlias
  cases step.aliasName with
  | none => rfl
  | some aliasName =>
    by_cases he : aliasName = ""
    · simp [he, Option.filter, generatedAlias]
    · simp [he, Option.filter]

theorem mapIdx_aliasAt (steps : List Step) (stem : String) :
    steps.mapIdx (Step.aliasAt stem) = aliasesOf steps stem := by
  unfold aliasesOf
  congr 1
  funext i step
  exact aliasAt_eq stem i step

/-- No two positions have the same decimal, whatever stands before it. -/
theorem generatedAlias_injective {stem : String} {i j : Nat}
    (h : generatedAlias stem i = generatedAlias stem j) : i = j := by
  have hdigits : Nat.toDigits 10 i = Nat.toDigits 10 j := by
    have hdecimal := (String.append_right_inj _).mp h
    rw [Nat.toString_eq_repr, Nat.toString_eq_repr] at hdecimal
    simpa only [Nat.toList_repr] using congrArg String.toList hdecimal
  have hread (n : Nat) : Nat.ofDigitChars 10 (Nat.toDigits 10 n) 0 = n :=
    Nat.ofDigitChars_toDigits (by decide) (by decide)
  rw [← hread i, hdigits, hread]

theorem generatedAlias_ne_empty (stem : String) (i : Nat) : generatedAlias stem i ≠ "" := by
  simp [generatedAlias]

theorem ownAlias_ne_empty {step : Step} {name : String} (h : step.ownAlias = some name) :
    name ≠ "" := by
  obtain ⟨-, hne⟩ := Option.filter_eq_some_iff.mp h
  exact of_decide_eq_true hne

theorem ne_empty_of_mem_aliasesOf {steps : List Step} {stem name : String}
    (h : name ∈ aliasesOf steps stem) : name ≠ "" := by
  obtain ⟨i, hi, rfl⟩ := List.mem_mapIdx.mp h
  cases ho : steps[i].ownAlias with
  | none => exact generatedAlias_ne_empty stem i
  | some name => exact ownAlias_ne_empty ho

/-- No step can be mistaken for another: the aliases that steps bring are distinct, and none of them
is generated for a step that brings none. -/
structure Unmistakable (steps : List Step) (stem : String) : Prop where
  distinct : (steps.filterMap Step.ownAlias).Nodup
  clear : ∀ i step, steps[i]? = some step → step.ownAlias = none →
    generatedAlias stem i ∉ steps.filterMap Step.ownAlias

/-- The steps have distinct names exactly if none can be mistaken for another. -/
theorem nodup_aliasesOf_iff {steps : List Step} {stem : String} :
    (aliasesOf steps stem).Nodup ↔ Unmistakable steps stem := by
  have hnames : (aliasesOf steps stem).Nodup ↔ ∀ i j (hi : i < steps.length)
      (hj : j < steps.length), i < j →
        steps[i].ownAlias.getD (generatedAlias stem i) ≠
          steps[j].ownAlias.getD (generatedAlias stem j) := by
    unfold aliasesOf List.Nodup
    simp only [List.pairwise_iff_getElem, List.length_mapIdx, List.getElem_mapIdx]
  have hown : (steps.filterMap Step.ownAlias).Nodup ↔ ∀ i j (hi : i < steps.length)
      (hj : j < steps.length), i < j → ∀ a, steps[i].ownAlias = some a →
        ∀ b, steps[j].ownAlias = some b → a ≠ b := by
    unfold List.Nodup
    rw [List.pairwise_filterMap, List.pairwise_iff_getElem]
  rw [hnames]
  constructor
  · intro h
    refine ⟨hown.mpr fun i j hi hj hlt a ha b hb => ?_, fun i step hi ho hm => ?_⟩
    · have hne := h i j hi hj hlt
      rwa [ha, hb] at hne
    · obtain ⟨hlen, rfl⟩ := List.getElem?_eq_some_iff.mp hi
      obtain ⟨other, hother, ha⟩ := List.mem_filterMap.mp hm
      obtain ⟨j, hj, rfl⟩ := List.mem_iff_getElem.mp hother
      -- The step that brings the name stands before the nameless one, or behind it.
      rcases Nat.lt_trichotomy i j with hlt | rfl | hlt
      · have hne := h i j hlen hj hlt
        rw [ho, ha] at hne
        exact hne rfl
      · rw [ho] at ha
        cases ha
      · have hne := h j i hj hlen hlt
        rw [ho, ha] at hne
        exact hne rfl
  · rintro ⟨hdistinct, hclear⟩ i j hi hj hlt
    have hmem {k : Nat} (hk : k < steps.length) {a : String} (ha : steps[k].ownAlias = some a) :
        a ∈ steps.filterMap Step.ownAlias :=
      List.mem_filterMap.mpr ⟨_, List.getElem_mem hk, ha⟩
    have hfree {k : Nat} (hk : k < steps.length) (ho : steps[k].ownAlias = none) :=
      hclear k _ (List.getElem?_eq_getElem hk) ho
    cases hoi : steps[i].ownAlias with
    | some a =>
      cases hoj : steps[j].ownAlias with
      | some b => exact hown.mp hdistinct i j hi hj hlt a hoi b hoj
      | none =>
        rintro rfl
        exact hfree hj hoj (hmem hi hoi)
    | none =>
      cases hoj : steps[j].ownAlias with
      | some b =>
        rintro rfl
        exact hfree hi hoi (hmem hj hoj)
      | none => exact fun he => Nat.ne_of_lt hlt (generatedAlias_injective he)

/-! ## The first name that is taken -/

/-- The name at a position occurs before it, and no name at an earlier position does. -/
structure FirstTaken (names : List String) (i : Nat) (name : String) : Prop where
  here : names[i]? = some name
  taken : name ∈ names.take i
  first : ∀ j < i, ∀ other, names[j]? = some other → other ∉ names.take j

/-- A scan that has seen some names finds the first one that is among them or occurs before. -/
theorem firstRepeated_eq_some_iff {seen names : List String} {name : String} :
    firstRepeated seen names = some name ↔ ∃ i, names[i]? = some name ∧
      (name ∈ seen ∨ name ∈ names.take i) ∧
      ∀ j < i, ∀ other, names[j]? = some other → other ∉ seen ∧ other ∉ names.take j := by
  induction names generalizing seen with
  | nil => simp [firstRepeated]
  | cons n rest ih =>
    unfold firstRepeated
    by_cases hn : n ∈ seen
    · rw [if_pos hn]
      constructor
      · rintro ⟨⟩
        exact ⟨0, rfl, Or.inl hn, fun j hj => absurd hj (Nat.not_lt_zero j)⟩
      · rintro ⟨i, hi, -, hfirst⟩
        cases i with
        | zero => exact hi
        | succ i => exact absurd hn (hfirst 0 (Nat.succ_pos i) n rfl).1
    · rw [if_neg hn, ih]
      constructor
      · rintro ⟨i, hi, htaken, hfirst⟩
        refine ⟨i + 1, hi, ?_, fun j hj other ho => ?_⟩
        · rw [List.take_succ_cons]
          rcases htaken with hm | hm
          · exact (List.mem_cons.mp hm).elim (fun he => Or.inr (he ▸ List.mem_cons_self)) Or.inl
          · exact Or.inr (List.mem_cons_of_mem n hm)
        · cases j with
          | zero =>
            cases ho
            exact ⟨hn, List.not_mem_nil⟩
          | succ j =>
            obtain ⟨hseen, hrest⟩ := hfirst j (Nat.lt_of_succ_lt_succ hj) other ho
            rw [List.mem_cons, not_or] at hseen
            rw [List.take_succ_cons, List.mem_cons, not_or]
            exact ⟨hseen.2, hseen.1, hrest⟩
      · rintro ⟨i, hi, htaken, hfirst⟩
        cases i with
        | zero =>
          cases hi
          exact (htaken.elim hn List.not_mem_nil).elim
        | succ i =>
          rw [List.take_succ_cons, List.mem_cons] at htaken
          refine ⟨i, hi, ?_, fun j hj other ho => ?_⟩
          · rcases htaken with hm | rfl | hm
            · exact Or.inl (List.mem_cons_of_mem n hm)
            · exact Or.inl List.mem_cons_self
            · exact Or.inr hm
          · obtain ⟨hseen, hrest⟩ := hfirst (j + 1) (Nat.succ_lt_succ hj) other ho
            rw [List.take_succ_cons, List.mem_cons, not_or] at hrest
            rw [List.mem_cons, not_or]
            exact ⟨⟨hrest.1, hseen⟩, hrest.2⟩

theorem firstTaken_iff {names : List String} {name : String} :
    firstRepeated [] names = some name ↔ ∃ i, FirstTaken names i name := by
  rw [firstRepeated_eq_some_iff]
  constructor
  · rintro ⟨i, hi, htaken, hfirst⟩
    exact ⟨i, hi, htaken.resolve_left List.not_mem_nil, fun j hj other ho =>
      (hfirst j hj other ho).2⟩
  · rintro ⟨i, hi, htaken, hfirst⟩
    exact ⟨i, hi, Or.inr htaken, fun j hj other ho =>
      ⟨List.not_mem_nil, hfirst j hj other ho⟩⟩

/-- The failure of steps of which two are named alike. -/
def duplicateAlias (name : String) : Failure :=
  .of (.invalidArgument "steps" ("Duplicate step alias '" ++ name ++ "'") none none)

/-- **Aliases.** The steps of a pipeline get names exactly if none can be mistaken for another: each
its own alias or a generated one, which are then distinct and not empty. Otherwise the failure names
the first name that is taken. -/
theorem resolveAliases_decides (steps : List Step) (stem : String) :
    (∀ names, resolveAliases steps stem = .ok names ↔
      Unmistakable steps stem ∧ names = aliasesOf steps stem ∧ names.Nodup ∧
        ∀ name ∈ names, name ≠ "") ∧
    ∀ f, resolveAliases steps stem = .error f ↔
      ∃ i name, FirstTaken (aliasesOf steps stem) i name ∧ f = duplicateAlias name := by
  have hnone : firstRepeated [] (aliasesOf steps stem) = none ↔ Unmistakable steps stem := by
    rw [firstRepeated_eq_none_iff, nodup_aliasesOf_iff]
    simp
  unfold resolveAliases
  simp only [mapIdx_aliasAt]
  cases hr : firstRepeated [] (aliasesOf steps stem) with
  | none =>
    have hclear := hnone.mp hr
    have htaken : ¬ ∃ i name, FirstTaken (aliasesOf steps stem) i name := by
      rintro ⟨i, name, ht⟩
      rw [firstTaken_iff.mpr ⟨i, ht⟩] at hr
      cases hr
    refine ⟨fun names => ⟨?_, ?_⟩, fun f => ⟨nofun, ?_⟩⟩
    · rintro ⟨⟩
      exact ⟨hclear, rfl, nodup_aliasesOf_iff.mpr hclear, fun _ => ne_empty_of_mem_aliasesOf⟩
    · rintro ⟨-, rfl, -, -⟩
      rfl
    · rintro ⟨i, name, ht, -⟩
      exact absurd ⟨i, name, ht⟩ htaken
  | some name =>
    have hmixed : ¬ Unmistakable steps stem := by
      intro hclear
      rw [hnone.mpr hclear] at hr
      cases hr
    refine ⟨fun names => ⟨nofun, fun h => absurd h.1 hmixed⟩, fun f => ⟨?_, ?_⟩⟩
    · rintro ⟨⟩
      obtain ⟨i, ht⟩ := firstTaken_iff.mp hr
      exact ⟨i, name, ht, rfl⟩
    · rintro ⟨i, other, ht, rfl⟩
      rw [firstTaken_iff.mpr ⟨i, ht⟩, Option.some.injEq] at hr
      rw [hr]
      rfl

/-- An alias may take the name of a step further on, which is then the one that fails. -/
example : resolveAliases [⟨some "step-1", "git-commit", []⟩, .ofType "git-commit"] "step" =
    .error (duplicateAlias "step-1") := rfl

end StepPipeline

import StepPipeline.Files.Path

/-!
# Paths with names behind them

The text of a path is read by its components and by the steps of its resolution. Here: what both
readings become when names are pushed onto the path, whatever its text is (empty, with a slash at
the end, with dots and empty pieces).

**Names (`IsName`).** A plain name leads one directory down: it is not empty, neither dot nor `..`,
and holds no slash.

**Results.**
* `components_pushAll`: the components of the path, followed by the names.
* `steps_pushAll`: the named pieces of the path, followed by the names.
* `isName_of_mem_components`: every name among the components of any text is plain.
-/
namespace StepPipeline.Path

/-- A plain name. -/
def IsName (s : String) : Prop := s ≠ "" ∧ s ≠ "." ∧ s ≠ ".." ∧ '/' ∉ s.toList

instance (s : String) : Decidable (IsName s) := by unfold IsName; exact inferInstance

/-- The pieces of a path that are not empty. -/
def named (path : String) : List String := (pieces path).filter (· ≠ "")

/-! ## Splitting at slashes -/

theorem splitSlash_eq_cons (s : List Char) : ∃ piece more, splitSlash s = piece :: more := by
  cases s with
  | nil => exact ⟨[], [], rfl⟩
  | cons c rest =>
    unfold splitSlash
    split
    · exact ⟨[], splitSlash rest, rfl⟩
    · split
      · exact ⟨_, _, rfl⟩
      · exact ⟨_, _, rfl⟩

/-- A slash ends a piece and begins the next. -/
theorem splitSlash_slash (a b : List Char) :
    splitSlash (a ++ '/' :: b) = splitSlash a ++ splitSlash b := by
  induction a with
  | nil => simp [splitSlash]
  | cons c a ih =>
    obtain ⟨piece, more, ha⟩ := splitSlash_eq_cons a
    by_cases hc : c = '/'
    · simp [splitSlash, hc, ih]
    · simp [splitSlash, hc, ih, ha]

theorem splitSlash_name {s : List Char} (h : '/' ∉ s) : splitSlash s = [s] := by
  induction s with
  | nil => rfl
  | cons c s ih =>
    obtain ⟨hc, hs⟩ : c ≠ '/' ∧ '/' ∉ s := by
      rw [List.mem_cons, not_or] at h
      exact ⟨fun e => h.1 e.symm, h.2⟩
    simp [splitSlash, hc, ih hs]

theorem slash_not_mem_splitSlash {s piece : List Char} (h : piece ∈ splitSlash s) :
    '/' ∉ piece := by
  induction s generalizing piece with
  | nil => simp only [splitSlash, List.mem_singleton] at h; subst h; simp
  | cons c s ih =>
    obtain ⟨first, more, hs⟩ := splitSlash_eq_cons s
    by_cases hc : c = '/'
    · simp only [splitSlash, hc, if_true, List.mem_cons] at h
      rcases h with rfl | h
      · simp
      · exact ih h
    · simp only [splitSlash, hc, if_false, hs, List.mem_cons] at h
      rcases h with rfl | h
      · have hf : '/' ∉ first := ih (by simp [hs])
        rw [List.mem_cons, not_or]
        exact ⟨fun e => hc e.symm, hf⟩
      · exact ih (by simp [hs, h])

theorem pieces_empty : pieces "" = [""] := rfl

theorem pieces_name {name : String} (h : IsName name) : pieces name = [name] := by
  simp [pieces, splitSlash_name h.2.2.2]

theorem component?_name {name : String} (h : IsName name) :
    component? name = some (.name name) := by
  simp [component?, h.1, h.2.1, h.2.2.1]

/-! ## Pushing a name -/

theorem isAbsolute_name {name : String} (h : IsName name) : isAbsolute name = false := by
  unfold isAbsolute
  rw [decide_eq_false_iff_not]
  intro e
  exact h.2.2.2 (List.mem_of_mem_head? e)

/-- The pieces of a path that is not empty stand before the name, but for an empty piece behind a
slash at the end. -/
theorem pieces_push {path name : String} (hp : path ≠ "") (h : IsName name) :
    ∃ first more, (pieces path = first :: more ∨ pieces path = first :: more ++ [""]) ∧
      pieces (push path name) = first :: more ++ [name] := by
  by_cases hl : path.toList.getLast? = some '/'
  · obtain ⟨front, hf⟩ := List.getLast?_eq_some_iff.mp hl
    obtain ⟨piece, more, hs⟩ := splitSlash_eq_cons front
    refine ⟨String.ofList piece, more.map String.ofList, Or.inr ?_, ?_⟩
    · simp [pieces, hf, splitSlash_slash, hs, splitSlash]
    · simp [pieces, push, isAbsolute_name h, hf, splitSlash_slash, hs, splitSlash_name h.2.2.2]
  · obtain ⟨piece, more, hs⟩ := splitSlash_eq_cons path.toList
    refine ⟨String.ofList piece, more.map String.ofList, Or.inl ?_, ?_⟩
    · simp [pieces, hs]
    · simp [pieces, push, isAbsolute_name h, hl, hp, splitSlash_slash, hs,
        splitSlash_name h.2.2.2]

theorem push_empty {name : String} (h : IsName name) : push "" name = name := by
  simp [push, isAbsolute_name h]

/-- A name is pushed behind the text. -/
theorem push_eq_append (path : String) {name : String} (h : IsName name) :
    ∃ added, push path name = path ++ added := by
  unfold push
  rw [isAbsolute_name h]
  simp only [Bool.false_eq_true, if_false]
  split
  · exact ⟨name, rfl⟩
  · exact ⟨"/" ++ name, String.append_assoc⟩

theorem isAbsolute_push {path name : String} (h : IsName name) :
    isAbsolute (push path name) = isAbsolute path := by
  by_cases hp : path = ""
  · rw [hp, push_empty h, isAbsolute_name h]; rfl
  · obtain ⟨added, ha⟩ := push_eq_append path h
    have : path.toList ≠ [] := by simpa using hp
    obtain ⟨c, rest, hc⟩ := List.exists_cons_of_ne_nil this
    simp [isAbsolute, ha, hc]

theorem named_push {path name : String} (h : IsName name) :
    named (push path name) = named path ++ [name] := by
  have hn : [name].filter (· ≠ "") = [name] := by simp [h.1]
  unfold named
  by_cases hp : path = ""
  · rw [hp, push_empty h, pieces_name h, pieces_empty, hn]; rfl
  · obtain ⟨first, more, hpath, hpush⟩ := pieces_push hp h
    rw [hpush, List.filter_append, hn]
    rcases hpath with e | e
    · rw [e]
    · rw [e, List.filter_append]; simp

/-- The steps of a path are its named pieces, and a dot for a slash at the end. -/
theorem steps_eq (path : String) :
    ∃ last, steps path = named path ++ last ∧ (last = [] ∨ last = ["."]) := by
  unfold steps named
  split
  · exact ⟨["."], rfl, Or.inr rfl⟩
  · exact ⟨[], (List.append_nil _).symm, Or.inl rfl⟩

/-- A path does not end in a slash behind a name. -/
theorem getLast?_push {path name : String} (h : IsName name) :
    (push path name).toList.getLast? ≠ some '/' := by
  have hn : name.toList ≠ [] := by simpa using h.1
  obtain ⟨c, hc⟩ : ∃ c, name.toList.getLast? = some c := ⟨_, List.getLast?_eq_some_getLast hn⟩
  have : (push path name).toList.getLast? = some c := by
    unfold push
    rw [isAbsolute_name h]
    simp only [Bool.false_eq_true, if_false]
    split <;> simp [List.getLast?_append, List.getLast?_cons, hc]
  rw [this]
  rintro ⟨rfl⟩
  exact h.2.2.2 (List.mem_of_getLast? hc)

/-- The last piece of a pushed name asks for nothing behind it. -/
theorem steps_push {path name : String} (h : IsName name) :
    steps (push path name) = named path ++ [name] := by
  unfold steps
  rw [if_neg (getLast?_push h)]
  exact named_push h

theorem steps_name {name : String} (h : IsName name) : steps name = [name] := by
  have hsteps := @steps_push "" name h
  rw [push_empty h] at hsteps
  exact hsteps

theorem components_push {path name : String} (h : IsName name) :
    components (push path name) = components path ++ [.name name] := by
  have hn : [name].filterMap component? = [.name name] := by simp [component?_name h]
  by_cases hp : path = ""
  · rw [hp, push_empty h]
    unfold components
    rw [pieces_name h, isAbsolute_name h, pieces_empty]
    simp [component?, h.1, h.2.1, h.2.2.1, isAbsolute]
  · obtain ⟨first, more, hpath, hpush⟩ := pieces_push hp h
    unfold components
    rw [hpush, isAbsolute_push h, List.cons_append]
    simp only [List.filterMap_append, hn]
    rcases hpath with e | e
    · rw [e, List.append_assoc]
    · rw [e, List.cons_append]
      simp [component?]

/-! ## Pushing names -/

theorem pushAll_append (path : String) (a b : List String) :
    pushAll path (a ++ b) = pushAll (pushAll path a) b := List.foldl_append

section
variable {names : List String} (h : ∀ n ∈ names, IsName n)
include h

theorem pushAll_eq_append (path : String) : ∃ added, pushAll path names = path ++ added := by
  induction names generalizing path with
  | nil => exact ⟨"", by simp [pushAll]⟩
  | cons name names ih =>
    obtain ⟨first, hf⟩ := push_eq_append path (h name (by simp))
    obtain ⟨rest, hr⟩ := ih (fun n hn => h n (by simp [hn])) (push path name)
    exact ⟨first ++ rest, by rw [← String.append_assoc, ← hf, ← hr]; rfl⟩

/-- The components of a path with names behind it. -/
theorem components_pushAll (path : String) :
    components (pushAll path names) = components path ++ names.map .name := by
  induction names generalizing path with
  | nil => simp [pushAll]
  | cons name names ih =>
    have := ih (fun n hn => h n (by simp [hn])) (push path name)
    rw [components_push (h name (by simp)), List.append_assoc] at this
    exact this

theorem isAbsolute_pushAll (path : String) :
    isAbsolute (pushAll path names) = isAbsolute path := by
  induction names generalizing path with
  | nil => rfl
  | cons name names ih =>
    have := ih (fun n hn => h n (by simp [hn])) (push path name)
    rwa [isAbsolute_push (h name (by simp))] at this

theorem named_pushAll (path : String) : named (pushAll path names) = named path ++ names := by
  induction names generalizing path with
  | nil => simp [pushAll]
  | cons name names ih =>
    have := ih (fun n hn => h n (by simp [hn])) (push path name)
    rw [named_push (h name (by simp)), List.append_assoc] at this
    exact this

theorem pushAll_ne_empty (path : String) (hne : names ≠ []) : pushAll path names ≠ "" := by
  intro e
  have hnamed := named_pushAll h path
  rw [e, show named "" = [] from rfl] at hnamed
  exact hne (List.append_eq_nil_iff.mp hnamed.symm).2

/-- The steps of a path with names behind it; a slash at the end of the path no longer counts. -/
theorem steps_pushAll (path : String) (hne : names ≠ []) :
    steps (pushAll path names) = named path ++ names := by
  obtain ⟨front, last, rfl⟩ : ∃ front last, names = front ++ [last] :=
    ⟨names.dropLast, names.getLast hne, (List.dropLast_concat_getLast hne).symm⟩
  have hp : pushAll path (front ++ [last]) = push (pushAll path front) last := by
    rw [pushAll_append]; rfl
  rw [hp, steps_push (h last (by simp)), named_pushAll fun n hn => h n (by simp [hn]),
    List.append_assoc]

end

/-! ## Normal form -/

/-- Names, each behind a slash. -/
def slashed (names : List String) : String :=
  names.foldr (fun name text => "/" ++ name ++ text) ""

theorem pushAll_slashed {path : String} {names : List String} (h : ∀ n ∈ names, IsName n)
    (hp : path ≠ "") (hl : path.toList.getLast? ≠ some '/') :
    pushAll path names = path ++ slashed names := by
  induction names generalizing path with
  | nil => exact (String.append_empty).symm
  | cons name names ih =>
    obtain ⟨hname, hnames⟩ := List.forall_mem_cons.mp h
    have hpush : push path name = path ++ "/" ++ name := by
      simp [push, isAbsolute_name hname, hp, hl]
    have hne : push path name ≠ "" := by simp [hpush]
    show pushAll (push path name) names = path ++ ("/" ++ name ++ slashed names)
    rw [ih hnames hne (getLast?_push hname), hpush]
    simp only [String.append_assoc]

theorem intercalate_slash (name : String) (names : List String) :
    "/".intercalate (name :: names) = name ++ slashed names := by
  induction names generalizing name with
  | nil => simp [slashed]
  | cons next names ih =>
    rw [String.intercalate_cons_cons, ih]
    simp [slashed, String.append_assoc]

/-- The normal form of a path is the top with its names behind it. -/
theorem pushAll_top {names : List String} (h : ∀ n ∈ names, IsName n) :
    pushAll "/" names = ofNames names := by
  cases names with
  | nil => rfl
  | cons name names =>
    obtain ⟨hname, hnames⟩ := List.forall_mem_cons.mp h
    have hpush : push "/" name = "/" ++ name := by simp [push, isAbsolute_name hname]
    show pushAll (push "/" name) names = "/" ++ "/".intercalate (name :: names)
    rw [pushAll_slashed hnames (by simp [hpush]) (getLast?_push hname), hpush, intercalate_slash,
      String.append_assoc]

theorem ofNames_cons (name : String) (names : List String) :
    ofNames (name :: names) = slashed (name :: names) := by
  rw [ofNames, intercalate_slash, ← String.append_assoc]
  rfl

theorem utf8ByteSize_slashed {names : List String} {size : Nat}
    (h : ∀ n ∈ names, n.utf8ByteSize = size) :
    (slashed names).utf8ByteSize = names.length * (1 + size) := by
  induction names with
  | nil => exact (Nat.zero_mul _).symm
  | cons name names ih =>
    obtain ⟨hname, hnames⟩ := List.forall_mem_cons.mp h
    have htext : slashed (name :: names) = "/" ++ name ++ slashed names := rfl
    have hslash : "/".utf8ByteSize = 1 := rfl
    rw [htext, String.utf8ByteSize_append, String.utf8ByteSize_append, hslash, hname, ih hnames,
      List.length_cons, Nat.succ_mul, Nat.add_comm]

theorem zero_not_mem_slashed {names : List String} (hz : ∀ n ∈ names, '\x00' ∉ n.toList) :
    '\x00' ∉ (slashed names).toList := by
  induction names with
  | nil => simp [slashed]
  | cons name names ih =>
    obtain ⟨hname, hnames⟩ := List.forall_mem_cons.mp hz
    have htext : slashed (name :: names) = "/" ++ name ++ slashed names := rfl
    simp [htext, hname, ih hnames]

section
variable {names : List String} (h : ∀ n ∈ names, IsName n)
include h

theorem components_ofNames : components (ofNames names) = .root :: names.map .name := by
  have htop : components "/" = [.root] := by decide
  rw [← pushAll_top h, components_pushAll h, htop]
  rfl

theorem named_ofNames : named (ofNames names) = names := by
  have htop : named "/" = [] := by decide
  rw [← pushAll_top h, named_pushAll h, htop, List.nil_append]

theorem steps_ofNames (hne : names ≠ []) : steps (ofNames names) = names := by
  have htop : named "/" = [] := by decide
  rw [← pushAll_top h, steps_pushAll h "/" hne, htop, List.nil_append]

end

theorem isAbsolute_ofNames (names : List String) : isAbsolute (ofNames names) = true := by
  simp [isAbsolute, ofNames]

/-! ## What a text names -/

theorem isName_of_component? {piece s : String} (hp : '/' ∉ piece.toList)
    (h : component? piece = some (.name s)) : IsName s := by
  unfold component? at h
  split at h
  · cases h
  · rename_i hd
    split at h
    · cases h
    · rename_i hu
      cases h
      rw [not_or] at hd
      exact ⟨hd.1, hd.2, hu, hp⟩

theorem slash_not_mem_pieces {path piece : String} (h : piece ∈ pieces path) :
    '/' ∉ piece.toList := by
  obtain ⟨chars, hc, rfl⟩ := List.mem_map.mp h
  simpa using slash_not_mem_splitSlash hc

/-- Every name among the components of a text is plain. -/
theorem isName_of_mem_components {path s : String} (h : .name s ∈ components path) :
    IsName s := by
  unfold components at h
  split at h
  · cases h
  · rename_i first rest hp
    rcases List.mem_append.mp h with h | h
    · split at h
      · simp at h
      · split at h
        · simp at h
        · exact isName_of_component? (slash_not_mem_pieces (by rw [hp]; simp))
            (Option.mem_toList.mp h)
    · obtain ⟨piece, hm, hc⟩ := List.mem_filterMap.mp h
      exact isName_of_component? (slash_not_mem_pieces (by rw [hp]; simp [hm])) hc

/-- A direction leads up or to a name. -/
def IsDirection (s : String) : Prop := s = ".." ∨ IsName s

theorem isDirection_of_directions {cs : List Component} {steps : List String}
    (hcs : ∀ s, .name s ∈ cs → IsName s) (h : directions cs = some steps) :
    ∀ s ∈ steps, IsDirection s := by
  induction cs generalizing steps with
  | nil => cases h; simp
  | cons c cs ih =>
    have ih {rest} := @ih rest fun s hs => hcs s (List.mem_cons_of_mem _ hs)
    cases c with
    | root => cases h
    | current => exact ih h
    | parent =>
      obtain ⟨rest, hr, rfl⟩ := Option.map_eq_some_iff.mp h
      exact List.forall_mem_cons.mpr ⟨Or.inl rfl, ih hr⟩
    | name s =>
      obtain ⟨rest, hr, rfl⟩ := Option.map_eq_some_iff.mp h
      exact List.forall_mem_cons.mpr ⟨Or.inr (hcs s (by simp)), ih hr⟩

end StepPipeline.Path

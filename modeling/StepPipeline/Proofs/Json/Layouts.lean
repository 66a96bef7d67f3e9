import StepPipeline.Proofs.Json.Scanning

/-!
# Layouts of a value

One value has many texts: between its parts there may be blanks or none. Whatever they are, a reader
finds the value, if its numbers are whole and fit into 64 bits (`Json.Whole`) and it may go as deep
as the value is high (`Json.height`).

**Layouts (`Layout`, `LaidOut`).** A text of a value, one rule for each kind of value; the blanks
before and behind every item, key and colon are free. A whole text may have blanks at its two ends.

**Texts (`ReadFrom`).** What a reader finds in a text from its first to its last character.

**Results.**
* `readNode_layout`: what is read of a layout holds the value, wherever the text stands.
* `LaidOut.readFrom`: so for a whole text, behind which nothing is left.
* `ReadFrom.unique`: a text has one value at most.
* `ReadFrom.decodeText`: a decoder makes of a text what it makes of its value.
-/
namespace StepPipeline.Json

open Document
open Document.Node (Holds HoldsItems HoldsFields)

/-! ## Height and numbers -/

mutual

/-- How many arrays and objects of the value stand inside each other. -/
def height : Json → Nat
  | array items => heightItems items + 1
  | object fields => heightFields fields + 1
  | null => 0
  | bool _ => 0
  | number _ => 0
  | string _ => 0

def heightItems : List Json → Nat
  | [] => 0
  | v :: rest => max (height v) (heightItems rest)

def heightFields : List (String × Json) → Nat
  | [] => 0
  | (_, v) :: rest => max (height v) (heightFields rest)

end

theorem heightFields_append (front back : Fields) :
    heightFields (front ++ back) = max (heightFields front) (heightFields back) := by
  induction front with
  | nil => exact (Nat.zero_max _).symm
  | cons f rest ih => rw [List.cons_append, heightFields, heightFields, ih, Nat.max_assoc]

theorem heightItems_map_le {α : Type} {items : List α} {f g : α → Json}
    (h : ∀ a ∈ items, (f a).height ≤ (g a).height) :
    heightItems (items.map f) ≤ heightItems (items.map g) := by
  induction items with
  | nil => exact Nat.le_refl _
  | cons a rest ih =>
    obtain ⟨ha, hrest⟩ := List.forall_mem_cons.mp h
    have := ih hrest
    simp only [List.map_cons, heightItems]
    omega

mutual

/-- The numbers of the value are whole and fit into 64 bits. -/
def Whole : Json → Prop
  | number x => ∃ n, x = .whole n ∧ (Number.whole n).InRange
  | array items => WholeItems items
  | object fields => WholeFields fields
  | null => True
  | bool _ => True
  | string _ => True

def WholeItems : List Json → Prop
  | [] => True
  | v :: rest => Whole v ∧ WholeItems rest

def WholeFields : List (String × Json) → Prop
  | [] => True
  | (_, v) :: rest => Whole v ∧ WholeFields rest

end

theorem wholeItems_iff {values : List Json} : WholeItems values ↔ ∀ v ∈ values, v.Whole := by
  induction values with
  | nil => exact ⟨fun _ => nofun, fun _ => trivial⟩
  | cons v rest ih => rw [List.forall_mem_cons, ← ih]; rfl

theorem wholeFields_iff {fields : Fields} : WholeFields fields ↔ ∀ f ∈ fields, f.2.Whole := by
  induction fields with
  | nil => exact ⟨fun _ => nofun, fun _ => trivial⟩
  | cons f rest ih => rw [List.forall_mem_cons, ← ih]; rfl

theorem whole_array {values : List Json} (h : ∀ v ∈ values, v.Whole) : (array values).Whole :=
  wholeItems_iff.mpr h

theorem whole_object {fields : Fields} (h : ∀ f ∈ fields, f.2.Whole) : (object fields).Whole :=
  wholeFields_iff.mpr h

theorem whole_nat {n : Nat} (h : n < twoTo 64) : (nat n).Whole := by
  refine ⟨n, rfl, ?_, ?_⟩
  · unfold Number.least
    omega
  · unfold Number.greatest
    omega

theorem whole_optional {key : String} {value : Option Json} (h : ∀ v ∈ value, v.Whole) :
    ∀ f ∈ optional key value, f.2.Whole := by
  cases value with
  | none => exact nofun
  | some v =>
    rintro f hf
    rw [List.mem_singleton.mp hf]
    exact h v rfl

/-! ## Blanks -/

/-- There are only blanks. -/
def Blank (gap : List Char) : Prop := ∀ c ∈ gap, IsBlank c

theorem blank_nil : Blank [] := nofun

theorem Blank.append {front back : List Char} (hf : Blank front) (hb : Blank back) :
    Blank (front ++ back) := by
  intro c hc
  rcases List.mem_append.mp hc with hc | hc
  · exact hf c hc
  · exact hb c hc

theorem skip_of_not_isBlank {c : Char} (h : ¬ IsBlank c) (rest : List Char) (p : Position) :
    Cursor.skip ⟨c :: rest, p⟩ = ⟨c :: rest, p⟩ :=
  if_neg h

/-- Blanks are passed over up to the first character that is none, or to the end. -/
theorem skip_blank {gap rest : List Char} (hg : Blank gap) (hr : ∀ c ∈ rest.head?, ¬ IsBlank c)
    (p : Position) : ∃ q, Cursor.skip ⟨gap ++ rest, p⟩ = ⟨rest, q⟩ := by
  induction gap generalizing p with
  | nil =>
    cases rest with
    | nil => exact ⟨p, rfl⟩
    | cons c rest => exact ⟨p, skip_of_not_isBlank (hr c rfl) rest p⟩
  | cons b gap ih =>
    obtain ⟨hb, hgap⟩ := List.forall_mem_cons.mp hg
    obtain ⟨q, hskip⟩ := ih hgap (p.after b)
    refine ⟨q, ?_⟩
    rw [← hskip]
    exact if_pos hb

theorem skip_gap {gap : List Char} (hg : Blank gap) {c : Char} (hc : ¬ IsBlank c)
    (rest : List Char) (p : Position) :
    ∃ q, Cursor.skip ⟨gap ++ c :: rest, p⟩ = ⟨c :: rest, q⟩ := by
  refine skip_blank hg ?_ p
  rintro _ ⟨⟩
  exact hc

/-! ## Beginnings -/

/-- A value can begin so: no blank is passed over, and no bracket closes. -/
def Begins (c : Char) : Prop :=
  ¬ IsBlank c ∧ c ≠ ']'

theorem begins_of_isDigit {c : Char} (h : c.isDigit = true) : Begins c := by
  refine ⟨?_, ?_⟩
  · rintro (rfl | rfl | rfl | rfl) <;> cases h
  · rintro rfl
    cases h

/-- A whole number is written with a digit or a minus in front. -/
theorem writeInt_front (n : Int) :
    ∃ c cs, writeInt n = c :: cs ∧ (c = '-' ∨ c.isDigit = true) := by
  unfold writeInt
  split
  · exact ⟨_, _, rfl, .inl rfl⟩
  · cases hd : Nat.toDigits 10 n.natAbs with
    | nil => exact absurd hd Nat.toDigits_ne_nil
    | cons c cs =>
      exact ⟨c, cs, rfl, .inr (Nat.isDigit_of_mem_toDigits (by decide) (by decide)
        (hd ▸ List.mem_cons_self))⟩

theorem write_begins {v : Json} (h : v.Whole) : ∃ c cs, v.write = c :: cs ∧ Begins c := by
  cases v with
  | null => exact ⟨_, _, rfl, by unfold Begins IsBlank; decide⟩
  | bool b => cases b <;> exact ⟨_, _, rfl, by unfold Begins IsBlank; decide⟩
  | string s => exact ⟨_, _, rfl, by unfold Begins IsBlank; decide⟩
  | array items => exact ⟨_, _, rfl, by unfold Begins IsBlank; decide⟩
  | object fields => exact ⟨_, _, rfl, by unfold Begins IsBlank; decide⟩
  | number x =>
    obtain ⟨n, rfl, -⟩ := h
    obtain ⟨c, cs, hw, hc⟩ := writeInt_front n
    refine ⟨c, cs, hw, ?_⟩
    rcases hc with rfl | hc
    · unfold Begins IsBlank
      decide
    · exact begins_of_isDigit hc

/-! ## Values without parts -/

theorem scanWord_append (word rest : List Char) (p : Position) :
    scanWord word ⟨word ++ rest, p⟩ = .ok ⟨rest, p.afterAll word⟩ := by
  induction word generalizing p with
  | nil => rfl
  | cons w word ih =>
    show (if w = w then scanWord word ⟨word ++ rest, p.after w⟩ else _) = _
    rw [if_pos rfl, ih]
    rfl

theorem wordReading_append (word rest : List Char) (value : Scalar) (p : Position) :
    ∃ front place q, wordReading ⟨word ++ rest, p⟩ word value =
      (.scalar .other front (.ok value) (.ok place), some ⟨rest, q⟩) := by
  unfold wordReading scalarReading
  rw [scanWord_append]
  exact ⟨_, _, _, rfl⟩

section
variable {limit depth : Nat} (rest : List Char) (p : Position)

theorem readNode_null :
    ∃ node q, readNode (limit + 1) depth ⟨Json.null.write ++ rest, p⟩ = (node, some ⟨rest, q⟩) ∧
      Holds .null node := by
  obtain ⟨_, _, q, h⟩ := wordReading_append ['n', 'u', 'l', 'l'] rest .null p
  exact ⟨_, q, h, .null⟩

theorem readNode_bool (b : Bool) :
    ∃ node q, readNode (limit + 1) depth ⟨(Json.bool b).write ++ rest, p⟩ =
      (node, some ⟨rest, q⟩) ∧ Holds (.bool b) node := by
  cases b with
  | true =>
    obtain ⟨_, _, q, h⟩ := wordReading_append ['t', 'r', 'u', 'e'] rest (.bool true) p
    exact ⟨_, q, h, .bool true⟩
  | false =>
    obtain ⟨_, _, q, h⟩ := wordReading_append ['f', 'a', 'l', 's', 'e'] rest (.bool false) p
    exact ⟨_, q, h, .bool false⟩

theorem readNode_string (s : String) :
    ∃ node q, readNode (limit + 1) depth ⟨(Json.string s).write ++ rest, p⟩ =
      (node, some ⟨rest, q⟩) ∧ Holds (.string s) node :=
  stringReading_written s rest p

theorem readNode_number {n : Int} (h : (Number.whole n).InRange) (hr : Stops rest) :
    ∃ node q, readNode (limit + 1) depth ⟨(Json.number (.whole n)).write ++ rest, p⟩ =
      (node, some ⟨rest, q⟩) ∧ Holds (.number (.whole n)) node := by
  have hread : readNode (limit + 1) depth ⟨writeInt n ++ rest, p⟩ =
      numberReading ⟨writeInt n ++ rest, p⟩ := by
    obtain ⟨c, cs, hw, hc⟩ := writeInt_front n
    rw [hw, List.cons_append]
    rcases hc with rfl | hc
    · rfl
    · have hnot : ∀ d : Char, d.isDigit = false → c ≠ d := by
        rintro d hd rfl
        rw [hd] at hc
        cases hc
      rw [readNode, skip_of_not_isBlank (begins_of_isDigit hc).1]
      simp [hnot 'n' rfl, hnot 't' rfl, hnot 'f' rfl, hnot '"' rfl, digit?_of_isDigit hc]
  show ∃ node q, readNode (limit + 1) depth ⟨writeInt n ++ rest, p⟩ = _ ∧ _
  rw [hread]
  exact numberReading_written h hr p

end

/-! ## Layouts -/

/-- What stands before an item or a field. -/
def separator (first : Bool) : List Char :=
  if first then [] else [',']

mutual

/-- A text of a value. -/
inductive Layout : Json → List Char → Prop
  | null : Layout .null Json.null.write
  | bool (b : Bool) : Layout (.bool b) (Json.bool b).write
  | number (x : Number) : Layout (.number x) (Json.number x).write
  | string (s : String) : Layout (.string s) (Json.string s).write
  | array {values : List Json} {text : List Char} :
    LayoutItems true values text → Layout (.array values) ('[' :: (text ++ [']']))
  | object {fields : List (String × Json)} {text : List Char} :
    LayoutFields true fields text → Layout (.object fields) ('\x7b' :: (text ++ ['\x7d']))

/-- A text of the items of an array up to its bracket, the first ones or those behind another. -/
inductive LayoutItems : Bool → List Json → List Char → Prop
  | nil {first : Bool} {gap : List Char} : Blank gap → LayoutItems first [] gap
  | cons {first : Bool} {v : Json} {rest : List Json} {before after text more : List Char} :
    Blank before → Blank after → Layout v text → LayoutItems false rest more →
    LayoutItems first (v :: rest) (before ++ (separator first ++ (after ++ (text ++ more))))

/-- A text of the fields of an object up to its brace, the first ones or those behind another. -/
inductive LayoutFields : Bool → List (String × Json) → List Char → Prop
  | nil {first : Bool} {gap : List Char} : Blank gap → LayoutFields first [] gap
  | cons {first : Bool} {k : String} {v : Json} {rest : List (String × Json)}
    {before after ahead behind text more : List Char} :
    Blank before → Blank after → Blank ahead → Blank behind → Layout v text →
    LayoutFields false rest more →
    LayoutFields first ((k, v) :: rest)
      (before ++ (separator first ++ (after ++ (writeString k ++
        (ahead ++ ':' :: (behind ++ (text ++ more)))))))

end

theorem Layout.begins {v : Json} {text : List Char} (h : Layout v text) (hw : v.Whole) :
    ∃ c cs, text = c :: cs ∧ Begins c := by
  cases h with
  | array _ => exact ⟨_, _, rfl, by unfold Begins IsBlank; decide⟩
  | object _ => exact ⟨_, _, rfl, by unfold Begins IsBlank; decide⟩
  | _ => exact write_begins hw

/-- The separator stands before later items only. -/
theorem LayoutItems.later {v : Json} {rest : List Json} {text : List Char}
    (h : LayoutItems true (v :: rest) text) : LayoutItems false (v :: rest) (',' :: text) := by
  cases h with
  | @cons _ _ _ before after text more hb ha hv hr =>
    have hcons : LayoutItems false (v :: rest)
        ([] ++ (separator false ++ (before ++ after ++ (text ++ more)))) :=
      .cons blank_nil (hb.append ha) hv hr
    simpa [separator] using hcons

theorem LayoutFields.later {f : String × Json} {rest : List (String × Json)} {text : List Char}
    (h : LayoutFields true (f :: rest) text) : LayoutFields false (f :: rest) (',' :: text) := by
  cases h with
  | @cons _ k _ _ before after ahead behind text more hb ha hah hbe hv hr =>
    have hcons : LayoutFields false ((k, _) :: rest)
        ([] ++ (separator false ++ (before ++ after ++ (writeString k ++
          (ahead ++ ':' :: (behind ++ (text ++ more))))))) :=
      .cons blank_nil (hb.append ha) hah hbe hv hr
    simpa [separator] using hcons

theorem stops_blank {gap : List Char} (hg : Blank gap) {c : Char} {rest : List Char}
    (h : Stops (c :: rest)) : Stops (gap ++ c :: rest) := by
  cases gap with
  | nil => exact h
  | cons b gap => exact stops_cons (Or.inr (Or.inr (Or.inr (hg b List.mem_cons_self))))

theorem LayoutItems.stops {values : List Json} {text : List Char}
    (h : LayoutItems false values text) (rest : List Char) : Stops (text ++ ']' :: rest) := by
  cases h with
  | nil hg => exact stops_blank hg (stops_cons (Or.inr (Or.inl rfl)))
  | cons hb _ _ _ =>
    rw [List.append_assoc]
    exact stops_blank hb (stops_cons (Or.inl rfl))

theorem LayoutFields.stops {fields : List (String × Json)} {text : List Char}
    (h : LayoutFields false fields text) (rest : List Char) : Stops (text ++ '\x7d' :: rest) := by
  cases h with
  | nil hg => exact stops_blank hg (stops_cons (Or.inr (Or.inr (Or.inl rfl))))
  | cons hb _ _ _ _ _ =>
    rw [List.append_assoc]
    exact stops_blank hb (stops_cons (Or.inl rfl))

/-! ## Between the parts -/

section
variable (first : Bool) {before after : List Char} (hb : Blank before) (ha : Blank after)
  (rest : List Char) (p : Position)
include hb

theorem onwardItem_bracket :
    ∃ q, onwardItem first ⟨before ++ ']' :: rest, p⟩ = .done (.closed (some q)) (some ⟨rest, q⟩) := by
  obtain ⟨q, hskip⟩ := skip_gap hb (c := ']') (by unfold IsBlank; decide) rest p
  unfold onwardItem
  rw [hskip]
  exact ⟨_, rfl⟩

theorem onwardEntry_brace :
    ∃ q, onwardEntry first ⟨before ++ '\x7d' :: rest, p⟩ =
      .done (.closed (some q)) (some ⟨rest, q⟩) := by
  obtain ⟨q, hskip⟩ := skip_gap hb (c := '\x7d') (by unfold IsBlank; decide) rest p
  unfold onwardEntry
  rw [hskip]
  exact ⟨_, rfl⟩

theorem colon_blank : ∃ q, colon ⟨before ++ ':' :: rest, p⟩ = .ok ⟨rest, q⟩ := by
  obtain ⟨q, hskip⟩ := skip_gap hb (c := ':') (by unfold IsBlank; decide) rest p
  unfold colon
  rw [hskip]
  exact ⟨_, rfl⟩

/-- A value may stand behind blanks. -/
theorem readNode_blank (limit depth : Nat) {c : Char} (hc : ¬ IsBlank c) :
    ∃ q, readNode (limit + 1) depth ⟨before ++ c :: rest, p⟩ =
      readNode (limit + 1) depth ⟨c :: rest, q⟩ := by
  obtain ⟨q, hskip⟩ := skip_gap hb hc rest p
  refine ⟨q, ?_⟩
  rw [readNode, readNode, hskip, skip_of_not_isBlank hc]

include ha

theorem onwardItem_more {c : Char} (hc : Begins c) :
    ∃ surplus q, onwardItem first ⟨before ++ (separator first ++ (after ++ c :: rest)), p⟩ =
      .more surplus ⟨c :: rest, q⟩ := by
  cases first with
  | true =>
    obtain ⟨q, hskip⟩ := skip_gap (hb.append ha) hc.1 rest p
    refine ⟨none, q, ?_⟩
    show onwardItem true ⟨before ++ (after ++ c :: rest), p⟩ = _
    rw [← List.append_assoc]
    unfold onwardItem
    rw [hskip]
    simp [hc.2]
  | false =>
    obtain ⟨q, hskip⟩ := skip_gap hb (c := ',') (by unfold IsBlank; decide) (after ++ c :: rest) p
    obtain ⟨q', hskip'⟩ := skip_gap ha hc.1 rest (q.after ',')
    refine ⟨some ⟨.trailingCharacters, some (Cursor.peek ⟨c :: rest, q'⟩)⟩, q', ?_⟩
    show onwardItem false ⟨before ++ ',' :: (after ++ c :: rest), p⟩ = _
    unfold onwardItem
    rw [hskip]
    simp [hskip', hc.2]

theorem onwardEntry_more :
    ∃ surplus q, onwardEntry first ⟨before ++ (separator first ++ (after ++ '"' :: rest)), p⟩ =
      .more surplus ⟨'"' :: rest, q⟩ := by
  have hquote : ¬ IsBlank '"' := by unfold IsBlank; decide
  cases first with
  | true =>
    obtain ⟨q, hskip⟩ := skip_gap (hb.append ha) hquote rest p
    refine ⟨none, q, ?_⟩
    show onwardEntry true ⟨before ++ (after ++ '"' :: rest), p⟩ = _
    rw [← List.append_assoc]
    unfold onwardEntry
    rw [hskip]
    rfl
  | false =>
    obtain ⟨q, hskip⟩ := skip_gap hb (c := ',') (by unfold IsBlank; decide) (after ++ '"' :: rest) p
    obtain ⟨q', hskip'⟩ := skip_gap ha hquote rest (q.after ',')
    refine ⟨some ⟨.trailingComma, some (Cursor.peek ⟨',' :: (after ++ '"' :: rest), q⟩)⟩, q', ?_⟩
    show onwardEntry false ⟨before ++ ',' :: (after ++ '"' :: rest), p⟩ = _
    unfold onwardEntry
    rw [hskip]
    simp [hskip']

end

/-! ## Opening brackets -/

section
variable {limit depth : Nat} {text : List Char} {p : Position} {after : Option Position}
  {next : Cursor}

theorem readNode_open {items : List (Option Fault × Node)} (hd : depth + 1 < depthLimit)
    (h : readItems limit (depth + 1) true ⟨text, p.after '['⟩ =
      (items, .closed after, some next)) :
    readNode (limit + 1) depth ⟨'[' :: text, p⟩ =
      (.sequence ⟨some p, none, .closed after⟩ items, some next) := by
  have hread : readNode (limit + 1) depth ⟨'[' :: text, p⟩ =
      (.sequence (frameAt ⟨'[' :: text, p⟩ depth
          (readItems limit (depth + 1) true ⟨text, p.after '['⟩).2.1)
        (readItems limit (depth + 1) true ⟨text, p.after '['⟩).1,
      (readItems limit (depth + 1) true ⟨text, p.after '['⟩).2.2) := rfl
  rw [hread, h]
  simp only [frameAt, if_pos hd]

theorem readNode_brace {entries : List (Option Position × Node × Node)}
    (hd : depth + 1 < depthLimit)
    (h : readEntries limit (depth + 1) true ⟨text, p.after '\x7b'⟩ =
      (entries, .closed after, some next)) :
    readNode (limit + 1) depth ⟨'\x7b' :: text, p⟩ =
      (.mapping ⟨some p, none, .closed after⟩ entries, some next) := by
  have hread : readNode (limit + 1) depth ⟨'\x7b' :: text, p⟩ =
      (.mapping (frameAt ⟨'\x7b' :: text, p⟩ depth
          (readEntries limit (depth + 1) true ⟨text, p.after '\x7b'⟩).2.1)
        (readEntries limit (depth + 1) true ⟨text, p.after '\x7b'⟩).1,
      (readEntries limit (depth + 1) true ⟨text, p.after '\x7b'⟩).2.2) := rfl
  rw [hread, h]
  simp only [frameAt, if_pos hd]

end

/-! ## Every layout is read -/

mutual

/-- What is read of a layout holds its value. -/
theorem readNode_layout (limit depth : Nat) (rest : List Char) (p : Position) :
    (v : Json) → v.Whole → (text : List Char) → Layout v text → 2 * text.length ≤ limit + 1 →
    depth + v.height < depthLimit → Stops rest →
    ∃ node q, readNode (limit + 1) depth ⟨text ++ rest, p⟩ = (node, some ⟨rest, q⟩) ∧
      Holds v node
  | null, _, _, .null, _, _, _ => readNode_null rest p
  | bool b, _, _, .bool _, _, _, _ => readNode_bool rest p b
  | string s, _, _, .string _, _, _, _ => readNode_string rest p s
  | number _, ⟨_, rfl, hn⟩, _, .number _, _, _, hr => readNode_number rest p hn hr
  | array values, hw, _, @Layout.array _ text htext, hl, hh, _ => by
    have hbracket : '[' :: (text ++ [']']) ++ rest = '[' :: (text ++ ']' :: rest) := by simp
    have hlength : ('[' :: (text ++ [']'])).length = text.length + 2 := by simp
    have hheight : (array values).height = heightItems values + 1 := rfl
    obtain ⟨items, after, q, hread, hitems⟩ := readItems_layout limit (depth + 1) rest true
      (p.after '[') values hw text htext (by omega) (by omega)
    rw [hbracket]
    exact ⟨_, q, readNode_open (by omega) hread, .array hitems⟩
  | object fields, hw, _, @Layout.object _ text htext, hl, hh, _ => by
    have hbrace : '\x7b' :: (text ++ ['\x7d']) ++ rest = '\x7b' :: (text ++ '\x7d' :: rest) := by
      simp
    have hlength : ('\x7b' :: (text ++ ['\x7d'])).length = text.length + 2 := by simp
    have hheight : (object fields).height = heightFields fields + 1 := rfl
    obtain ⟨entries, after, q, hread, hentries⟩ := readEntries_layout limit (depth + 1) rest true
      (p.after '\x7b') fields hw text htext (by omega) (by omega)
    rw [hbrace]
    exact ⟨_, q, readNode_brace (by omega) hread, .object hentries⟩

/-- What is read of laid out items holds them. -/
theorem readItems_layout (limit depth : Nat) (rest : List Char) (first : Bool) (p : Position) :
    (values : List Json) → WholeItems values → (text : List Char) →
    LayoutItems first values text → 2 * text.length < limit →
    depth + heightItems values < depthLimit →
    ∃ items after q, readItems limit depth first ⟨text ++ ']' :: rest, p⟩ =
      (items, .closed after, some ⟨rest, q⟩) ∧ HoldsItems values items
  | [], _, _, .nil hg, hl, _ => by
    obtain ⟨limit, rfl⟩ := Nat.exists_eq_add_one_of_ne_zero (Nat.ne_zero_of_lt hl)
    obtain ⟨q, hbracket⟩ := onwardItem_bracket first hg rest p
    refine ⟨[], some q, q, ?_, .nil⟩
    rw [readItems, hbracket]
  | v :: values, hw, _, @LayoutItems.cons _ _ _ before after text more hb ha hv hvalues, hl,
      hh => by
    obtain ⟨hwv, hwvalues⟩ := hw
    have hheight : heightItems (v :: values) = max v.height (heightItems values) := rfl
    obtain ⟨c, cs, hstart, hc⟩ := hv.begins hwv
    have hpos : 0 < text.length := by
      rw [hstart]
      simp
    simp only [List.length_append] at hl
    obtain ⟨limit, rfl⟩ : ∃ l, limit = l + 2 := ⟨limit - 2, by omega⟩
    obtain ⟨surplus, q, hmore⟩ := onwardItem_more first hb ha (cs ++ (more ++ ']' :: rest)) p hc
    obtain ⟨item, q', hread, hitem⟩ := readNode_layout limit depth (more ++ ']' :: rest) q v hwv
      text hv (by omega) (by omega) (hvalues.stops rest)
    obtain ⟨items, place, q'', hreads, hitems⟩ := readItems_layout (limit + 1) depth rest false q'
      values hwvalues more hvalues (by omega) (by omega)
    have htext : before ++ (separator first ++ (after ++ (text ++ more))) ++ ']' :: rest =
        before ++ (separator first ++ (after ++ c :: (cs ++ (more ++ ']' :: rest)))) := by
      simp [hstart]
    have hback : c :: (cs ++ (more ++ ']' :: rest)) = text ++ (more ++ ']' :: rest) := by
      simp [hstart]
    refine ⟨(surplus, item) :: items, place, q'', ?_, .cons hitem hitems⟩
    rw [htext, readItems, hmore]
    simp only [hback, hread, hreads]

/-- What is read of laid out fields holds them. -/
theorem readEntries_layout (limit depth : Nat) (rest : List Char) (first : Bool) (p : Position) :
    (fields : List (String × Json)) → WholeFields fields → (text : List Char) →
    LayoutFields first fields text → 2 * text.length < limit →
    depth + heightFields fields < depthLimit →
    ∃ entries after q, readEntries limit depth first ⟨text ++ '\x7d' :: rest, p⟩ =
      (entries, .closed after, some ⟨rest, q⟩) ∧ HoldsFields fields entries
  | [], _, _, .nil hg, hl, _ => by
    obtain ⟨limit, rfl⟩ := Nat.exists_eq_add_one_of_ne_zero (Nat.ne_zero_of_lt hl)
    obtain ⟨q, hbrace⟩ := onwardEntry_brace first hg rest p
    refine ⟨[], some q, q, ?_, .nil⟩
    rw [readEntries, hbrace]
  | (k, v) :: fields, hw, _, @LayoutFields.cons _ _ _ _ before after ahead behind text more hb ha
      hah hbe hv hfields, hl, hh => by
    obtain ⟨hwv, hwfields⟩ := hw
    have hheight : heightFields ((k, v) :: fields) = max v.height (heightFields fields) := rfl
    obtain ⟨c, cs, hstart, hc⟩ := hv.begins hwv
    simp only [List.length_append, List.length_cons] at hl
    obtain ⟨limit, rfl⟩ : ∃ l, limit = l + 2 := ⟨limit - 2, by omega⟩
    -- The text from the value on, from the colon on, and from the key on.
    let fromValue := text ++ (more ++ '\x7d' :: rest)
    let fromColon := ahead ++ ':' :: (behind ++ fromValue)
    have hkeyText : ∃ tail, writeString k ++ fromColon = '"' :: tail := ⟨_, rfl⟩
    obtain ⟨tail, htail⟩ := hkeyText
    obtain ⟨surplus, q, hmore⟩ := onwardEntry_more first hb ha tail p
    obtain ⟨key, q₁, hkey, hk⟩ := stringReading_written k fromColon q
    obtain ⟨q₂, hcolon⟩ := colon_blank hah (behind ++ fromValue) q₁
    obtain ⟨q₃, hblank⟩ := readNode_blank hbe (cs ++ (more ++ '\x7d' :: rest)) q₂ limit depth hc.1
    obtain ⟨value, q₄, hread, hvalue⟩ := readNode_layout limit depth (more ++ '\x7d' :: rest) q₃ v
      hwv text hv (by omega) (by omega) (hfields.stops rest)
    obtain ⟨entries, place, q₅, hreads, hentries⟩ := readEntries_layout (limit + 1) depth rest
      false q₄ fields hwfields more hfields (by omega) (by omega)
    have hback : c :: (cs ++ (more ++ '\x7d' :: rest)) = fromValue := by
      simp [fromValue, hstart]
    have htext : before ++ (separator first ++ (after ++ (writeString k ++
        (ahead ++ ':' :: (behind ++ (text ++ more)))))) ++ '\x7d' :: rest =
        before ++ (separator first ++ (after ++ '"' :: tail)) := by
      rw [← htail]
      simp [fromColon, fromValue]
    rw [hback] at hblank
    refine ⟨(some (keyPlace ⟨fromColon, q₁⟩), key, value) :: entries, place, q₅, ?_,
      .cons hk hvalue hentries⟩
    rw [htext, readEntries, hmore]
    simp only [← htail, hkey, fromColon, hcolon, hblank]
    simp only [fromValue, hread, hreads]

end

/-! ## Whole texts -/

/-- The text is a layout of the value, with blanks at its ends. -/
def LaidOut (v : Json) (text : String) : Prop :=
  ∃ front core back, Blank front ∧ Layout v core ∧ Blank back ∧
    text.toList = front ++ (core ++ back)

/-- A reader finds the value in the text, and nothing behind it. -/
def ReadFrom (v : Json) (text : String) : Prop :=
  ∃ node, readText text = (node, none) ∧ Holds v node

/-- Every layout of a value is read to its end. -/
theorem LaidOut.readFrom {v : Json} {text : String} (h : v.LaidOut text) (hw : v.Whole)
    (hh : v.height < depthLimit) : v.ReadFrom text := by
  obtain ⟨front, core, back, hfront, hcore, hback, htext⟩ := h
  obtain ⟨c, cs, hstart, hc⟩ := hcore.begins hw
  have hend : Stops back := by
    cases back with
    | nil => exact stops_nil
    | cons b back => exact stops_cons (Or.inr (Or.inr (Or.inr (hback b List.mem_cons_self))))
  have hlength : text.toList.length = front.length + (core.length + back.length) := by
    simp [htext]
  obtain ⟨q, hblank⟩ := readNode_blank hfront (cs ++ back) .start
    (2 * text.toList.length + 1) 0 hc.1
  obtain ⟨node, q', hread, hnode⟩ := readNode_layout (2 * text.toList.length + 1) 0 back q v hw
    core hcore (by omega) (by omega) hend
  obtain ⟨q'', hskip⟩ : ∃ q'', Cursor.skip ⟨back ++ [], q'⟩ = ⟨[], q''⟩ :=
    skip_blank hback (by simp) q'
  have hjoin : front ++ c :: (cs ++ back) = text.toList := by
    simp [htext, hstart]
  have hcoreText : c :: (cs ++ back) = core ++ back := by simp [hstart]
  rw [hjoin, hcoreText, hread] at hblank
  rw [List.append_nil] at hskip
  refine ⟨node, ?_, hnode⟩
  unfold readText Cursor.ofString
  simp only [hblank, Option.getD_some, hskip]
  rfl

/-- A text has one value at most. -/
theorem ReadFrom.unique {v w : Json} {text : String} (hv : v.ReadFrom text)
    (hw : w.ReadFrom text) : v = w := by
  obtain ⟨node, hread, hnode⟩ := hv
  obtain ⟨node', hread', hnode'⟩ := hw
  rw [hread'] at hread
  cases hread
  exact Node.eq_of_holds hnode hnode'

/-- A decoder that reads a value reads its texts. -/
theorem ReadFrom.decodeText {α : Type} {decode : Decoder α} (hd : Decoder.Blind decode) {v : Json}
    {text : String} (h : v.ReadFrom text) {a : α} (ha : decode (.ofJson v) = .ok a) :
    decodeText decode text = .ok a := by
  obtain ⟨node, hread, hnode⟩ := h
  unfold Json.decodeText
  simp only [hread, hd hnode ha]

end StepPipeline.Json

import StepPipeline.Proofs.Json.Canonical

/-!
# Reading values as they are written

A value is written without blanks or over several lines. Both texts are layouts of it, so a reader
finds in them what was written, if its numbers are whole and fit into 64 bits (`Json.Whole`) and it
may go as deep as the value is high (`Json.height`).

**Results.**
* `laidOut_compact`, `laidOut_pretty`: the two texts are layouts of the value.
* `compact_injective`: different values have different texts.
* `parse_laidOut`: as data, the value is read with its fields in order.
-/
namespace StepPipeline.Json

open Document

/-! ## The two texts -/

mutual

theorem layout_write : (v : Json) → Layout v v.write
  | null => .null
  | bool b => .bool b
  | number x => .number x
  | string s => .string s
  | array values => by
    have h := Layout.array (layoutItems_write values)
    simpa [write] using h
  | object fields => by
    have h := Layout.object (layoutFields_write fields)
    simpa [write] using h

theorem layoutItems_write : (values : List Json) → LayoutItems true values (writeItems values)
  | [] => .nil blank_nil
  | [v] => by
    have h : LayoutItems true [v] ([] ++ (separator true ++ ([] ++ (v.write ++ [])))) :=
      .cons blank_nil blank_nil (layout_write v) (.nil blank_nil)
    simpa [separator, writeItems] using h
  | v :: w :: rest => by
    have h : LayoutItems true (v :: w :: rest)
        ([] ++ (separator true ++ ([] ++ (v.write ++ ',' :: writeItems (w :: rest))))) :=
      .cons blank_nil blank_nil (layout_write v) (layoutItems_write (w :: rest)).later
    simpa [separator, writeItems] using h

theorem layoutFields_write : (fields : List (String × Json)) →
    LayoutFields true fields (writeFields fields)
  | [] => .nil blank_nil
  | [(k, v)] => by
    have h : LayoutFields true [(k, v)]
        ([] ++ (separator true ++ ([] ++ (writeString k ++ ([] ++ ':' :: ([] ++ (v.write ++ []))))))) :=
      .cons blank_nil blank_nil blank_nil blank_nil (layout_write v) (.nil blank_nil)
    simpa [separator, writeFields] using h
  | (k, v) :: f :: rest => by
    have h : LayoutFields true ((k, v) :: f :: rest)
        ([] ++ (separator true ++ ([] ++ (writeString k ++ ([] ++ ':' :: ([] ++
          (v.write ++ ',' :: writeFields (f :: rest)))))))) :=
      .cons blank_nil blank_nil blank_nil blank_nil (layout_write v)
        (layoutFields_write (f :: rest)).later
    simpa [separator, writeFields] using h

end

theorem blank_newLine (depth : Nat) : Blank (newLine depth) := by
  intro c hc
  rcases List.mem_cons.mp hc with rfl | hc
  · exact Or.inr (Or.inl rfl)
  · rw [(List.mem_replicate.mp hc).2]
    exact Or.inl rfl

theorem blank_space : Blank [' '] := by
  intro c hc
  exact Or.inl (List.mem_singleton.mp hc)

mutual

theorem layout_writePretty (depth : Nat) : (v : Json) → Layout v (v.writePretty depth)
  | null => .null
  | bool true => .bool true
  | bool false => .bool false
  | number x => .number x
  | string s => .string s
  | array [] => .array (.nil blank_nil)
  | array (v :: rest) => by
    have h : LayoutItems true (v :: rest)
        ([] ++ (separator true ++ (newLine (depth + 1) ++
          (v.writePretty (depth + 1) ++ (writePrettyItems depth rest ++ newLine depth))))) :=
      .cons blank_nil (blank_newLine _) (layout_writePretty (depth + 1) v)
        (layoutItems_writePretty depth rest)
    simpa [separator, writePretty] using Layout.array h
  | object [] => .object (.nil blank_nil)
  | object ((k, v) :: rest) => by
    have h : LayoutFields true ((k, v) :: rest)
        ([] ++ (separator true ++ (newLine (depth + 1) ++ (writeString k ++ ([] ++ ':' :: ([' '] ++
          (v.writePretty (depth + 1) ++ (writePrettyFields depth rest ++ newLine depth)))))))) :=
      .cons blank_nil (blank_newLine _) blank_nil blank_space (layout_writePretty (depth + 1) v)
        (layoutFields_writePretty depth rest)
    simpa [separator, writePretty] using Layout.object h

theorem layoutItems_writePretty (depth : Nat) : (values : List Json) →
    LayoutItems false values (writePrettyItems depth values ++ newLine depth)
  | [] => .nil (blank_newLine depth)
  | v :: rest => by
    have h : LayoutItems false (v :: rest)
        ([] ++ (separator false ++ (newLine (depth + 1) ++
          (v.writePretty (depth + 1) ++ (writePrettyItems depth rest ++ newLine depth))))) :=
      .cons blank_nil (blank_newLine _) (layout_writePretty (depth + 1) v)
        (layoutItems_writePretty depth rest)
    simpa [separator, writePrettyItems] using h

theorem layoutFields_writePretty (depth : Nat) : (fields : List (String × Json)) →
    LayoutFields false fields (writePrettyFields depth fields ++ newLine depth)
  | [] => .nil (blank_newLine depth)
  | (k, v) :: rest => by
    have h : LayoutFields false ((k, v) :: rest)
        ([] ++ (separator false ++ (newLine (depth + 1) ++ (writeString k ++ ([] ++ ':' :: ([' '] ++
          (v.writePretty (depth + 1) ++ (writePrettyFields depth rest ++ newLine depth)))))))) :=
      .cons blank_nil (blank_newLine _) blank_nil blank_space (layout_writePretty (depth + 1) v)
        (layoutFields_writePretty depth rest)
    simpa [separator, writePrettyFields] using h

end

theorem laidOut_compact (v : Json) : v.LaidOut v.compact :=
  ⟨[], v.write, [], blank_nil, layout_write v, blank_nil, by simp [compact]⟩

theorem laidOut_pretty (v : Json) : v.LaidOut v.pretty :=
  ⟨[], v.writePretty 0, [], blank_nil, layout_writePretty 0 v, blank_nil, by simp [pretty]⟩

/-- A line end behind the text changes nothing. -/
theorem LaidOut.line {v : Json} {text : String} (h : v.LaidOut text) :
    v.LaidOut (text ++ "\n") := by
  obtain ⟨front, core, back, hfront, hcore, hback, htext⟩ := h
  have hline : Blank ['\n'] := by
    intro c hc
    exact Or.inr (Or.inl (List.mem_singleton.mp hc))
  refine ⟨front, core, back ++ ['\n'], hfront, hcore, hback.append hline, ?_⟩
  simp [htext]

theorem readFrom_compact {v : Json} (hw : v.Whole) (hh : v.height < depthLimit) :
    v.ReadFrom v.compact :=
  (laidOut_compact v).readFrom hw hh

/-- Values with one text are the same. -/
theorem compact_injective {v w : Json} (hv : v.Whole) (hvh : v.height < depthLimit) (hw : w.Whole)
    (hwh : w.height < depthLimit) (h : v.compact = w.compact) : v = w :=
  (readFrom_compact hv hvh).unique (h ▸ readFrom_compact hw hwh)

/-- A decoder that reads a value reads its text. -/
theorem decodeText_compact {α : Type} {decode : Decoder α} (hd : Decoder.Blind decode) {v : Json}
    (hw : v.Whole) (hh : v.height < depthLimit) {a : α} (ha : decode (.ofJson v) = .ok a) :
    decodeText decode v.compact = .ok a :=
  (readFrom_compact hw hh).decodeText hd ha

/-! ## Data -/

mutual

/-- As data, a value is read with its fields in order. -/
theorem json_ofJson : (v : Json) → v.Whole → (Node.ofJson v).json = .ok v.canonical
  | null, _ => rfl
  | bool _, _ => rfl
  | string _, _ => rfl
  | number _, ⟨_, rfl, _⟩ => rfl
  | array values, hw => by
    simp only [Node.ofJson, Node.json, jsonItems_ofItems values hw]
    rfl
  | object fields, hw => by
    simp only [Node.ofJson, Node.json, jsonFields_ofFields fields hw]
    rfl

theorem jsonItems_ofItems : (values : List Json) → WholeItems values →
    Node.jsonItems (Node.ofItems values) = .ok (canonicalItems values)
  | [], _ => rfl
  | v :: rest, ⟨hv, hr⟩ => by
    simp only [Node.ofItems, Node.jsonItems, json_ofJson v hv, jsonItems_ofItems rest hr]
    rfl

theorem jsonFields_ofFields : (fields : Fields) → WholeFields fields →
    Node.jsonFields (Node.ofFields fields) = .ok (canonicalFields fields)
  | [], _ => rfl
  | (k, v) :: rest, ⟨hv, hr⟩ => by
    simp only [Node.ofFields, Node.jsonFields, json_ofJson v hv, jsonFields_ofFields rest hr]
    rfl

end

/-- **Round trip.** Every layout of a value is read as the value, its fields in order. -/
theorem parse_laidOut {v : Json} {text : String} (h : v.LaidOut text) (hw : v.Whole)
    (hh : v.height < depthLimit) : parse text = .ok v.canonical :=
  (h.readFrom hw hh).decodeText Decoder.blind_json (json_ofJson v hw)

/-- The value is data, and a reader gets its numbers back. -/
def Plain (v : Json) : Prop := v.Whole ∧ v.canonical = v

theorem Plain.json {v : Json} (h : v.Plain) : (Node.ofJson v).json = .ok v := by
  rw [json_ofJson v h.1, h.2]

theorem canonicalFields_plain {fields : Fields} (h : ∀ f ∈ fields, f.2.Plain) :
    canonicalFields fields = fields :=
  canonicalFields_of_canonical fun f hf => (h f hf).2

end StepPipeline.Json

import StepPipeline.Document.Decode
import StepPipeline.Proofs.Document.Records

/-!
# Nodes that hold values

The node of a text knows more than the value that the text writes: where each part begins and ends,
and which faults would meet a reader who asks for something else. A decoder that succeeds on the
value does not ask for any of that.

**Holding (`Node.Holds`).** The node has no faults, and its parts are those of the value.

**Results.**
* `holds_ofJson`: the node made of a value holds it.
* `eq_of_holds`: a node holds one value at most.
* `json_of_holds`: a node that holds a value is read as it.
* `Decoder.Blind`: what a decoder makes of a value, it makes of every node that holds it. So do the
  decoders of texts, numbers, choices and lists, and that of a record if those of its fields do.
-/
namespace StepPipeline.Document

variable {α β : Type}

namespace Node

mutual

/-- The node holds the value, whatever its places are. -/
inductive Holds : Json → Node → Prop where
  | null {front place : Option Position} :
    Holds .null (.scalar .other front (.ok .null) (.ok place))
  | bool (b : Bool) {front place : Option Position} :
    Holds (.bool b) (.scalar .other front (.ok (.bool b)) (.ok place))
  | number (x : Number) {front place : Option Position} :
    Holds (.number x) (.scalar .other front (.ok (.number x)) (.ok place))
  | string (s : String) {front place : Option Position} :
    Holds (.string s) (.scalar .quote front (.ok (.text s)) (.ok place))
  | array {before after : Option Position} {values : List Json} {items : List (Option Fault × Node)}
    (h : HoldsItems values items) :
    Holds (.array values) (.sequence ⟨before, none, .closed after⟩ items)
  | object {before after : Option Position} {fields : Fields}
    {entries : List (Option Position × Node × Node)} (h : HoldsFields fields entries) :
    Holds (.object fields) (.mapping ⟨before, none, .closed after⟩ entries)

inductive HoldsItems : List Json → List (Option Fault × Node) → Prop where
  | nil : HoldsItems [] []
  | cons {surplus : Option Fault} {v : Json} {item : Node} {values : List Json}
    {items : List (Option Fault × Node)} (h : Holds v item) (hs : HoldsItems values items) :
    HoldsItems (v :: values) ((surplus, item) :: items)

inductive HoldsFields : Fields → List (Option Position × Node × Node) → Prop where
  | nil : HoldsFields [] []
  | cons {mark : Option Position} {k : String} {v : Json} {key value : Node} {fields : Fields}
    {entries : List (Option Position × Node × Node)} (hk : Holds (.string k) key)
    (h : Holds v value) (hs : HoldsFields fields entries) :
    HoldsFields ((k, v) :: fields) ((mark, key, value) :: entries)

end

mutual

theorem holds_ofJson : (v : Json) → Holds v (ofJson v)
  | .null => .null
  | .bool b => .bool b
  | .number x => .number x
  | .string s => .string s
  | .array values => .array (holds_ofItems values)
  | .object fields => .object (holds_ofFields fields)

theorem holds_ofItems : (values : List Json) → HoldsItems values (ofItems values)
  | [] => .nil
  | v :: rest => .cons (holds_ofJson v) (holds_ofItems rest)

theorem holds_ofFields : (fields : Fields) → HoldsFields fields (ofFields fields)
  | [] => .nil
  | (k, v) :: rest => .cons (.string k) (holds_ofJson v) (holds_ofFields rest)

end

theorem text_of_holds {k : String} {key : Node} (h : Holds (.string k) key) : key.text = .ok k := by
  cases h
  rfl

mutual

/-- A node that holds a value is read as the value is. -/
theorem json_of_holds : {v : Json} → {node : Node} → Holds v node → node.json = (ofJson v).json
  | .null, _, h => by cases h; rfl
  | .bool _, _, h => by cases h; rfl
  | .number (.whole _), _, h => by cases h; rfl
  | .number (.double _), _, h => by cases h; rfl
  | .string _, _, h => by cases h; rfl
  | .array values, _, h => by
    cases h with
    | array h =>
      simp only [ofJson, json, jsonItems_of_holds h]
      rfl
  | .object fields, _, h => by
    cases h with
    | object h =>
      simp only [ofJson, json, jsonFields_of_holds h]
      rfl

theorem jsonItems_of_holds : {values : List Json} → {items : List (Option Fault × Node)} →
    HoldsItems values items → jsonItems items = jsonItems (ofItems values)
  | [], _, h => by cases h; rfl
  | v :: rest, _, h => by
    cases h with
    | cons h hs => simp only [ofItems, jsonItems, json_of_holds h, jsonItems_of_holds hs]

theorem jsonFields_of_holds : {fields : Fields} →
    {entries : List (Option Position × Node × Node)} →
    HoldsFields fields entries → jsonFields entries = jsonFields (ofFields fields)
  | [], _, h => by cases h; rfl
  | (k, v) :: rest, _, h => by
    cases h with
    | cons hk h hs =>
      simp only [ofFields, jsonFields, text_of_holds hk, text_of_holds (.string k),
        json_of_holds h, jsonFields_of_holds hs, plain]

end

mutual

/-- A node holds one value at most. -/
theorem eq_of_holds : {v w : Json} → {node : Node} → Holds v node → Holds w node → v = w
  | .null, _, _, h, h' => by cases h; cases h'; rfl
  | .bool _, _, _, h, h' => by cases h; cases h'; rfl
  | .number _, _, _, h, h' => by cases h; cases h'; rfl
  | .string _, _, _, h, h' => by cases h; cases h'; rfl
  | .array values, _, _, h, h' => by
    cases h with
    | array h => cases h' with | array h' => rw [eq_of_holdsItems h h']
  | .object fields, _, _, h, h' => by
    cases h with
    | object h => cases h' with | object h' => rw [eq_of_holdsFields h h']

theorem eq_of_holdsItems : {values others : List Json} → {items : List (Option Fault × Node)} →
    HoldsItems values items → HoldsItems others items → values = others
  | [], _, _, h, h' => by cases h; cases h'; rfl
  | v :: rest, _, _, h, h' => by
    cases h with
    | cons h hs =>
      cases h' with
      | cons h' hs' => rw [eq_of_holds h h', eq_of_holdsItems hs hs']

theorem eq_of_holdsFields : {fields others : Fields} →
    {entries : List (Option Position × Node × Node)} →
    HoldsFields fields entries → HoldsFields others entries → fields = others
  | [], _, _, h, h' => by cases h; cases h'; rfl
  | (k, v) :: rest, _, _, h, h' => by
    cases h with
    | cons hk h hs =>
      cases h' with
      | cons hk' h' hs' =>
        cases hk
        cases hk'
        rw [eq_of_holds h h', eq_of_holdsFields hs hs']

end

mutual

/-- A node that holds a value can be passed over. -/
theorem pass_of_holds : {v : Json} → {node : Node} → Holds v node → node.pass = .ok ()
  | .null, _, h => by cases h; rfl
  | .bool _, _, h => by cases h; rfl
  | .number _, _, h => by cases h; rfl
  | .string _, _, h => by cases h; rfl
  | .array values, _, h => by
    cases h with
    | array h =>
      simp only [pass, passItems_of_holds h]
      rfl
  | .object fields, _, h => by
    cases h with
    | object h =>
      simp only [pass, passEntries_of_holds h]
      rfl

theorem passItems_of_holds : {values : List Json} → {items : List (Option Fault × Node)} →
    HoldsItems values items → passItems items = .ok ()
  | [], _, h => by cases h; rfl
  | v :: rest, _, h => by
    cases h with
    | cons h hs =>
      simp only [passItems, pass_of_holds h, passItems_of_holds hs]
      rfl

theorem passEntries_of_holds : {fields : Fields} →
    {entries : List (Option Position × Node × Node)} →
    HoldsFields fields entries → passEntries entries = .ok ()
  | [], _, h => by cases h; rfl
  | (k, v) :: rest, _, h => by
    cases h with
    | cons hk h hs =>
      simp only [passEntries, pass_of_holds hk, pass_of_holds h, passEntries_of_holds hs]
      rfl

end

mutual

/-- A node that holds a value can be read to its end. -/
theorem check_of_holds : {v : Json} → {node : Node} → Holds v node → node.check = .ok ()
  | .null, _, h => by cases h; rfl
  | .bool _, _, h => by cases h; rfl
  | .number _, _, h => by cases h; rfl
  | .string _, _, h => by cases h; rfl
  | .array values, _, h => by
    cases h with
    | array h =>
      simp only [check, checkItems_of_holds h]
      rfl
  | .object fields, _, h => by
    cases h with
    | object h =>
      simp only [check, checkEntries_of_holds h]
      rfl

theorem checkItems_of_holds : {values : List Json} → {items : List (Option Fault × Node)} →
    HoldsItems values items → checkItems items = .ok ()
  | [], _, h => by cases h; rfl
  | v :: rest, _, h => by
    cases h with
    | cons h hs =>
      simp only [checkItems, check_of_holds h, checkItems_of_holds hs]
      rfl

theorem checkEntries_of_holds : {fields : Fields} →
    {entries : List (Option Position × Node × Node)} →
    HoldsFields fields entries → checkEntries entries = .ok ()
  | [], _, h => by cases h; rfl
  | (k, v) :: rest, _, h => by
    cases h with
    | cons hk h hs =>
      simp only [checkEntries, check_of_holds hk, check_of_holds h, checkEntries_of_holds hs]
      rfl

end

end Node

open Node (Holds HoldsItems HoldsFields)

namespace Decoder

/-- What the decoder makes of a value, it makes of every node that holds it. -/
def Blind (decode : Decoder α) : Prop :=
  ∀ {v : Json} {node : Node} {a : α}, Holds v node → decode (.ofJson v) = .ok a →
    decode node = .ok a

section
variable {decode : Decoder α}

theorem blind_map (h : Blind decode) (g : α → β) : Blind fun node => (decode node).map g := by
  intro v node b hh hb
  change (decode (.ofJson v)).map g = .ok b at hb
  show (decode node).map g = .ok b
  cases hd : decode (.ofJson v) with
  | error f => rw [hd] at hb; cases hb
  | ok a =>
    rw [hd] at hb
    rw [h hh hd]
    exact hb

theorem blind_text : Blind Node.text := by
  intro v node s h hs
  cases h with
  | string s => exact hs
  | null => cases hs
  | bool b => cases hs
  | number x => cases hs
  | array h => cases hs
  | object h => cases hs

theorem blind_json : Blind Node.json := by
  intro v node a h ha
  rw [Node.json_of_holds h]
  exact ha

theorem blind_count : Blind count := by
  intro v node n h hn
  cases h with
  | number x =>
    cases x with
    | whole k =>
      unfold count at hn ⊢
      by_cases hk : 0 ≤ k
      · simpa only [Node.ofJson, Node.plain, if_pos hk] using hn
      · simp only [Node.ofJson, Node.plain, if_neg hk] at hn
        cases hn
    | double x => cases hn
  | null => cases hn
  | bool b => cases hn
  | string s => cases hn
  | array h => cases hn
  | object h => cases hn

theorem blind_notated {expected : String} {read : String → Except String α} :
    Blind (notated expected read) := by
  intro v node a h ha
  cases h with
  | string s =>
    unfold notated at ha ⊢
    cases hr : read s with
    | ok b => simpa only [Node.ofJson, Node.plain, hr] using ha
    | error problem =>
      simp only [Node.ofJson, Node.plain, hr] at ha
      cases ha
  | null => cases ha
  | bool b => cases ha
  | number x => cases ha
  | array h => cases ha
  | object h => cases ha

theorem blind_optional (h : Blind decode) : Blind (optional decode) := by
  intro v node a hh ha
  have hsome : ∀ {u : Json} {n : Node}, u ≠ .null → Holds u n →
      optional decode n = (decode n).map some := by
    intro u n hu hn
    cases hn with
    | null => exact absurd rfl hu
    | _ => rfl
  by_cases hv : v = .null
  · subst hv
    cases hh
    exact ha
  · rw [hsome hv (Node.holds_ofJson v)] at ha
    rw [hsome hv hh]
    exact blind_map h some hh ha

/-- Which choice a text names does not depend on its place. -/
theorem named_ok_iff {known : List (String × α)} {name : String}
    {passed : Except Fault (Option Position)} {a : α} :
    named known name passed = .ok a ↔ known.lookup name = some a := by
  unfold named
  cases known.lookup name with
  | none => exact ⟨nofun, nofun⟩
  | some b => simp

theorem blind_choice {known : List (String × α)} : Blind (choice known) := by
  intro v node a hh ha
  cases hh with
  | string name => exact named_ok_iff.mpr (named_ok_iff.mp ha)
  | @object _ _ fields _ hs =>
    simp only [Node.ofJson, choice, Frame.enter, Frame.plain, bind, Except.bind] at ha ⊢
    cases hs with
    | nil => cases ha
    | @cons _ name value _ _ rest _ hk hv hs =>
      cases hk
      simp only [Node.ofFields, choiceEntry, Node.plain, bind, Except.bind] at ha ⊢
      cases hl : known.lookup name with
      | none => simp [named, hl] at ha
      | some b =>
        simp only [named, hl] at ha ⊢
        cases hv with
        | null =>
          cases hs with
          | nil => exact ha
          | cons _ _ _ => cases ha
        | bool b => cases ha
        | number x => cases ha
        | string s => cases ha
        | array h => cases ha
        | object h => cases ha
  | null => cases ha
  | bool b => cases ha
  | number x => cases ha
  | array h => cases ha

theorem items_of_holds (h : Blind decode) {values : List Json} {items : List (Option Fault × Node)}
    (hh : HoldsItems values items) {as : List α}
    (ha : Decoder.items decode (Node.ofItems values) = .ok as) :
    Decoder.items decode items = .ok as := by
  induction values generalizing items as with
  | nil => cases hh; exact ha
  | cons v rest ih =>
    cases hh with
    | cons hv hs =>
      simp only [Node.ofItems, Decoder.items, bind, Except.bind] at ha ⊢
      cases hd : decode (.ofJson v) with
      | error f => simp [hd] at ha
      | ok b =>
        rw [h hv hd]
        cases hr : Decoder.items decode (Node.ofItems rest) with
        | error f => simp [hd, hr] at ha
        | ok bs =>
          simp only [hd, hr] at ha
          simp only [ih hs hr]
          exact ha

theorem blind_list (h : Blind decode) : Blind (list decode) := by
  intro v node as hh ha
  cases hh with
  | @array _ _ values _ hs =>
    simp only [Node.ofJson, list, Frame.enter, Frame.plain, Frame.finish, bind, Except.bind]
      at ha ⊢
    cases hr : Decoder.items decode (Node.ofItems values) with
    | error f => simp [hr] at ha
    | ok bs =>
      simp only [hr] at ha
      simp only [items_of_holds h hs hr]
      exact ha
  | null => cases ha
  | bool b => cases ha
  | number x => cases ha
  | string s => cases ha
  | object hs => cases ha

theorem blind_fieldsAsWritten : Blind fieldsAsWritten := by
  intro v node fields hh ha
  cases hh with
  | object hs =>
    simp only [Node.ofJson, fieldsAsWritten, Frame.enter, Frame.plain, Frame.finish,
      Node.jsonFields_of_holds hs] at ha ⊢
    exact ha
  | null => cases ha
  | bool b => cases ha
  | number x => cases ha
  | string s => cases ha
  | array hs => cases ha

theorem fields_eq_map : fields = fun node => (fieldsAsWritten node).map Fields.sorted := by
  funext node
  cases node with
  | mapping frame entries =>
    simp only [fields, fieldsAsWritten, bind, Except.bind]
    cases frame.enter <;> simp [Except.map]
    cases Node.jsonFields entries <;> simp
    cases frame.finish <;> rfl
  | _ => rfl

theorem blind_fields : Blind fields := by
  rw [fields_eq_map]
  exact blind_map blind_fieldsAsWritten Fields.sorted

end
end Decoder

namespace Record

open Decoder (Blind)

variable {r : Record α}

theorem fieldAt?_of_holds {k : String} {key : Node} (h : Holds (.string k) key) :
    r.fieldAt? key = r.fieldAt? (.plain (.text k)) := by
  cases h
  rfl

theorem readEntries_of_holds (hr : ∀ f ∈ r.fields, Blind f.read) {fields : Fields}
    {entries : List (Option Position × Node × Node)} (hh : HoldsFields fields entries)
    {seen : List Nat} {a : α} {read : List Nat × α}
    (ha : r.readEntries seen a (Node.ofFields fields) = .ok read) :
    r.readEntries seen a entries = .ok read := by
  induction fields generalizing entries seen a with
  | nil => cases hh; exact ha
  | cons first rest ih =>
    obtain ⟨k, v⟩ := first
    cases hh with
    | cons hk hv hs =>
      simp only [Node.ofFields, readEntries, bind, Except.bind, fieldAt?_of_holds hk,
        Node.pass_of_holds hv, Node.pass_of_holds (Node.holds_ofJson v)] at ha ⊢
      cases hi : r.fieldAt? (.plain (.text k)) with
      | error f => simp [hi] at ha
      | ok index =>
        simp only [hi] at ha ⊢
        cases hf : index.bind fun i => (r.fields[i]?).map fun f => (i, f) with
        | none =>
          simp only [hf] at ha ⊢
          exact ih hs ha
        | some found =>
          obtain ⟨i, f⟩ := found
          have hfield : f ∈ r.fields := by
            obtain ⟨j, -, hj⟩ := Option.bind_eq_some_iff.mp hf
            obtain ⟨g, hg, he⟩ := Option.map_eq_some_iff.mp hj
            cases he
            exact List.mem_of_getElem? hg
          simp only [hf] at ha ⊢
          cases hc : seen.contains i with
          | true =>
            simp only [hc, if_true] at ha
            cases ha
          | false =>
            simp only [hc, Bool.false_eq_true, if_false] at ha ⊢
            cases hset : f.read (.ofJson v) with
            | error fault => simp [hset] at ha
            | ok set =>
              simp only [hset] at ha
              simp only [hr f hfield hv hset]
              exact ih hs ha

theorem readItems_of_holds {before after : Option Position} {total size : Nat}
    {fields : List (Field α)} (hr : ∀ f ∈ fields, Blind f.read) {values : List Json}
    {items : List (Option Fault × Node)} (hh : HoldsItems values items) {a b : α} {i : Nat}
    (ha : r.readItems .plain size a i fields (Node.ofItems values) = .ok b) :
    r.readItems ⟨before, none, .closed after⟩ total a i fields items = .ok b := by
  induction fields generalizing values items a i with
  | nil =>
    cases hh with
    | nil => exact ha
    | cons _ _ => cases ha
  | cons f fields ih =>
    obtain ⟨hf, hfields⟩ := List.forall_mem_cons.mp hr
    cases hh with
    | nil =>
      simp only [Node.ofItems, readItems, bind, Except.bind, Frame.finish, Frame.plain] at ha ⊢
      split at ha
      · rw [if_pos ‹_›]
        exact ih hfields .nil ha
      · cases ha
    | @cons _ v _ rest _ hv hs =>
      simp only [Node.ofItems, readItems, bind, Except.bind] at ha ⊢
      cases hset : f.read (.ofJson v) with
      | error fault => simp [hset] at ha
      | ok set =>
        simp only [hset] at ha
        simp only [hf hv hset]
        exact ih hfields hs ha

/-- **Records.** What a record makes of a value, it makes of every node that holds it. -/
theorem blind_decode (hr : ∀ f ∈ r.fields, Blind f.read) : Blind r.decode := by
  intro v node a hh ha
  cases hh with
  | @object _ _ fields _ hs =>
    simp only [Node.ofJson, decode, Frame.enter, Frame.plain, Frame.finish, bind, Except.bind]
      at ha ⊢
    cases he : r.readEntries [] r.start (Node.ofFields fields) with
    | error f => simp [he] at ha
    | ok read =>
      simp only [he] at ha
      simp only [readEntries_of_holds hr hs he]
      cases hm : firstMissing read.1 0 r.fields with
      | some name => simp [hm] at ha
      | none => simpa only [hm] using ha
  | array hs =>
    simp only [Node.ofJson, decode, Frame.enter, Frame.plain, bind, Except.bind] at ha ⊢
    exact readItems_of_holds hr hs ha
  | null => cases ha
  | bool b => cases ha
  | number x => cases ha
  | string s => cases ha

theorem blind_field {decode : Decoder β} (h : Blind decode) (name : String) (presence : Presence)
    (set : β → α → α) : Blind (Field.of name presence decode set).read :=
  Decoder.blind_map h set

end Record

end StepPipeline.Document

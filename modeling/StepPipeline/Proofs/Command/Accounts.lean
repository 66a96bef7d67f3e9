import StepPipeline.Proofs.Command.HaltedRuns
import StepPipeline.Proofs.Command.Printing
import Mathlib.Data.List.Induction

/-!
# What an envelope tells

A failure is printed in an envelope, from which fields are left out that say nothing. Still the
envelope tells everything: what is read from its text gives back the code, the message, the details,
the hints in order and whether a retry can help.

**Accounts (`Built`).** Those of the named causes, and any others whose details a reader gets back,
each after any number of operations and hints.

**Documents (`Tells`).** What a document has to hold to tell of an account.

**Results.**
* `Cause.canonical_details`: the details of a named cause are read as they are written.
* `Built.readable`: so are those of every account.
* `built_of_readable`: and every failure whose details are read so has such an account.
* `tells_envelope`: the envelope as data tells of its account.
* `Tells.unique`: no document tells of two accounts.
* `envelope_lossless`: from every layout of an envelope its account is read, and no other.
-/
namespace StepPipeline

open Json (within_object within_bool)

/-! ## Details -/

/-- The parts of a cause are sorted by name, whichever of them are there. -/
theorem Cause.sorted_details {c : Cause} (hn : c.Named) {fields : Fields}
    (h : c.details = .object fields) : fields.sorted = fields := by
  cases c with
  | other => exact hn.elim
  | invalidArgument field problem id tried =>
    cases h
    cases id <;> cases tried <;> rfl
  | invalidValue key value problem =>
    cases h
    cases value <;> rfl
  | typeMismatch aliasName field expected found =>
    cases h
    cases field <;> rfl
  | gitFailed operation path error =>
    cases h
    cases path <;> rfl
  | io error during | json error during =>
    cases h
    cases during <;> rfl
  | _ =>
    cases h
    rfl

theorem Cause.canonical_of_mem_details {c : Cause} (hn : c.Named) {fields : Fields}
    (h : c.details = .object fields) : ∀ f ∈ fields, f.2.canonical = f.2 := by
  have htext (s : String) : (Json.string s).canonical = .string s := rfl
  have hoptional (key : String) (text : Option String) :
      ∀ f ∈ Json.optional key (text.map .string), f.2.canonical = f.2 := by
    cases text <;> simp [Json.optional, htext]
  have htried (tried : Option (List String)) :
      ∀ f ∈ Json.optional "tried" (tried.map .strings), f.2.canonical = f.2 := by
    cases tried <;> simp [Json.optional, Json.canonical_strings]
  have hviolations (violations : List Violation) :
      (Json.array (violations.map Violation.toJson)).canonical =
        .array (violations.map Violation.toJson) :=
    congrArg Json.array (Json.canonicalItems_of_canonical fun v hv => by
      obtain ⟨violation, -, rfl⟩ := List.mem_map.mp hv
      rfl)
  cases c
  case other => exact hn.elim
  all_goals
    cases h
    simp only [List.forall_mem_append, List.forall_mem_cons, List.not_mem_nil, false_implies,
      implies_true, htext, Json.canonical_strings, hviolations, and_true, true_and]
  case invalidArgument => exact ⟨hoptional _ _, htried _⟩
  all_goals exact hoptional _ _

theorem Cause.canonical_details {c : Cause} (hn : c.Named) : c.details.canonical = c.details := by
  obtain ⟨fields, h⟩ : ∃ fields, c.details = .object fields := by
    cases c
    case other => exact hn.elim
    all_goals exact ⟨_, rfl⟩
  rw [h, Json.canonical, Json.canonicalFields_of_canonical (canonical_of_mem_details hn h),
    sorted_details hn h]

/-! ## Accounts -/

namespace Account

/-- The details are data with whole numbers, and a reader goes as deep as they are in an envelope. -/
structure Readable (a : Account) : Prop where
  plain : a.details.Plain
  height : a.details.height + 2 < Json.depthLimit

/-- The accounts that can be made up. -/
inductive Built : Account → Prop where
  | of {c : Cause} (h : c.Named) : Built (Failure.of c).account
  | new (code : Code) (message : String) {details : Json} (hp : details.Plain)
    (hh : details.height + 2 < Json.depthLimit) : Built (new code message details)
  | within {a : Account} (h : Built a) (operation : String) : Built (a.within operation)
  | advise {a : Account} (h : Built a) (hint : String) : Built (a.advise hint)
  | mark {a : Account} (h : Built a) (retryable : Option Bool) : Built (a.mark retryable)

theorem Built.readable {a : Account} (h : a.Built) : a.Readable := by
  induction h with
  | of hn =>
    have hw := Cause.within_details hn
    exact ⟨⟨hw.whole, Cause.canonical_details hn⟩,
      Nat.lt_of_le_of_lt (Nat.add_le_add_right hw.height 2) (by decide)⟩
  | new _ _ hp hh => exact ⟨hp, hh⟩
  | within _ _ ih | advise _ _ ih | mark _ _ ih => exact ⟨ih.plain, ih.height⟩

theorem Readable.within_envelope {a : Account} (h : a.Readable) :
    ∃ n < Json.depthLimit, a.envelope.Within n := by
  have hlimit : Json.depthLimit = 128 := rfl
  -- The hints in it make an envelope four high, whatever the details are.
  obtain ⟨m, hm, hn⟩ : ∃ m, a.details.height ≤ m + 2 ∧ m + 4 < Json.depthLimit :=
    ⟨a.details.height - 2, by omega, by have := h.height; omega⟩
  have hdocument : a.toJson.Within (m + 3) := within_toJson ⟨h.plain.1, hm⟩
  refine ⟨m + 4, hn, within_object ?_⟩
  simp only [List.forall_mem_cons]
  exact ⟨within_bool false, hdocument, nofun⟩

/-! ## Documents -/

/-- The part of a document that tells of an error. -/
def errorField? (doc : Json) (key : String) : Option Json :=
  (doc.field? "error").bind (·.field? key)

/-- The text of a hint. -/
def hintText? (hint : Json) : Option String :=
  match hint.field? "message" with
  | some (.string text) => some text
  | _ => none

/-- The hints in a list, which are none if there is no list. -/
def listedHints : Option Json → Option (List String)
  | none => some []
  | some (.array hints) => hints.mapM hintText?
  | some _ => none

/-- The document tells of the account. -/
structure Tells (a : Account) (doc : Json) : Prop where
  success : doc.field? "success" = some (.bool false)
  data : doc.field? "data" = none
  code : ∃ name, errorField? doc "code" = some (.string name) ∧ Code.ofName? name = some a.code
  message : errorField? doc "message" = some (.string a.message)
  details : errorField? doc "details" = some a.details
  hints : listedHints (errorField? doc "hints") = some a.hints
  retryable : errorField? doc "retryable" = a.retryable.map .bool

/-- A document tells of one account at most. -/
theorem Tells.unique {doc : Json} {a b : Account} (ha : a.Tells doc) (hb : b.Tells doc) :
    a = b := by
  obtain ⟨name, hname, hcode⟩ := ha.code
  obtain ⟨name', hname', hcode'⟩ := hb.code
  rw [hname, Option.some.injEq, Json.string.injEq] at hname'
  have hc : a.code = b.code := by
    rw [← hname', hcode, Option.some.injEq] at hcode'
    exact hcode'
  have hm : a.message = b.message := by
    have h := ha.message.symm.trans hb.message
    rwa [Option.some.injEq, Json.string.injEq] at h
  have hd : a.details = b.details := Option.some.inj (ha.details.symm.trans hb.details)
  have hh : a.hints = b.hints := Option.some.inj (ha.hints.symm.trans hb.hints)
  have hr : a.retryable = b.retryable :=
    Option.map_injective (fun _ _ => Json.bool.inj) (ha.retryable.symm.trans hb.retryable)
  exact Account.ext hc hm hd hh hr

theorem listedHints_map (hints : List String) :
    listedHints (some (.array (hints.map .hint))) = some hints := by
  unfold listedHints
  induction hints with
  | nil => rfl
  | cons hint rest ih =>
    have htext : hintText? (.hint hint) = some hint := rfl
    simp only [List.map_cons, List.mapM_cons, htext, ih]
    rfl

/-- The document of an account as data: its fields sorted, and the details and hints as they are. -/
theorem canonical_toJson {a : Account} (h : a.details.canonical = a.details) :
    a.toJson.canonical = .object ([("code", .string a.code.name), ("details", a.details)]
      ++ Json.unlessEmpty "hints" (a.hints.map .hint) ++ [("message", .string a.message)]
      ++ Json.optional "retryable" (a.retryable.map .bool)) := by
  have hhints : Json.canonicalItems (a.hints.map .hint) = a.hints.map .hint :=
    Json.canonicalItems_of_canonical fun v hv => by
      obtain ⟨message, -, rfl⟩ := List.mem_map.mp hv
      rfl
  have hsorted : a.toJson.canonical =
      .object ([("code", .string a.code.name), ("details", a.details.canonical)]
        ++ Json.unlessEmpty "hints" (Json.canonicalItems (a.hints.map .hint))
        ++ [("message", .string a.message)]
        ++ Json.optional "retryable" (a.retryable.map .bool)) := by
    unfold toJson
    cases a.hints <;> cases a.retryable <;> rfl
  rw [hsorted, h, hhints]

/-- The envelope as data tells of the account. -/
theorem tells_envelope {a : Account} (h : a.details.canonical = a.details) :
    a.Tells a.envelope.canonical := by
  have herror (key : String) :
      errorField? a.envelope.canonical key = a.toJson.canonical.field? key := rfl
  refine ⟨rfl, rfl, ⟨a.code.name, ?_, a.code.ofName?_name⟩, ?_, ?_, ?_, ?_⟩ <;>
    rw [herror, canonical_toJson h]
  · rfl
  · cases a.hints <;> rfl
  · rfl
  · rw [← listedHints_map a.hints]
    cases a.hints <;> cases a.retryable <;> rfl
  · cases a.hints <;> cases a.retryable <;> rfl

/-- What is read from a layout of an envelope tells of its account. -/
theorem Readable.parse {a : Account} (h : a.Readable) {text : String}
    (htext : a.envelope.LaidOut text) : ∃ doc, Json.parse text = .ok doc ∧ a.Tells doc := by
  obtain ⟨n, hn, hwithin⟩ := h.within_envelope
  exact ⟨_, Json.parse_laidOut htext hwithin.whole (Nat.lt_of_le_of_lt hwithin.height hn),
    tells_envelope h.plain.2⟩

/-- Accounts that have a layout in common are the same. -/
theorem Readable.unique {a b : Account} (ha : a.Readable) (hb : b.Readable) {text : String}
    (hat : a.envelope.LaidOut text) (hbt : b.envelope.LaidOut text) : a = b := by
  obtain ⟨doc, hdoc, hta⟩ := ha.parse hat
  obtain ⟨doc', hdoc', htb⟩ := hb.parse hbt
  rw [hdoc] at hdoc'
  cases hdoc'
  exact hta.unique htb

/-- Hints are given one behind the other. -/
theorem Built.advised {a : Account} (h : a.Built) (hints : List String) :
    Built { a with hints := a.hints ++ hints } := by
  induction hints using List.reverseRec with
  | nil => rwa [List.append_nil]
  | append_singleton hints hint ih => rw [← List.append_assoc]; exact ih.advise hint

/-- The account of a failure is that of its cause, after its operations and its hints. -/
theorem built_failure {f : Failure} (h : (Failure.of f.cause).account.Built) :
    f.account.Built := by
  obtain ⟨cause, during, advice⟩ := f
  induction during with
  | nil =>
    have haccount : Failure.account ⟨cause, [], advice⟩ =
        { (Failure.of cause).account with hints := (cause.hints ++ []) ++ advice } :=
      Account.ext rfl rfl rfl (congrArg (· ++ advice) (List.append_nil _).symm) rfl
    rw [haccount]
    exact h.advised advice
  | cons operation during ih => exact (ih h).within operation

theorem built_of_named {f : Failure} (h : f.cause.Named) : f.account.Built :=
  built_failure (.of h)

/-- A cause without a name is made up of what is told of it. -/
theorem built_of_readable {f : Failure} (h : f.account.Readable) : f.account.Built := by
  refine built_failure ?_
  cases hcause : f.cause with
  | other code message details hints retryable =>
    have hdetails : f.account.details = details := by
      show f.cause.details = details
      rw [hcause]
      rfl
    obtain ⟨hp, hh⟩ := h
    rw [hdetails] at hp hh
    have haccount : (Failure.of (.other code message details hints retryable)).account =
        ({ new code message details with hints := [] ++ hints }).mark retryable :=
      Account.ext rfl rfl rfl (List.append_nil hints) rfl
    rw [haccount]
    exact ((Built.new code message hp hh).advised hints).mark retryable
  | _ => exact .of (by trivial)

end Account

/-- **Envelopes.** A command that ends with a failure prints a layout of its envelope; and the account
of a failure is one of those that can be made up, if its cause has a name, and otherwise if a reader
gets the details back. Take any account that can be made up: of a named cause, or of a code, a
message and such details, after any operations and hints, and with anything known about a retry.

* Both its texts are layouts of the envelope.
* Whatever layout is read, the document has no data and says that there was no success; its code is
  that of the account by name, and its message, its details, its hints in their order and what it says
  about a retry are those of the account.
* No other account has a layout in common with it. -/
theorem envelope_lossless (writeReport : RunReport → Json) :
    (∀ f : Failure, (f.cause.Named → f.account.Built) ∧ (f.account.Readable → f.account.Built) ∧
      f.account.envelope.LaidOut (Command.display writeReport (.error f)).stdout) ∧
    ∀ a : Account, a.Built →
      a.envelope.LaidOut a.envelope.compact ∧ a.envelope.LaidOut a.envelope.pretty ∧
      ∀ text, a.envelope.LaidOut text →
        (∃ doc, Json.parse text = .ok doc ∧ a.Tells doc) ∧
        ∀ b : Account, b.Built → b.envelope.LaidOut text → a = b := by
  refine ⟨fun f => ⟨Account.built_of_named, Account.built_of_readable,
    Command.laidOut_display (.error f)⟩, fun a ha => ⟨Json.laidOut_compact _,
    Json.laidOut_pretty _, fun text htext => ⟨?_, fun b hb hbt => ?_⟩⟩⟩
  · exact ha.readable.parse htext
  · exact ha.readable.unique hb.readable htext hbt

/-- An account that no cause gives, with details inside each other. -/
def fullDisk : Account :=
  .new .ioError "no \"room\"\n" (.object [("disk", .object [("free", .int (-1))]), ("tried", .null)])

theorem built_fullDisk : fullDisk.Built := by
  have hcount : (Number.whole (-1)).InRange := by decide
  exact .new _ _ ⟨⟨⟨⟨-1, rfl, hcount⟩, trivial⟩, trivial, trivial⟩, rfl⟩ (by decide)

/-- Operations and hints are read back in their order, and a hint without a text is not the same as
none. -/
theorem envelope_lossless_fullDisk :
    (∃ doc, Json.parse
        (((fullDisk.advise "wait").within "copy").advise "tidy up").envelope.pretty = .ok doc ∧
      doc.field? "data" = none ∧
      Account.errorField? doc "message" = some (.string "copy: no \"room\"\n") ∧
      Account.errorField? doc "details" = some fullDisk.details ∧
      Account.listedHints (Account.errorField? doc "hints") = some ["wait", "tidy up"] ∧
      Account.errorField? doc "retryable" = none) ∧
    (fullDisk.advise "").envelope.compact ≠ fullDisk.envelope.compact := by
  obtain ⟨-, hlossless⟩ := envelope_lossless RunReport.toJson
  constructor
  · obtain ⟨-, hpretty, hread⟩ := hlossless _ (((built_fullDisk.advise "wait").within "copy").advise
      "tidy up")
    obtain ⟨⟨doc, hdoc, htells⟩, -⟩ := hread _ hpretty
    exact ⟨doc, hdoc, htells.data, htells.message, htells.details, htells.hints, htells.retryable⟩
  · intro htext
    obtain ⟨hcompact, -, hread⟩ := hlossless _ (built_fullDisk.advise "")
    obtain ⟨hbare, -, -⟩ := hlossless _ built_fullDisk
    rw [← htext] at hbare
    have hsame := (hread _ hcompact).2 _ built_fullDisk hbare
    have hhints : [""] = [] := congrArg Account.hints hsame
    cases hhints

end StepPipeline

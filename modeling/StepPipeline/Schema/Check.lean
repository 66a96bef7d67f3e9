import StepPipeline.Failure.Basic
import StepPipeline.Json.Printer
import StepPipeline.Schema.Basic
import StepPipeline.Schema.Email

/-!
# Checking values against schemas

`Schema.violations` lists every place where a value breaks a rule, with a pointer to the place: rule
by rule, and inside a rule in the order of the properties or items.
-/
namespace StepPipeline

/-- A step of a pointer, with `~` and `/` escaped. -/
def pointerToken (name : String) : String :=
  String.ofList ('/' :: name.toList.flatMap fun c =>
    if c = '~' then ['~', '0'] else if c = '/' then ['~', '1'] else [c])

namespace Rule

/-- `one` or `many`, after the count. -/
def plural (n : Nat) (one many : String) : String :=
  toString n ++ " " ++ (if n = 1 then one else many)

def quoted (s : String) : String := (Json.string s).compact

def kindsMessage (value : Json) : List ValueKind → String
  | [kind] => value.compact ++ " is not of type " ++ quoted kind.name
  | allowed =>
    value.compact ++ " is not of types " ++ ", ".intercalate (allowed.map fun k => quoted k.name)

def unexpectedMessage (names : List String) : String :=
  "Additional properties are not allowed ("
    ++ ", ".intercalate (names.map fun name => "'" ++ name ++ "'")
    ++ (if names.length = 1 then " was unexpected)" else " were unexpected)")

/-- What is wrong with a value under a rule without schemas inside. -/
def problems (rule : Rule) (value : Json) : List String :=
  match rule, value with
  | never, value => ["False schema does not allow " ++ value.compact]
  | kinds allowed, value =>
    if allowed.any (·.admits value) then [] else [kindsMessage value allowed]
  | equal expected, value =>
    let met := match expected, value with
      | .number a, .number b => a.close b
      | _, _ => expected.same value
    if met then [] else [expected.compact ++ " was expected"]
  | oneOf options, value =>
    if options.any (·.same value) then []
    else [value.compact ++ " is not one of " ++ (Json.array options).compact]
  | minLength least, .string s =>
    if least ≤ s.length then []
    else [quoted s ++ " is shorter than " ++ plural least "character" "characters"]
  | maxLength greatest, .string s =>
    if s.length ≤ greatest then []
    else [quoted s ++ " is longer than " ++ plural greatest "character" "characters"]
  | minItems least, .array elements =>
    if least ≤ elements.length then []
    else [(Json.array elements).compact ++ " has less than " ++ plural least "item" "items"]
  | maxItems greatest, .array elements =>
    if elements.length ≤ greatest then []
    else [(Json.array elements).compact ++ " has more than " ++ plural greatest "item" "items"]
  | minimum least, .number n =>
    if n.lessThan least then
      [(Json.number n).compact ++ " is less than the minimum of " ++ (Json.number least).compact]
    else []
  | maximum greatest, .number n =>
    if greatest.lessThan n then
      [(Json.number n).compact ++ " is greater than the maximum of "
        ++ (Json.number greatest).compact]
    else []
  | email, .string s =>
    if Email.isAddress s.toList then [] else [quoted s ++ " is not a \"email\""]
  | noProperties, .object ((_, first) :: _) =>
    ["False schema does not allow " ++ first.compact]
  | required names, .object fields =>
    (names.filter fun name => (fields.lookup name).isNone).map fun name =>
      quoted name ++ " is a required property"
  | _, _ => []

end Rule

namespace Schema

mutual

def violations (path : String) (value : Json) : Schema → List Violation
  | [] => []
  | rule :: rest => ruleViolations path value rule ++ violations path value rest

def ruleViolations (path : String) (value : Json) : Rule → List Violation
  | .items schema =>
    match value with
    | .array items =>
      (items.mapIdx fun i item => (i, item)).flatMap fun (i, item) =>
        violations (path ++ "/" ++ toString i) item schema
    | _ => []
  | .properties known =>
    match value with
    | .object fields => knownViolations path fields known
    | _ => []
  | .members known none =>
    match value with
    | .object fields =>
      let unexpected := (fields.map (·.1)).filter fun name => (known.lookup name).isNone
      (fields.flatMap fun (name, v) =>
        (memberViolations (path ++ pointerToken name) name v known).getD [])
        ++ (if unexpected.isEmpty then [] else [⟨path, Rule.unexpectedMessage unexpected⟩])
    | _ => []
  | .members known (some others) =>
    match value with
    | .object fields =>
      fields.flatMap fun (name, v) =>
        (memberViolations (path ++ pointerToken name) name v known).getD
          (violations (path ++ pointerToken name) v others)
    | _ => []
  | rule => (rule.problems value).map fun problem => ⟨path, problem⟩

/-- The violations in the known properties, in their order. -/
def knownViolations (path : String) (fields : Fields) :
    List (String × List Rule) → List Violation
  | [] => []
  | (name, schema) :: rest =>
    (match fields.lookup name with
      | some v => violations (path ++ pointerToken name) v schema
      | none => []) ++ knownViolations path fields rest

/-- The violations of a property at `path`, if it is a known one. -/
def memberViolations (path name : String) (value : Json) :
    List (String × List Rule) → Option (List Violation)
  | [] => none
  | (known, schema) :: rest =>
    if name = known then some (violations path value schema)
    else memberViolations path name value rest

end

end Schema

/-- What is asked of a configuration: the places that are not allowed, of which there is none if it
is valid. -/
abbrev Validator := Json → List Violation

namespace Schema

def validator (schema : Schema) : Validator := fun config => violations "" config schema

/-- Fails if the configuration of a step is not valid for its type. -/
def validate (validator : Validator) (stepType : String) (config : Json) : Except Failure Unit :=
  match validator config with
  | [] => .ok ()
  | found => .error (.of (.schemaViolation stepType found))

end Schema
end StepPipeline

import StepPipeline.Json.Basic

/-!
# Schemas

A schema is a list of rules for a value; a value must meet all of them. Schemas are read from
documents keyword by keyword, in the sorted order of the keywords, which is the order in which
violations are reported.
-/
namespace StepPipeline

/-- The kinds of values, in the order of their names. -/
inductive ValueKind where
  | array
  | boolean
  | integer
  | null
  | number
  | object
  | string
  deriving DecidableEq, Repr

namespace ValueKind

def all : List ValueKind := [array, boolean, integer, null, number, object, string]

def name : ValueKind → String
  | array => "array"
  | boolean => "boolean"
  | integer => "integer"
  | null => "null"
  | number => "number"
  | object => "object"
  | string => "string"

def ofName? (name : String) : Option ValueKind :=
  all.find? fun kind => kind.name = name

/-- Whether a value is of a kind; a whole number is an integer however it is written. -/
def admits : ValueKind → Json → Bool
  | array, .array _ => true
  | boolean, .bool _ => true
  | integer, .number n => n.isWhole
  | null, .null => true
  | number, .number _ => true
  | object, .object _ => true
  | string, .string _ => true
  | _, _ => false

end ValueKind

inductive Rule where
  /-- No value is allowed. -/
  | never
  /-- One of the kinds, sorted. -/
  | kinds (allowed : List ValueKind)
  | equal (expected : Json)
  | oneOf (options : List Json)
  | minLength (least : Nat)
  | maxLength (greatest : Nat)
  | minItems (least : Nat)
  | maxItems (greatest : Nat)
  | minimum (least : Number)
  | maximum (greatest : Number)
  /-- A text that is an e-mail address. -/
  | email
  /-- A schema for every item of an array. -/
  | items (schema : List Rule)
  /-- Schemas for some properties of an object. -/
  | properties (known : List (String × List Rule))
  /-- Schemas for the known properties of an object and, if others are allowed, for those. -/
  | members (known : List (String × List Rule)) (others : Option (List Rule))
  /-- An object must have no property. -/
  | noProperties
  | required (names : List String)

abbrev Schema := List Rule

namespace Schema

def texts : List Json → List String
  | [] => []
  | .string s :: rest => s :: texts rest
  | _ :: rest => texts rest

/-- The kinds that `type` names, sorted. -/
def kindsOf : Json → List ValueKind
  | .string s => (ValueKind.ofName? s).toList
  | .array names =>
    ValueKind.all.filter fun kind => (texts names).contains kind.name
  | _ => []

/-- A rule with a count, if the value is one. -/
def counted (rule : Nat → Rule) : Json → List Rule
  | .number n => (n.toNat?.map rule).toList
  | _ => []

/-- A rule with a bound, if the value is one. -/
def bounded (rule : Number → Rule) : Json → List Rule
  | .number n => [rule n]
  | _ => []

/-- The rules of the keywords without schemas inside. Annotations and unknown keywords have none. -/
def plainRules (keyword : String) (value : Json) : List Rule :=
  match keyword with
  | "const" => [.equal value]
  | "enum" => match value with | .array options => [.oneOf options] | _ => []
  | "format" => match value with | .string "email" => [.email] | _ => []
  | "maxItems" => counted .maxItems value
  | "maxLength" => counted .maxLength value
  | "maximum" => bounded .maximum value
  | "minItems" => counted .minItems value
  | "minLength" => counted .minLength value
  | "minimum" => bounded .minimum value
  | "required" => match value with | .array names => [.required (texts names)] | _ => []
  | "type" => [.kinds (kindsOf value)]
  | _ => []

mutual

/-- The schema that a document writes. Where other properties than the known ones are ruled on, that
rule covers the known ones too. -/
def ofJson : Json → Schema
  | .bool false => [.never]
  | .object fields => rules (knownOf fields) (fields.lookup "additionalProperties") fields
  | _ => []

/-- The rules of the keywords, given the known properties and the ruling on others. -/
def rules (known : Option (List (String × Schema))) (others : Option Json) :
    List (String × Json) → List Rule
  | [] => []
  | (keyword, value) :: rest =>
    let here : List Rule :=
      if keyword = "additionalProperties" then
        match value, known with
        | .bool true, _ => []
        | .bool false, some known => [.members known none]
        | .bool false, none => [.noProperties]
        | value, known => [.members (known.getD []) (some (ofJson value))]
      else if keyword = "items" then [.items (ofJson value)]
      else if keyword = "properties" then
        match others with
        | some (.bool false) | some (.object _) => []
        | _ => [.properties (propertiesOf value)]
      else plainRules keyword value
    here ++ rules known others rest

/-- The properties that the keyword `properties` lists, if it is there. -/
def knownOf : List (String × Json) → Option (List (String × Schema))
  | [] => none
  | (keyword, value) :: rest =>
    if keyword = "properties" then some (propertiesOf value) else knownOf rest

def propertiesOf : Json → List (String × Schema)
  | .object fields => schemasOf fields
  | _ => []

def schemasOf : List (String × Json) → List (String × Schema)
  | [] => []
  | (name, value) :: rest => (name, ofJson value) :: schemasOf rest

end

end Schema
end StepPipeline

import StepPipeline.Schema.Check

/-!
# Reading schema documents

A document is a schema if its keywords have values of the right form. Schemas inside are examined
before the keywords beside them, and the first fault is reported.

The keywords here are those that the program's own documents use. What is made of a document is
otherwise left open: whoever registers a runner may read its document with more of them.
-/
namespace StepPipeline

namespace Schema

/-- The first of two faults. -/
def firstFault (a : Option String) (b : Unit → Option String) : Option String :=
  match a with
  | some fault => some fault
  | none => b ()

def kindFault (kind : ValueKind) (value : Json) : Option String :=
  if kind.admits value then none else some (Rule.kindsMessage value [kind])

/-- A count is a whole number, and not negative. -/
def countFault (value : Json) : Option String :=
  firstFault ((Rule.problems (.minimum (.whole 0)) value).head?) fun _ => kindFault .integer value

def hasRepeated : List Json → Bool
  | [] => false
  | v :: rest => rest.any (v.same ·) || hasRepeated rest

/-- A list of distinct texts. -/
def namesFault (value : Json) : Option String :=
  match value with
  | .array names =>
    firstFault (names.findSome? (kindFault .string)) fun _ =>
      if hasRepeated names then some (value.compact ++ " has non-unique elements") else none
  | _ => kindFault .array value

/-- The name of a kind, or a list of such names that is neither empty nor repeats one. -/
def typeFault (value : Json) : Option String :=
  let isKind : Json → Bool
    | .string s => (ValueKind.ofName? s).isSome
    | _ => false
  let met := match value with
    | .array names => !names.isEmpty && names.all isKind && !hasRepeated names
    | value => isKind value
  if met then none
  else some
    (value.compact ++ " is not valid under any of the schemas listed in the 'anyOf' keyword")

/-- The keywords without schemas inside, in the order in which they are examined, and what each
demands. -/
def demands : List (String × (Json → Option String)) := [
  ("$comment", kindFault .string), ("$id", kindFault .string), ("$schema", kindFault .string),
  ("enum", kindFault .array), ("maxItems", countFault), ("maxLength", countFault),
  ("maximum", kindFault .number), ("minItems", countFault), ("minLength", countFault),
  ("minimum", kindFault .number), ("required", namesFault), ("type", typeFault),
  ("deprecated", kindFault .boolean), ("description", kindFault .string),
  ("examples", kindFault .array), ("readOnly", kindFault .boolean), ("title", kindFault .string),
  ("writeOnly", kindFault .boolean), ("format", kindFault .string)]

def demandFault (fields : Fields) : Option String :=
  demands.findSome? fun (keyword, demand) => (fields.lookup keyword).bind demand

mutual

/-- The first fault of a document that should be a schema. -/
def fault? : Json → Option String
  | .bool _ => none
  | .object fields =>
    firstFault (innerFault "additionalProperties" fields) fun _ =>
    firstFault (innerFault "items" fields) fun _ =>
    firstFault (propertiesFault fields) fun _ =>
    demandFault fields
  | value => some (Rule.kindsMessage value [.boolean, .object])

/-- The first fault of the schema that a keyword holds. -/
def innerFault (wanted : String) : List (String × Json) → Option String
  | [] => none
  | (keyword, value) :: rest => if keyword = wanted then fault? value else innerFault wanted rest

def propertiesFault : List (String × Json) → Option String
  | [] => none
  | (keyword, value) :: rest =>
    if keyword = "properties" then
      match value with
      | .object fields => membersFault fields
      | other => kindFault .object other
    else propertiesFault rest

def membersFault : List (String × Json) → Option String
  | [] => none
  | (_, value) :: rest => firstFault (fault? value) fun _ => membersFault rest

end

end Schema

/-- What documents are read as: what their schemas ask for, or a problem with the document. -/
abbrev Reading := Json → Except String Validator

namespace Reading

/-- The reading by the keywords above. -/
def own : Reading := fun document =>
  match Schema.fault? document with
  | some problem => .error problem
  | none => .ok (Schema.ofJson document).validator

/-- What the document of a step type asks for. -/
def compile (read : Reading) (stepType : String) (document : Json) : Except Failure Validator :=
  (read document).mapError fun problem =>
    .of (.invalidValue ("steps." ++ stepType ++ ".schema") none
      ("invalid JSON schema for step type '" ++ stepType ++ "': " ++ problem))

end Reading

/-- What the document of a step type asks for, by the keywords above. -/
def Schema.compile (stepType : String) (document : Json) : Except Failure Validator :=
  Reading.own.compile stepType document

end StepPipeline

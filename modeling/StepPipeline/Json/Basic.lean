import StepPipeline.Number.Basic

/-!
# JSON values

An object is a list of fields in the order in which it is written. A value that has been read as
data is canonical: its fields are sorted by key, each key once. `canonical` brings any value into
that form; of fields with one key the last counts.
-/
namespace StepPipeline

inductive Json where
  | null
  | bool (b : Bool)
  | number (n : Number)
  | string (s : String)
  | array (items : List Json)
  | object (fields : List (String × Json))
  deriving Repr, Inhabited, BEq

/-- The fields of an object. -/
abbrev Fields := List (String × Json)

namespace Fields

def get? (fields : Fields) (key : String) : Option Json :=
  fields.lookup key

/-- Puts a field into its sorted place; a field with the same key gives way. -/
def insert (key : String) (value : Json) : Fields → Fields
  | [] => [(key, value)]
  | (k, v) :: rest =>
    if key < k then (key, value) :: (k, v) :: rest
    else if key = k then (key, value) :: rest
    else (k, v) :: insert key value rest

/-- Puts a field in the place of the field with its key, or behind all others. -/
def put (key : String) (value : Json) : Fields → Fields
  | [] => [(key, value)]
  | (k, v) :: rest => if key = k then (key, value) :: rest else (k, v) :: put key value rest

/-- The fields in order of their keys, the last of each key. -/
def sorted (fields : Fields) : Fields :=
  fields.foldl (fun acc (k, v) => insert k v acc) []

end Fields

namespace Json

mutual

/-- The value with the fields of every object sorted, each key once. -/
def canonical : Json → Json
  | array items => array (canonicalItems items)
  | object fields => object (Fields.sorted (canonicalFields fields))
  | null => null
  | bool b => bool b
  | number n => number n
  | string s => string s

def canonicalItems : List Json → List Json
  | [] => []
  | v :: rest => canonical v :: canonicalItems rest

def canonicalFields : List (String × Json) → List (String × Json)
  | [] => []
  | (k, v) :: rest => (k, canonical v) :: canonicalFields rest

end

/-- The field `key` of an object. -/
def field? : Json → String → Option Json
  | object fields, key => Fields.get? fields key
  | _, _ => none

def int (n : Int) : Json :=
  number (.whole n)

def nat (n : Nat) : Json :=
  number (.whole n)

def strings (items : List String) : Json :=
  array (items.map string)

def ofOption : Option String → Json
  | some s => string s
  | none => null

/-- A field that is left out when there is no value. -/
def optional (key : String) : Option Json → Fields
  | some v => [(key, v)]
  | none => []

/-- A field with a list that is left out when it is empty. -/
def unlessEmpty (key : String) : List Json → Fields
  | [] => []
  | items => [(key, array items)]

mutual

/-- Equality of values: numbers by value, objects regardless of the order of their fields. -/
def same : Json → Json → Bool
  | null, null => true
  | bool a, bool b => a = b
  | number a, number b => a.same b
  | string a, string b => a = b
  | array a, array b => sameItems a b
  | object a, object b => a.length = b.length && sameFields a b
  | _, _ => false

def sameItems : List Json → List Json → Bool
  | [], [] => true
  | a :: as, b :: bs => same a b && sameItems as bs
  | _, _ => false

def sameFields : List (String × Json) → List (String × Json) → Bool
  | [], _ => true
  | (k, a) :: as, bs =>
    (match bs.lookup k with
      | some b => same a b
      | none => false) && sameFields as bs

end

end Json
end StepPipeline

import StepPipeline.Number.Display
import StepPipeline.Text.Printable

/-!
# Faults of a document

A fault is the first thing that keeps a document from being read, or from being decoded into the
type that is asked for. It has a cause, and a position if the document was a text.
-/
namespace StepPipeline.Document

/-- A place in a text: the line, counted from one, and the octets before the place on that line. -/
structure Position where
  line : Nat
  column : Nat
  deriving DecidableEq, Repr, Inhabited

namespace Position

def start : Position := ⟨1, 0⟩

/-- The place after `c`. -/
def after (p : Position) (c : Char) : Position :=
  if c = '\n' then ⟨p.line + 1, 0⟩ else ⟨p.line, p.column + c.utf8Size⟩

/-- The place after the first octet of `c`. -/
def into (p : Position) (c : Char) : Position :=
  if c = '\n' then ⟨p.line + 1, 0⟩ else ⟨p.line, p.column + 1⟩

def afterAll (p : Position) (cs : List Char) : Position :=
  cs.foldl after p

end Position

/-- A value without parts. -/
inductive Scalar where
  | null
  | bool (b : Bool)
  | number (n : Number)
  | text (s : String)
  deriving DecidableEq, Repr, Inhabited

/-- The kind of value that stands where another was expected. -/
inductive Found where
  | scalar (s : Scalar)
  | sequence
  | map
  deriving DecidableEq, Repr

def Found.describe : Found → String
  | scalar .null => "null"
  | scalar (.bool b) => "boolean `" ++ (if b then "true" else "false") ++ "`"
  | scalar (.number (.whole n)) => "integer `" ++ String.ofList (writeInt n) ++ "`"
  | scalar (.number (.double x)) => "floating point `" ++ String.ofList (x.write .document) ++ "`"
  | scalar (.text s) => "string " ++ Text.quote s
  | sequence => "sequence"
  | map => "map"

inductive FaultCause where
  /-- The text ends inside an array, object, string or value. -/
  | unclosedList
  | unclosedObject
  | unclosedString
  | unfinishedValue
  | colonExpected
  | listCommaOrEndExpected
  | objectCommaOrEndExpected
  | wordExpected
  | valueExpected
  | badEscape
  | badNumber
  | numberOutOfRange
  | controlCharacter
  | keyNotString
  | loneSurrogate
  | unpairedSurrogate
  | trailingComma
  | trailingCharacters
  | tooDeep
  /-- A value of another kind than the expected one. -/
  | unexpected (found : Found) (expected : String)
  /-- A value of the right kind outside the accepted range. -/
  | unaccepted (found : Found) (expected : String)
  | badLength (length : Nat) (expected : String)
  | missingField (name : String)
  | duplicateField (name : String)
  | unknownVariant (name : String) (known : List String)
  /-- A text that a type's own notation rejects. -/
  | malformed (problem : String)
  deriving DecidableEq, Repr

/-- The choices named in a message. -/
def choices : List String → String
  | [] => "there are no variants"
  | [a] => "expected `" ++ a ++ "`"
  | [a, b] => "expected `" ++ a ++ "` or `" ++ b ++ "`"
  | names => "expected one of " ++ ", ".intercalate (names.map fun n => "`" ++ n ++ "`")

def FaultCause.describe : FaultCause → String
  | unclosedList => "EOF while parsing a list"
  | unclosedObject => "EOF while parsing an object"
  | unclosedString => "EOF while parsing a string"
  | unfinishedValue => "EOF while parsing a value"
  | colonExpected => "expected `:`"
  | listCommaOrEndExpected => "expected `,` or `]`"
  | objectCommaOrEndExpected => "expected `,` or `\x7d`"
  | wordExpected => "expected ident"
  | valueExpected => "expected value"
  | badEscape => "invalid escape"
  | badNumber => "invalid number"
  | numberOutOfRange => "number out of range"
  | controlCharacter => "control character (\\u0000-\\u001F) found while parsing a string"
  | keyNotString => "key must be a string"
  | loneSurrogate => "lone leading surrogate in hex escape"
  | unpairedSurrogate => "unexpected end of hex escape"
  | trailingComma => "trailing comma"
  | trailingCharacters => "trailing characters"
  | tooDeep => "recursion limit exceeded"
  | unexpected found expected => "invalid type: " ++ found.describe ++ ", expected " ++ expected
  | unaccepted found expected => "invalid value: " ++ found.describe ++ ", expected " ++ expected
  | badLength n expected => "invalid length " ++ toString n ++ ", expected " ++ expected
  | missingField name => "missing field `" ++ name ++ "`"
  | duplicateField name => "duplicate field `" ++ name ++ "`"
  | unknownVariant name known => "unknown variant `" ++ name ++ "`, " ++ choices known
  | malformed problem => problem

structure Fault where
  cause : FaultCause
  position : Option Position
  deriving DecidableEq, Repr

/-- The cause, with the position if there is one. -/
def Fault.message (f : Fault) : String :=
  match f.position with
  | none => f.cause.describe
  | some p => f.cause.describe ++ " at line " ++ toString p.line ++ " column " ++ toString p.column

end StepPipeline.Document

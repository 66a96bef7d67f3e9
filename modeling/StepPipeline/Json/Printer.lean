import StepPipeline.Json.Basic
import StepPipeline.Number.Display
import StepPipeline.Text.Printable

/-!
# JSON text

`compact` writes a value without blanks, `pretty` with one field or item a line. Fields are written
in the order in which the object lists them. Quotes, backslashes and controls are escaped; all
other characters stand for themselves.
-/
namespace StepPipeline.Json

/-- One character as it stands in a JSON string. -/
def escapeChar (c : Char) : List Char :=
  if c = '"' then ['\\', '"']
  else if c = '\\' then ['\\', '\\']
  else if c = '\x08' then ['\\', 'b']
  else if c = '\t' then ['\\', 't']
  else if c = '\n' then ['\\', 'n']
  else if c = '\x0c' then ['\\', 'f']
  else if c = '\r' then ['\\', 'r']
  else if c.toNat < 0x20 then
    ['\\', 'u', '0', '0', Text.hexDigit (c.toNat / 16), Text.hexDigit (c.toNat % 16)]
  else [c]

def writeString (s : String) : List Char :=
  '"' :: s.toList.flatMap escapeChar ++ ['"']

mutual

/-- The value without blanks. -/
def write : Json → List Char
  | null => ['n', 'u', 'l', 'l']
  | bool true => ['t', 'r', 'u', 'e']
  | bool false => ['f', 'a', 'l', 's', 'e']
  | number n => n.write
  | string s => writeString s
  | array items => '[' :: writeItems items ++ [']']
  | object fields => '\x7b' :: writeFields fields ++ ['\x7d']

def writeItems : List Json → List Char
  | [] => []
  | [v] => write v
  | v :: w :: rest => write v ++ ',' :: writeItems (w :: rest)

def writeFields : List (String × Json) → List Char
  | [] => []
  | [(k, v)] => writeString k ++ ':' :: write v
  | (k, v) :: f :: rest => writeString k ++ ':' :: write v ++ ',' :: writeFields (f :: rest)

end

def compact (v : Json) : String :=
  String.ofList v.write

/-- A new line, indented by two blanks a level. -/
def newLine (depth : Nat) : List Char :=
  '\n' :: List.replicate (2 * depth) ' '

mutual

/-- The value over several lines, its own first line at level `depth`. -/
def writePretty (depth : Nat) : Json → List Char
  | null => ['n', 'u', 'l', 'l']
  | bool true => ['t', 'r', 'u', 'e']
  | bool false => ['f', 'a', 'l', 's', 'e']
  | number n => n.write
  | string s => writeString s
  | array [] => ['[', ']']
  | array (v :: rest) =>
    '[' :: newLine (depth + 1) ++ writePretty (depth + 1) v ++ writePrettyItems depth rest
      ++ newLine depth ++ [']']
  | object [] => ['\x7b', '\x7d']
  | object ((k, v) :: rest) =>
    '\x7b' :: newLine (depth + 1) ++ writeString k ++ ':' :: ' ' :: writePretty (depth + 1) v
      ++ writePrettyFields depth rest ++ newLine depth ++ ['\x7d']

def writePrettyItems (depth : Nat) : List Json → List Char
  | [] => []
  | v :: rest =>
    ',' :: newLine (depth + 1) ++ writePretty (depth + 1) v ++ writePrettyItems depth rest

def writePrettyFields (depth : Nat) : List (String × Json) → List Char
  | [] => []
  | (k, v) :: rest =>
    ',' :: newLine (depth + 1) ++ writeString k ++ ':' :: ' ' :: writePretty (depth + 1) v
      ++ writePrettyFields depth rest

end

def pretty (v : Json) : String :=
  String.ofList (v.writePretty 0)

end StepPipeline.Json

import StepPipeline.Text.Blank
import StepPipeline.Text.Utf8

/-!
# E-mail addresses

An address is a local part, `@` and a domain. The local part is a dotted sequence of atoms or a
quoted text; the domain is a host name, or the address of a host between brackets. A display name
may stand before an address between angle brackets.
-/
namespace StepPipeline.Email

def isAsciiLetterOrDigit (c : Char) : Bool :=
  ('a' ≤ c && c ≤ 'z') || ('A' ≤ c && c ≤ 'Z') || ('0' ≤ c && c ≤ '9')

def isNonAscii (c : Char) : Bool :=
  0x80 ≤ c.toNat

/-- The pieces of `text` between the separators. -/
def pieces (separator : Char) : List Char → List (List Char)
  | [] => [[]]
  | c :: rest =>
    if c = separator then [] :: pieces separator rest
    else match pieces separator rest with
      | [] => [[c]]
      | piece :: more => (c :: piece) :: more

/-- The parts before and after the last separator. -/
def splitLast (separator : Char) (text : List Char) : Option (List Char × List Char) :=
  let back := text.reverse
  let after := back.takeWhile (· ≠ separator)
  match back.drop after.length with
  | [] => none
  | _ :: before => some (before.reverse, after.reverse)

/-! ## Hosts -/

/-- A decimal octet without leading zeros. -/
def isOctet (text : List Char) : Bool :=
  match text with
  | [] => false
  | c :: rest =>
    text.all Char.isDigit && text.length ≤ 3 && (c ≠ '0' || rest.isEmpty)
      && text.foldl (fun n c => n * 10 + (c.toNat - 0x30)) 0 ≤ 255

/-- Four octets. -/
def isDotted (text : List Char) : Bool :=
  let octets := pieces '.' text
  octets.length = 4 && octets.all isOctet

/-- One to four hexadecimal digits. -/
def isHexGroup (text : List Char) : Bool :=
  0 < text.length && text.length ≤ 4
    && text.all fun c => c.isDigit || ('a' ≤ c && c ≤ 'f') || ('A' ≤ c && c ≤ 'F')

/-- How many groups of sixteen bits the pieces make up; four octets may stand at the end, for two
groups. -/
def groupCount : List (List Char) → Option Nat
  | [] => some 0
  | [piece] => if isHexGroup piece then some 1 else if isDotted piece then some 2 else none
  | piece :: rest => if isHexGroup piece then (groupCount rest).map (· + 1) else none

def groups (text : List Char) : Option Nat :=
  if text.isEmpty then some 0 else groupCount (pieces ':' text)

/-- The parts before and after the first double colon. -/
def splitGap : List Char → Option (List Char × List Char)
  | ':' :: ':' :: rest => some ([], rest)
  | c :: rest => (splitGap rest).map fun (before, after) => (c :: before, after)
  | [] => none

/-- Eight groups of sixteen bits, or fewer around a double colon. -/
def isGrouped (text : List Char) : Bool :=
  match splitGap text with
  | none => groups text = some 8
  | some (before, after) =>
    match groups before, groups after with
    | some n, some m => n + m ≤ 7 && (before.isEmpty || (pieces ':' before).all isHexGroup)
    | _, _ => false

def isLabel (label : List Char) : Bool :=
  0 < label.length && label.length ≤ 63
    && label.all (fun c => isAsciiLetterOrDigit c || c = '-')
    && label.head? ≠ some '-' && label.getLast? ≠ some '-'

def isHostName (text : List Char) : Bool :=
  text.length ≤ 253 && (pieces '.' text).all isLabel

/-! ## Addresses -/

def isAtomChar (c : Char) : Bool :=
  isAsciiLetterOrDigit c || isNonAscii c || "!#$%&'*+-/=?^_\x60\x7b|\x7d~".toList.contains c

/-- A character that stands for itself in a quoted local part. -/
def isQuotedChar (c : Char) : Bool :=
  c = ' ' || c = '\t' || ('!' ≤ c && c ≤ '~' && c ≠ '"' && c ≠ '\\') || isNonAscii c

def isQuotedText : List Char → Bool
  | [] => true
  | '\\' :: c :: rest => '!' ≤ c && c ≤ '~' && isQuotedText rest
  | c :: rest => isQuotedChar c && isQuotedText rest

def isLocalPart (text : List Char) : Bool :=
  Utf8.size text ≤ 64 &&
    if text.head? = some '"' ∧ text.getLast? = some '"' then
      2 < text.length && isQuotedText (text.drop 1).dropLast
    else (pieces '.' text).all fun atom => !atom.isEmpty && atom.all isAtomChar

def isDomain (text : List Char) : Bool :=
  if text.head? = some '[' ∧ text.getLast? = some ']' then
    match (text.drop 1).dropLast with
    | 'I' :: 'P' :: 'v' :: '6' :: ':' :: address => isGrouped address
    | address => isDotted address
  else isHostName text

/-- The address in a text that may begin with a display name. The last blank before an angle
bracket ends the name. -/
def stripName (text : List Char) : Option (List Char) :=
  match bracket text with
  | none => some text
  | some inside =>
    let inside := Text.trimEnd (Text.trimStart inside)
    if inside.getLast? = some '>' then some inside.dropLast else none
where
  /-- What follows the last bracket that has a blank before it. -/
  bracket : List Char → Option (List Char)
    | ' ' :: '<' :: rest => (bracket rest).or (some rest)
    | _ :: rest => bracket rest
    | [] => none

def isAddress (text : List Char) : Bool :=
  match (stripName text).bind (splitLast '@') with
  | some (localPart, domain) => isLocalPart localPart && isDomain domain
  | none => false

end StepPipeline.Email

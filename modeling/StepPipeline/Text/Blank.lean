import StepPipeline.Text.Utf8

/-!
# Blank characters

The Unicode property White_Space, and the ASCII blanks among octets.
-/
namespace StepPipeline.Text

/-- The code points with the property White_Space. -/
def isBlank (c : Char) : Bool :=
  let n := c.toNat
  (9 ≤ n && n ≤ 13) || n = 0x20 || n = 0x85 || n = 0xA0 || n = 0x1680
    || (0x2000 ≤ n && n ≤ 0x200A) || n = 0x2028 || n = 0x2029 || n = 0x202F || n = 0x205F
    || n = 0x3000

def trimStart (s : List Char) : List Char :=
  s.dropWhile isBlank

def trimEnd (s : List Char) : List Char :=
  (s.reverse.dropWhile isBlank).reverse

/-- The text without the blanks at its two ends. -/
def trim (s : String) : String :=
  String.ofList (trimEnd (trimStart s.toList))

/-- Space, tab, line feed, form feed and carriage return, as octets. -/
def isBlankByte (b : UInt8) : Bool :=
  b = 0x20 || b = 0x09 || b = 0x0A || b = 0x0C || b = 0x0D

end StepPipeline.Text

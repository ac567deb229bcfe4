import ClientGen.Json.Writer

/-
  ClientGen.Go.Literal — string literals of generated Go.

  A literal is written in double quotes. Quotes, backslashes and control characters are escaped,
  everything else stands for itself.
-/

namespace ClientGen.Go

open Json (hexDigit)

/-- The control characters: U+0000 to U+001F and U+007F to U+009F. -/
def isControl (c : Char) : Bool := c.toNat < 0x20 || (0x7F ≤ c.toNat && c.toNat < 0xA0)

/-- Four hex digits; enough for every control character. -/
def hex4 (n : Nat) : List Char :=
  [hexDigit (n / 4096 % 16), hexDigit (n / 256 % 16), hexDigit (n / 16 % 16), hexDigit (n % 16)]

def escape (c : Char) : List Char :=
  if c = '"' then ['\\', '"'] else if c = '\\' then ['\\', '\\'] else if c = '\n' then ['\\', 'n']
  else if c = '\r' then ['\\', 'r'] else if c = '\t' then ['\\', 't']
  else if isControl c then '\\' :: 'u' :: hex4 c.toNat
  else [c]

def literalChars (cs : List Char) : List Char := '"' :: cs.flatMap escape ++ ['"']

def literal (s : String) : String := String.ofList (literalChars s.toList)

end ClientGen.Go

/-
  ClientGen.Unicode.Blank — the property White_Space, and trimming by it.
-/

namespace ClientGen.Unicode

def isBlank (c : Char) : Bool :=
  let n := c.toNat
  (0x9 ≤ n && n ≤ 0xD) || n == 0x20 || n == 0x85 || n == 0xA0 || n == 0x1680 || (0x2000 ≤ n && n ≤ 0x200A) ||
    n == 0x2028 || n == 0x2029 || n == 0x202F || n == 0x205F || n == 0x3000

/-- Drop the longest run of `p` at the end. -/
def dropRight (p : Char → Bool) (cs : List Char) : List Char := (cs.reverse.dropWhile p).reverse

def trimBoth (p : Char → Bool) (cs : List Char) : List Char := dropRight p (cs.dropWhile p)

def trim (s : String) : String := String.ofList (trimBoth isBlank s.toList)

/-- Nothing is left when the text is trimmed. -/
def isBlankText (s : String) : Bool := s.toList.all isBlank

/-- The text without blanks around it, unless nothing is left. -/
def trimmed? (s : Option String) : Option String := (s.map trim).filter (· ≠ "")

end ClientGen.Unicode

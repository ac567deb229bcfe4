import ClientGen.Name.Words

/-
  ClientGen.Name.Identifier — exported identifiers made from free text.

  - A leading `+`, `-` or `@`, which the split into words would drop, is spelled out; a leading
    `$` is dropped.
  - A name that would start with an ASCII digit gets an `N` in front, and one without a usable
    character is `Value`.
-/

namespace ClientGen.Name

/-- The word for a leading sign, and the text after it. -/
def splitSignChars : List Char → List Char × List Char
  | '+' :: rest => (['P', 'l', 'u', 's'], rest)
  | '-' :: rest => (['M', 'i', 'n', 'u', 's'], rest)
  | '@' :: rest => (['A', 't'], rest)
  | '$' :: rest => ([], rest)
  | cs => ([], cs)

def splitSign (s : String) : String × String :=
  let (word, rest) := splitSignChars s.toList
  (String.ofList word, String.ofList rest)

/-- The proper form with a leading sign spelled out; it may be empty. -/
def spelledChars (cs : List Char) : List Char :=
  let (word, rest) := splitSignChars cs
  word ++ properChars rest

def spelled (s : String) : String := String.ofList (spelledChars s.toList)

def identifierChars (cs : List Char) : List Char :=
  match spelledChars cs with
  | [] => ['V', 'a', 'l', 'u', 'e']
  | c :: rest => if c.isDigit then 'N' :: c :: rest else c :: rest

def identifier (s : String) : String := String.ofList (identifierChars s.toList)

def isIdentifierStart (c : Char) : Bool := c.isAlpha || c == '_'

def isIdentifierPart (c : Char) : Bool := c.isAlphanum || c == '_'

/-- ASCII letters, digits and underscores, not starting with a digit. -/
def isIdentifier (s : String) : Bool :=
  match s.toList with
  | [] => false
  | c :: rest => isIdentifierStart c && rest.all isIdentifierPart

/-- The part of a reference after its last slash. -/
def lastSegmentChars (cs : List Char) : List Char := (cs.reverse.takeWhile (· != '/')).reverse

def lastSegment (s : String) : String := String.ofList (lastSegmentChars s.toList)

end ClientGen.Name

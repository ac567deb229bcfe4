import ClientGen.Unicode.CaseMap
import ClientGen.Unicode.Cased
import ClientGen.Unicode.Numeric

/-
  ClientGen.Name.Words — splitting text into words, and the spellings made of them.

  A word is a run of alphanumeric characters, in lower case. A capital starts a new word after
  a small letter or an ASCII digit (`petId`, `v2Beta`), and after a capital when a small letter
  follows (`HTTPResponse`). Everything that is not alphanumeric separates words.
  - `snake` joins the words with underscores, `proper` capitalises each and joins them with
    nothing, `camel` is `proper` with a small first letter.
-/

namespace ClientGen.Name

open Unicode

/-- Whether the capital after `prev` and before `next` starts a new word. -/
def startsWord (prev next : Option Char) : Bool :=
  match prev with
  | none => false
  | some p => isLowercase p || p.isDigit || (isUppercase p && next.any isLowercase)

/-- The word read so far, held in reverse, unless it is empty. -/
def flushWord (current : List Char) : List (List Char) := if current.isEmpty then [] else [current.reverse]

def scanWords (prev : Option Char) (current : List Char) : List Char → List (List Char)
  | [] => flushWord current
  | c :: rest =>
    if isUppercase c then
      if startsWord prev rest.head? then flushWord current ++ scanWords (some c) (toLower c).reverse rest
      else scanWords (some c) ((toLower c).reverse ++ current) rest
    else if isAlphanumeric c then scanWords (some c) (c :: current) rest
    else flushWord current ++ scanWords (some c) [] rest

def words (cs : List Char) : List (List Char) := scanWords none [] cs

def capitalize : List Char → List Char
  | [] => []
  | c :: rest => toUpper c ++ rest

def snakeChars (cs : List Char) : List Char := ['_'].intercalate (words cs)

def properChars (cs : List Char) : List Char := (words cs).flatMap capitalize

def camelChars (cs : List Char) : List Char :=
  match properChars cs with
  | [] => []
  | c :: rest => toLower c ++ rest

def snake (s : String) : String := String.ofList (snakeChars s.toList)

def proper (s : String) : String := String.ofList (properChars s.toList)

def camel (s : String) : String := String.ofList (camelChars s.toList)

end ClientGen.Name

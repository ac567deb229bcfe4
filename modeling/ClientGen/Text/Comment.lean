import ClientGen.Unicode.Blank

/-
  ClientGen.Text.Comment — free text as the lines of a comment.

  Typographic quotes and dashes and the no-break space become ASCII, a tab becomes four spaces,
  the two characters that end a block comment are pulled apart, and blanks at the end of a line
  go. Runs of empty lines become one, and there is none at either end.
-/

namespace ClientGen.Text

/-- The lines of a text. A line ends at a line feed, which may have a carriage return before it;
    an empty piece after the last line feed is no line. `current` is the line so far, reversed. -/
def splitLinesFrom (current : List Char) : List Char → List (List Char)
  | [] => if current.isEmpty then [] else [current.reverse]
  | c :: rest =>
    if c = '\n' then
      (match current with
        | '\r' :: line => line.reverse
        | line => line.reverse) :: splitLinesFrom [] rest
    else splitLinesFrom (c :: current) rest

def splitLines (cs : List Char) : List (List Char) := splitLinesFrom [] cs

def plainChar (c : Char) : Char :=
  if c = '\u2018' ∨ c = '\u2019' then '\''
  else if c = '\u201C' ∨ c = '\u201D' then '"'
  else if c = '\u2013' ∨ c = '\u2014' then '-'
  else if c = '\u00A0' then ' '
  else c

def expandTab (c : Char) : List Char := if c = '\t' then [' ', ' ', ' ', ' '] else [c]

/-- Put a space into every `*/`. -/
def breakTerminator : List Char → List Char
  | '*' :: '/' :: rest => '*' :: ' ' :: '/' :: breakTerminator rest
  | c :: rest => c :: breakTerminator rest
  | [] => []

def cleanLine (line : List Char) : List Char :=
  Unicode.dropRight (fun c => c == ' ' || c == '\t') (breakTerminator ((line.map plainChar).flatMap expandTab))

/-- Leave out an empty line after another one; `afterEmpty` tells whether the last line was empty. -/
def collapseFrom (afterEmpty : Bool) : List (List Char) → List (List Char)
  | [] => []
  | line :: rest =>
    if line.isEmpty && afterEmpty then collapseFrom true rest else line :: collapseFrom line.isEmpty rest

def collapse (lines : List (List Char)) : List (List Char) :=
  ((collapseFrom true lines).reverse.dropWhile List.isEmpty).reverse

def commentLineChars (text : List Char) : List (List Char) := collapse ((splitLines text).map cleanLine)

def commentLines (text : String) : List String := (commentLineChars text.toList).map String.ofList

/-- The lines trimmed and joined by spaces, for a place that has one line. -/
def singleLine (text : String) : String :=
  " ".intercalate (((commentLines text).map Unicode.trim).filter (· ≠ ""))

end ClientGen.Text

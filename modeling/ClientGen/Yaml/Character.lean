/-
  ClientGen.Yaml.Character — the characters of YAML text, and places in it.

  Lines end at a line feed, a carriage return, both together, or one of three Unicode breaks.
  `normalized?` writes the breaks that are read as a line feed as one, so that every later step
  takes single characters; it refuses control characters.
-/

namespace ClientGen.Yaml

def isBreak (c : Char) : Bool := c == '\n' || c == '\u2028' || c == '\u2029'

def isBlank (c : Char) : Bool := c == ' ' || c == '\t'

/-- What is left of the text starts with a blank or a break, or nothing is left. -/
def atGap : List Char → Bool
  | [] => true
  | c :: _ => isBlank c || isBreak c

/-- Characters of anchors, tag handles and directives. -/
def isWord (c : Char) : Bool :=
  c.isDigit || ('a' ≤ c && c ≤ 'z') || ('A' ≤ c && c ≤ 'Z') || c == '_' || c == '-'

def byteOrderMark : Char := '\ufeff'

def isAllowed (c : Char) : Bool :=
  let n := c.toNat
  n == 0x9 || n == 0xA || n == 0xD || (0x20 ≤ n && n ≤ 0x7E) || n == 0x85 || (0xA0 ≤ n && n ≤ 0xFFFD) || 0x10000 ≤ n

def normalized? (cs : List Char) : Option (List Char) :=
  let step (read : List Char × Bool) (c : Char) : List Char × Bool :=
    if c == '\n' && read.2 then (read.1, false)
    else ((if c == '\r' || c == '\u0085' then '\n' else c) :: read.1, c == '\r')
  if cs.all isAllowed then some (cs.foldl step ([], false)).1.reverse else none

/-- Lines and columns are counted from zero. -/
structure Place where
  line : Nat
  column : Nat
  deriving DecidableEq, Repr

namespace Place

def start : Place := ⟨0, 0⟩

/-- The place behind a character. -/
def after (p : Place) (c : Char) : Place := if isBreak c then ⟨p.line + 1, 0⟩ else ⟨p.line, p.column + 1⟩

/-- The place `n` characters further on the line. -/
def skip (p : Place) (n : Nat) : Place := ⟨p.line, p.column + n⟩

end Place

/-- At the start of a line, three times `mark` with a gap behind. -/
def isMarker (mark : Char) (p : Place) : List Char → Bool
  | a :: b :: c :: rest => p.column == 0 && a == mark && b == mark && c == mark && atGap rest
  | _ => false

/-- A line that starts or ends a document. -/
def isDocumentMarker (p : Place) (cs : List Char) : Bool := isMarker '-' p cs || isMarker '.' p cs

/-- A reader takes characters from the front and gives back the place behind them and the rest. -/
structure Taken (α : Type) where
  value : α
  place : Place
  rest : List Char

/-! ## Folding

  Between two characters of a scalar that runs over lines stands a gap. Blanks on one line
  are kept. Of line breaks the first becomes a space, unless others follow it, and blanks next to
  them are dropped. -/

inductive Gap where
  /-- Blanks on one line, the last first. -/
  | blanks (cs : List Char)
  /-- A first break, unless it was escaped, and those after it, the last first. -/
  | breaks (first : Option Char) (more : List Char)

namespace Gap

def none : Gap := .blanks []

def isNone : Gap → Bool
  | .blanks [] => true
  | _ => false

def isBroken : Gap → Bool
  | .blanks _ => false
  | .breaks _ _ => true

def add (c : Char) : Gap → Gap
  | .blanks cs => if isBreak c then .breaks (some c) [] else .blanks (c :: cs)
  | .breaks first more => if isBreak c then .breaks first (c :: more) else .breaks first more

/-- What the gap is read as, the last character first. -/
def folded : Gap → List Char
  | .blanks cs => cs
  | .breaks (some '\n') [] => [' ']
  | .breaks (some '\n') more => more
  | .breaks first more => more ++ first.toList

end Gap

end ClientGen.Yaml

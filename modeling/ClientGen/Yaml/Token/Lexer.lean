import ClientGen.Yaml.Token.Block
import ClientGen.Yaml.Token.Plain
import ClientGen.Yaml.Token.Quoted
import ClientGen.Yaml.Token.Tag

/-
  ClientGen.Yaml.Token.Lexer — from text to tokens.

  - Block collections start and end by indentation: `margin` is one past the column of the
    innermost one, and zero outside of all.
  - Whether something is a key is known only at the colon behind it. Until then it is remembered,
    one candidate for every level of flow collections, and the key token is put in front of it
    afterwards. A candidate lasts to the end of its line and for 1024 characters. One that stands at
    the column of its mapping must turn out to be a key.
-/

namespace ClientGen.Yaml

structure KeyCandidate where
  required : Bool
  /-- How many tokens stand in front of it. -/
  position : Nat
  place : Place

structure Lexer where
  rest : List Char
  place : Place
  /-- The tokens so far, the last first, and how many they are. -/
  tokens : List Token
  count : Nat
  margin : Nat
  /-- The margins of the collections around. -/
  margins : List Nat
  candidate : Option KeyCandidate
  /-- The candidates of the levels around; there are as many as flow collections are open. -/
  candidates : List (Option KeyCandidate)
  /-- A key may start here. -/
  keyAllowed : Bool

namespace Lexer

def start (cs : List Char) : Lexer := ⟨cs, .start, [], 0, 0, [], none, [], true⟩

def inFlow (s : Lexer) : Bool := !s.candidates.isEmpty

def emit (t : Token) (s : Lexer) : Lexer := { s with tokens := t :: s.tokens, count := s.count + 1 }

/-- Put a token in front of those from `position` on. -/
def emitAt (t : Token) (position : Nat) (s : Lexer) : Lexer :=
  let behind := s.count - position
  { s with tokens := s.tokens.take behind ++ t :: s.tokens.drop behind, count := s.count + 1 }

/-- Go on at `rest`, which starts on the same line. -/
def moveTo (rest : List Char) (s : Lexer) : Lexer :=
  { s with rest := rest, place := s.place.skip (s.rest.length - rest.length) }

def skip (n : Nat) (s : Lexer) : Lexer := { s with rest := s.rest.drop n, place := s.place.skip n }

def allowKey (allowed : Bool) (s : Lexer) : Lexer := { s with keyAllowed := allowed }

/-! ## Blanks and comments -/

/-- Skip to the next token. In block collections a key may start on every line, and tabs are no
    indentation. -/
def skipGap (flow comment keyAllowed : Bool) (p : Place) : List Char → Taken Bool
  | [] => ⟨keyAllowed, p, []⟩
  | c :: rest =>
    if isBreak c then skipGap flow false (keyAllowed || !flow) (p.after c) rest
    else if comment then skipGap flow true keyAllowed (p.after c) rest
    else if c == '#' then skipGap flow true keyAllowed (p.after c) rest
    else if c == ' ' || (c == '\t' && (flow || !keyAllowed)) || (c == byteOrderMark && p.column == 0) then
      skipGap flow false keyAllowed (p.after c) rest
    else ⟨keyAllowed, p, c :: rest⟩

def toNextToken (s : Lexer) : Lexer :=
  let t := skipGap s.inFlow false s.keyAllowed s.place s.rest
  { s with keyAllowed := t.value, place := t.place, rest := t.rest }

/-! ## Keys -/

/-- Give a candidate up; a required one cannot be. -/
def giveUp (c : Option KeyCandidate) : Option (Option KeyCandidate) := if c.any (·.required) then none else some none

def isStale (p : Place) (c : KeyCandidate) : Bool := c.place.line < p.line || c.place.column + 1024 < p.column

def dropIfStale (p : Place) (c : Option KeyCandidate) : Option (Option KeyCandidate) :=
  if c.any (isStale p) then giveUp c else some c

def dropStale (s : Lexer) : Option Lexer := do
  let candidate ← dropIfStale s.place s.candidate
  let candidates ← s.candidates.mapM (dropIfStale s.place)
  return { s with candidate := candidate, candidates := candidates }

def dropCandidate (s : Lexer) : Option Lexer := do return { s with candidate := ← giveUp s.candidate }

/-- What starts here may be a key. -/
def noteCandidate (s : Lexer) : Option Lexer := do
  if s.keyAllowed then
    let required := !s.inFlow && s.margin == s.place.column + 1
    return { ← s.dropCandidate with candidate := some ⟨required, s.count, s.place⟩ }
  else return s

/-! ## Indentation -/

/-- Start a collection at a column, unless it has started already. -/
def indentTo (column position : Nat) (t : Token) (s : Lexer) : Lexer :=
  if !s.inFlow && s.margin < column + 1 then
    { s.emitAt t position with margins := s.margin :: s.margins, margin := column + 1 }
  else s

/-- End the collections whose margin is past `limit`. -/
def endCollections (limit : Nat) (margin : Nat) : List Nat → Nat × Nat × List Nat
  | [] => (0, margin, [])
  | outer :: margins =>
    if limit < margin then
      let (ended, rest) := endCollections limit outer margins
      (ended + 1, rest)
    else (0, margin, outer :: margins)

def unindentTo (limit : Nat) (s : Lexer) : Lexer :=
  if s.inFlow then s
  else
    let (ended, margin, margins) := endCollections limit s.margin s.margins
    { s with
      tokens := List.replicate ended .blockEnd ++ s.tokens
      count := s.count + ended
      margin := margin
      margins := margins }

/-! ## Tokens -/

/-- A token that stands outside of all collections. -/
def outside (s : Lexer) : Option Lexer := do return (← (s.unindentTo 0).dropCandidate).allowKey false

def directiveLine (s : Lexer) : Option Lexer := do
  let s ← s.outside
  let (t, rest) ← directive (s.rest.drop 1)
  return (s.moveTo rest).emit t

def documentMarker (t : Token) (s : Lexer) : Option Lexer := do return ((← s.outside).skip 3).emit t

def openFlow (t : Token) (s : Lexer) : Option Lexer := do
  let s ← s.noteCandidate
  return ({ s with candidates := s.candidate :: s.candidates, candidate := none, keyAllowed := true }.skip 1).emit t

def closeFlow (t : Token) (s : Lexer) : Option Lexer := do
  let s ← s.dropCandidate
  let s := match s.candidates with
    | [] => s
    | candidate :: candidates => { s with candidate := candidate, candidates := candidates }
  return ((s.allowKey false).skip 1).emit t

def flowEntry (s : Lexer) : Option Lexer := do return (((← s.dropCandidate).allowKey true).skip 1).emit .flowEntry

def blockEntry (s : Lexer) : Option Lexer := do
  if !s.inFlow && !s.keyAllowed then failure
  let s ← (s.indentTo s.place.column s.count .blockSequenceStart).dropCandidate
  return ((s.allowKey true).skip 1).emit .blockEntry

def markedKey (s : Lexer) : Option Lexer := do
  if !s.inFlow && !s.keyAllowed then failure
  let s ← (s.indentTo s.place.column s.count .blockMappingStart).dropCandidate
  return ((s.allowKey (!s.inFlow)).skip 1).emit .key

def markedValue (s : Lexer) : Option Lexer := do
  match s.candidate with
  | some key =>
    let s := (s.emitAt .key key.position).indentTo key.place.column key.position .blockMappingStart
    return (({ s with candidate := none }.allowKey false).skip 1).emit .value
  | none =>
    if !s.inFlow && !s.keyAllowed then failure
    let s := s.indentTo s.place.column s.count .blockMappingStart
    return ((s.allowKey (!s.inFlow)).skip 1).emit .value

def anchorOrAlias (make : String → Token) (s : Lexer) : Option Lexer := do
  let s ← s.noteCandidate
  let (name, rest) ← anchorName (s.rest.drop 1)
  return ((s.allowKey false).moveTo rest).emit (make name)

def tagToken (s : Lexer) : Option Lexer := do
  let s ← s.noteCandidate
  let (t, rest) ← tag s.inFlow s.rest
  return ((s.allowKey false).moveTo rest).emit t

def take (t : Taken String) (isPlain : Bool) (s : Lexer) : Lexer :=
  { s with rest := t.rest, place := t.place }.emit (.scalar isPlain t.value)

def blockToken (folded : Bool) (s : Lexer) : Option Lexer := do
  let s ← s.dropCandidate
  let t ← blockScalar folded s.margin s.place (s.rest.drop 1)
  return (s.allowKey true).take t false

def quotedToken (read : Place → Gap → List Char → List Char → Option (Taken String)) (s : Lexer) : Option Lexer := do
  let s ← s.noteCandidate
  let t ← read (s.place.skip 1) .none [] (s.rest.drop 1)
  return (s.allowKey false).take t false

def plainToken (s : Lexer) : Option Lexer := do
  let s ← s.noteCandidate
  let t ← plain s.inFlow s.margin s.place .none [] s.rest
  let (text, broken) := t.value
  return (s.allowKey broken).take ⟨text, t.place, t.rest⟩ true

/-- Read one token, which is there. -/
def token (s : Lexer) (c : Char) (rest : List Char) : Option Lexer :=
  let flow := s.inFlow
  if c = '%' ∧ s.place.column = 0 then s.directiveLine
  else if isMarker '-' s.place s.rest then s.documentMarker .documentStart
  else if isMarker '.' s.place s.rest then s.documentMarker .documentEnd
  else if c = '[' then s.openFlow .flowSequenceStart
  else if c = '\x7b' then s.openFlow .flowMappingStart
  else if c = ']' then s.closeFlow .flowSequenceEnd
  else if c = '\x7d' then s.closeFlow .flowMappingEnd
  else if c = ',' then s.flowEntry
  else if c = '-' ∧ atGap rest then s.blockEntry
  else if c = '?' ∧ (flow ∨ atGap rest) then s.markedKey
  else if c = ':' ∧ (flow ∨ atGap rest) then s.markedValue
  else if c = '*' then s.anchorOrAlias .reference
  else if c = '&' then s.anchorOrAlias .anchor
  else if c = '!' then s.tagToken
  else if c = '|' ∧ !flow then s.blockToken false
  else if c = '>' ∧ !flow then s.blockToken true
  else if c = '\'' then s.quotedToken singleQuoted
  else if c = '"' then s.quotedToken doubleQuoted
  else if startsPlain flow s.rest then s.plainToken
  else none

/-- All tokens up to the end. Each takes a character, so the length of the text bounds their number. -/
def run : Nat → Lexer → Option (List Token)
  | 0, _ => none
  | bound + 1, s => do
    let s ← s.toNextToken.dropStale
    match s.rest with
    | [] => return (← s.outside).tokens.reverse
    | c :: rest => run bound (← (s.unindentTo (s.place.column + 1)).token c rest)

end Lexer

/-- The tokens of a text. -/
def Token.ofText? (text : String) : Option (List Token) := do
  let cs ← normalized? text.toList
  Lexer.run (cs.length + 1) (Lexer.start cs)

end ClientGen.Yaml

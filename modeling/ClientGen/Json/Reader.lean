import ClientGen.Json.Numeral

/-
  ClientGen.Json.Reader — reading JSON text.

  The grammar is the strict one: no comments, no trailing commas, no control characters inside
  strings, surrogate escapes only in pairs. Containers nest at most `maxDepth` deep, and nothing
  but blanks may follow the value. A reader takes characters from the front and gives back the
  rest; `value` recurses on the depth that is left, lists on a bound for their length.
-/

namespace ClientGen.Json

def maxDepth : Nat := 127

def isSpace (c : Char) : Bool := c == ' ' || c == '\n' || c == '\t' || c == '\r'

def skipSpace (cs : List Char) : List Char := cs.dropWhile isSpace

def dropLiteral : List Char → List Char → Option (List Char)
  | [], rest => some rest
  | c :: cs, d :: ds => if c = d then dropLiteral cs ds else none
  | _ :: _, [] => none

/-! ## Strings -/

def hexValue? (c : Char) : Option Nat :=
  if c.isDigit then some (c.toNat - '0'.toNat)
  else if 'a' ≤ c && c ≤ 'f' then some (c.toNat - 'a'.toNat + 10)
  else if 'A' ≤ c && c ≤ 'F' then some (c.toNat - 'A'.toNat + 10)
  else none

def hex4? (a b c d : Char) : Option Nat := do
  return (((← hexValue? a) * 16 + (← hexValue? b)) * 16 + (← hexValue? c)) * 16 + (← hexValue? d)

def simpleEscape? (c : Char) : Option Char :=
  if c = '"' then some '"' else if c = '\\' then some '\\' else if c = '/' then some '/'
  else if c = 'b' then some '\x08' else if c = 'f' then some '\x0c' else if c = 'n' then some '\n'
  else if c = 'r' then some '\r' else if c = 't' then some '\t' else none

/-- A piece of a string: a character, or a code unit written with four hex digits. -/
inductive Piece where
  | char (c : Char)
  | unit (n : Nat)

/-- Pieces up to the closing quote, and the text after it. -/
def stringPieces : List Char → Option (List Piece × List Char)
  | [] => none
  | '"' :: rest => some ([], rest)
  | '\\' :: 'u' :: a :: b :: c :: d :: rest => do
    let n ← hex4? a b c d
    let (ps, rest) ← stringPieces rest
    return (.unit n :: ps, rest)
  | '\\' :: e :: rest => do
    let c ← simpleEscape? e
    let (ps, rest) ← stringPieces rest
    return (.char c :: ps, rest)
  | c :: rest =>
    if c.toNat < 0x20 || c == '\\' then none
    else do
      let (ps, rest) ← stringPieces rest
      return (.char c :: ps, rest)

def isHighSurrogate (n : Nat) : Bool := 0xD800 ≤ n && n < 0xDC00

def isLowSurrogate (n : Nat) : Bool := 0xDC00 ≤ n && n < 0xE000

/-- The characters of the pieces; a surrogate without its partner is refused. -/
def joinPieces : List Piece → Option (List Char)
  | [] => some []
  | .char c :: rest => (joinPieces rest).map (c :: ·)
  | .unit n :: .unit m :: rest =>
    if isHighSurrogate n then
      if isLowSurrogate m then
        (joinPieces rest).map (Char.ofNat (0x10000 + (n - 0xD800) * 0x400 + (m - 0xDC00)) :: ·)
      else none
    else if isLowSurrogate n then none
    else (joinPieces (.unit m :: rest)).map (Char.ofNat n :: ·)
  | .unit n :: rest =>
    if isHighSurrogate n || isLowSurrogate n then none else (joinPieces rest).map (Char.ofNat n :: ·)

/-- A string whose opening quote is already taken. -/
def stringTail (cs : List Char) : Option (String × List Char) := do
  let (ps, rest) ← stringPieces cs
  return (String.ofList (← joinPieces ps), rest)

/-! ## Numbers -/

/-- At least one digit; a zero in front stands alone. -/
def wholeDigits (cs : List Char) : Option (List Char × List Char) :=
  let ds := cs.takeWhile Char.isDigit
  let rest := cs.dropWhile Char.isDigit
  match ds with
  | [] => none
  | ['0'] => some (ds, rest)
  | '0' :: _ => none
  | _ => some (ds, rest)

def someDigits (cs : List Char) : Option (List Char × List Char) :=
  let ds := cs.takeWhile Char.isDigit
  if ds.isEmpty then none else some (ds, cs.dropWhile Char.isDigit)

def fractionPart : List Char → Option (Option (List Char) × List Char)
  | '.' :: rest => (someDigits rest).map fun (ds, rest) => (some ds, rest)
  | rest => some (none, rest)

def exponentPart : List Char → Option (Option Int × List Char)
  | c :: rest =>
    if c = 'e' ∨ c = 'E' then
      let (neg, rest) := match rest with
        | '-' :: r => (true, r)
        | '+' :: r => (false, r)
        | r => (false, r)
      (someDigits rest).map fun (ds, rest) =>
        let n : Int := digitsValue ds
        (some (if neg then -n else n), rest)
    else some (none, c :: rest)
  | [] => some (none, [])

def numeral (cs : List Char) : Option (Numeral × List Char) := do
  let (neg, cs) := match cs with
    | '-' :: r => (true, r)
    | r => (false, r)
  let (whole, cs) ← wholeDigits cs
  let (fraction, cs) ← fractionPart cs
  let (exponent, cs) ← exponentPart cs
  return (⟨neg, whole, fraction, exponent⟩, cs)

/-! ## Values -/

/-- Elements separated by commas up to the closing character. The first element is due. -/
def separated (element : List Char → Option (α × List Char)) (close : Char) :
    Nat → List Char → Option (List α × List Char)
  | 0, _ => none
  | bound + 1, cs => do
    let (a, cs) ← element cs
    match skipSpace cs with
    | ',' :: rest =>
      let (as, rest) ← separated element close bound rest
      return (a :: as, rest)
    | c :: rest => if c = close then return ([a], rest) else none
    | [] => none

def enclosed (element : List Char → Option (α × List Char)) (close : Char) (bound : Nat) (cs : List Char) :
    Option (List α × List Char) :=
  match skipSpace cs with
  | c :: rest => if c = close then some ([], rest) else separated element close bound (c :: rest)
  | [] => none

def field (value : List Char → Option (Json × List Char)) (cs : List Char) :
    Option ((String × Json) × List Char) :=
  match skipSpace cs with
  | '"' :: rest => do
    let (key, rest) ← stringTail rest
    match skipSpace rest with
    | ':' :: rest =>
      let (v, rest) ← value rest
      return ((key, v), rest)
    | _ => none
  | _ => none

/-- A value, with containers of at most `bound` elements nested at most `depth` deep. -/
def value (bound depth : Nat) (cs : List Char) : Option (Json × List Char) :=
  match skipSpace cs with
  | 'n' :: rest => (dropLiteral "ull".toList rest).map (Json.null, ·)
  | 't' :: rest => (dropLiteral "rue".toList rest).map (Json.bool true, ·)
  | 'f' :: rest => (dropLiteral "alse".toList rest).map (Json.bool false, ·)
  | '"' :: rest => (stringTail rest).map fun (s, rest) => (.str s, rest)
  | '[' :: rest =>
    match depth with
    | 0 => none
    | depth + 1 => (enclosed (value bound depth) ']' bound rest).map fun (items, rest) => (.arr items, rest)
  | '\x7b' :: rest =>
    match depth with
    | 0 => none
    | depth + 1 => (enclosed (field (value bound depth)) '\x7d' bound rest).map fun (fs, rest) => (object fs, rest)
  | rest => do
    let (t, rest) ← numeral rest
    return (← t.value?, rest)

/-- The value of a whole text. -/
def read? (text : String) : Option Json :=
  match value (text.length + 1) maxDepth text.toList with
  | some (v, rest) => if (skipSpace rest).isEmpty then some v else none
  | none => none

end ClientGen.Json

import ClientGen.Json.Reader
import ClientGen.Yaml.Character
import ClientGen.Yaml.Token

/-
  ClientGen.Yaml.Token.Tag — anchors, aliases, tags and directives.

  All of them stand on one line. A tag is written in full between angle brackets, or as a handle
  and a suffix; a lone exclamation mark is a tag of its own. Escaped octets of a tag must make up
  characters; each octet is kept as the character of its number.
-/

namespace ClientGen.Yaml

/-- The name of an anchor or alias, and the rest, which must start with an end of the name. -/
def anchorName (cs : List Char) : Option (String × List Char) :=
  let name := cs.takeWhile isWord
  let rest := cs.dropWhile isWord
  if !name.isEmpty && (atGap rest || rest.head?.any ("?:,]\x7d%@\x60".toList.contains ·)) then
    some (String.ofList name, rest)
  else none

/-- How many octets the character has that starts with this one. -/
def octets? (n : Nat) : Option Nat :=
  if n < 0x80 then some 1
  else if 0xC0 ≤ n ∧ n < 0xE0 then some 2
  else if 0xE0 ≤ n ∧ n < 0xF0 then some 3
  else if 0xF0 ≤ n ∧ n < 0xF8 then some 4
  else none

/-- A character of a tag; inside angle brackets there are three more. -/
def isTagChar (full : Bool) (c : Char) : Bool :=
  isWord c || ";/?:@&=+$.!~*'()".toList.contains c || (full && ",[]".toList.contains c)

/-- The text of a tag, with `due` more octets of an escaped character to come. -/
def tagText (full : Bool) (due : Nat) (out : List Char) : List Char → Option (List Char × List Char)
  | '%' :: a :: b :: rest => do
    let n := (← Json.hexValue? a) * 16 + (← Json.hexValue? b)
    let due ←
      match due with
      | 0 => (octets? n).map (· - 1)
      | more + 1 => if 0x80 ≤ n ∧ n < 0xC0 then some more else none
    tagText full due (Char.ofNat n :: out) rest
  | c :: rest =>
    if due ≠ 0 ∨ c = '%' then none
    else if isTagChar full c then tagText full due (c :: out) rest
    else some (out.reverse, c :: rest)
  | [] => if due ≠ 0 then none else some (out.reverse, [])

/-- A handle: `!`, or a word between two. The closing mark may be missing. -/
def tagHandle : List Char → Option (List Char × List Char)
  | '!' :: rest =>
    let word := rest.takeWhile isWord
    match rest.dropWhile isWord with
    | '!' :: rest => some ('!' :: word ++ ['!'], rest)
    | rest => some ('!' :: word, rest)
  | _ => none

def tag (flow : Bool) (cs : List Char) : Option (Token × List Char) := do
  let (handle, suffix, rest) ←
    match cs with
    | '!' :: '<' :: rest =>
      match ← tagText true 0 [] rest with
      | (c :: text, '>' :: rest) => some ([], c :: text, rest)
      | _ => none
    | _ =>
      let (handle, rest) ← tagHandle cs
      if 1 < handle.length ∧ handle.getLast? = some '!' then
        match ← tagText false 0 [] rest with
        | ([], _) => none
        | (suffix, rest) => some (handle, suffix, rest)
      else
        match ← tagText false 0 (handle.drop 1).reverse rest with
        | ([], rest) => some ([], ['!'], rest)
        | (suffix, rest) => some (['!'], suffix, rest)
  if atGap rest || (flow && rest.head? == some ',') then
    some (.tag (String.ofList handle) (String.ofList suffix), rest)
  else none

/-! ## Directives -/

def versionNumber (cs : List Char) : Option (Nat × List Char) :=
  let digits := cs.takeWhile Char.isDigit
  if 0 < digits.length ∧ digits.length ≤ 9 then some (Json.digitsValue digits, cs.dropWhile Char.isDigit) else none

def versionDirective (cs : List Char) : Option (Token × List Char) := do
  let (major, rest) ← versionNumber (cs.dropWhile isBlank)
  match rest with
  | '.' :: rest =>
    let (minor, rest) ← versionNumber rest
    return (.version major minor, rest)
  | _ => none

def tagDirective (cs : List Char) : Option (Token × List Char) := do
  let (handle, rest) ← tagHandle (cs.dropWhile isBlank)
  if handle.length ≠ 1 ∧ handle.getLast? ≠ some '!' then none
  else if !rest.head?.any isBlank then none
  else
    match ← tagText true 0 [] (rest.dropWhile isBlank) with
    | ([], _) => none
    | (stem, rest) => if atGap rest then return (.tagHandle (String.ofList handle) (String.ofList stem), rest) else none

/-- A directive, read from behind its percent sign up to the end of the line. -/
def directive (cs : List Char) : Option (Token × List Char) := do
  let name := cs.takeWhile isWord
  let rest := cs.dropWhile isWord
  if !atGap rest then none
  else
    let (token, rest) ←
      if name = "YAML".toList then versionDirective rest
      else if name = "TAG".toList then tagDirective rest
      else none
    let rest := rest.dropWhile isBlank
    let rest := if rest.head? = some '#' then rest.dropWhile (!isBreak ·) else rest
    if rest.isEmpty || rest.head?.any isBreak then return (token, rest) else none

end ClientGen.Yaml

import ClientGen.Yaml.Character

/-
  ClientGen.Yaml.Token.Block — literal and folded scalars.

  The header names the indentation or leaves it to the first line that is not empty, and says
  what becomes of the breaks at the end. In a folded scalar the break between two lines that
  start with no blank is read as a space, or dropped when empty lines follow it.
-/

namespace ClientGen.Yaml

inductive Chomping where
  /-- Drop every break at the end. -/
  | strip
  /-- Keep the break of the last line. -/
  | clip
  /-- Keep all. -/
  | keep

/-- The header without its blanks and comment: how to chomp, and the indentation if it is named. -/
def blockHeader : List Char → Option (Chomping × Option Nat × List Char)
  | c :: rest =>
    let chomping? (c : Char) : Option Chomping :=
      if c = '+' then some .keep else if c = '-' then some .strip else none
    let digit? (c : Char) : Option Nat := if c.isDigit then some (c.toNat - '0'.toNat) else none
    match chomping? c, digit? c with
    | some chomping, _ =>
      match rest with
      | d :: more =>
        match digit? d with
        | some 0 => none
        | some n => some (chomping, some n, more)
        | none => some (chomping, none, rest)
      | [] => some (chomping, none, [])
    | none, some 0 => none
    | none, some n =>
      match rest with
      | d :: more =>
        match chomping? d with
        | some chomping => some (chomping, some n, more)
        | none => some (.clip, some n, rest)
      | [] => some (.clip, some n, [])
    | none, none => some (.clip, none, c :: rest)
  | [] => some (.clip, none, [])

/-- The rest behind the blanks, the comment and the break that end a header. -/
def headerEnd (cs : List Char) : Option (List Char) :=
  let cs := cs.dropWhile isBlank
  let cs := if cs.head? = some '#' then cs.dropWhile (!isBreak ·) else cs
  match cs with
  | [] => some []
  | c :: rest => if isBreak c then some rest else none

/-- Empty lines in front of the first line: their breaks, the last first, and the deepest column. -/
def emptyLines (indent : Option Nat) (p : Place) (deepest : Nat) (breaks : List Char) :
    List Char → Option (Taken (List Char × Nat))
  | [] => some ⟨(breaks, max deepest p.column), p, []⟩
  | c :: rest =>
    let inside := indent.all (p.column < ·)
    if c == ' ' && inside then emptyLines indent (p.after c) deepest breaks rest
    else if c == '\t' && inside then none
    else if isBreak c then emptyLines indent (p.after c) (max deepest p.column) (c :: breaks) rest
    else some ⟨(breaks, max deepest p.column), p, c :: rest⟩

structure BlockText where
  /-- The text up to the last line, the last character first. -/
  out : List Char
  /-- The break of the last line. -/
  lineBreak : Option Char
  /-- The breaks of empty lines behind it, the last first. -/
  emptied : List Char
  /-- The last line starts with a blank. -/
  indented : Bool

namespace BlockText

/-- Start a line with `c`. -/
def begin (folded : Bool) (t : BlockText) (c : Char) : BlockText :=
  let joined :=
    if folded && t.lineBreak == some '\n' && !t.indented && !isBlank c then
      if t.emptied.isEmpty then [' '] else []
    else t.lineBreak.toList
  ⟨c :: (t.emptied ++ (joined ++ t.out)), none, [], isBlank c⟩

def chomped (t : BlockText) : Chomping → List Char
  | .strip => t.out
  | .clip => t.lineBreak.toList ++ t.out
  | .keep => t.emptied ++ (t.lineBreak.toList ++ t.out)

end BlockText

/-- The lines of a block scalar, up to one that is indented less. -/
def blockLines (folded : Bool) (indent : Nat) (inLine : Bool) (t : BlockText) (p : Place) :
    List Char → Option (Taken BlockText)
  | [] => some ⟨t, p, []⟩
  | c :: rest =>
    if inLine then
      if isBreak c then blockLines folded indent false { t with lineBreak := some c } (p.after c) rest
      else blockLines folded indent true { t with out := c :: t.out } (p.after c) rest
    else if c == ' ' && p.column < indent then blockLines folded indent false t (p.after c) rest
    else if c == '\t' && p.column < indent then none
    else if isBreak c then blockLines folded indent false { t with emptied := c :: t.emptied } (p.after c) rest
    else if p.column = indent then blockLines folded indent true (t.begin folded c) (p.after c) rest
    else some ⟨t, p, c :: rest⟩

/-- A block scalar, read from behind its indicator on line `p.line`. -/
def blockScalar (folded : Bool) (margin : Nat) (p : Place) (cs : List Char) : Option (Taken String) := do
  let (chomping, named, cs) ← blockHeader cs
  let cs ← headerEnd cs
  let indent? := named.map (margin - 1 + ·)
  let before ← emptyLines indent? ⟨p.line + 1, 0⟩ 0 [] cs
  let (breaks, deepest) := before.value
  let indent := indent?.getD (max deepest (max margin 1))
  let lines ← blockLines folded indent false ⟨[], none, breaks, false⟩ before.place before.rest
  return ⟨String.ofList (lines.value.chomped chomping).reverse, lines.place, lines.rest⟩

end ClientGen.Yaml

import ClientGen.Name.Words
import ClientGen.Unicode.Word

/-
  ClientGen.Model.Path — path templates.

  A placeholder is a name of word characters in braces. Scanning from the left, a brace that
  opens no placeholder is literal text. The pieces keep the placeholder names as written, so
  writing the pieces one after another gives the path back; the argument of a placeholder is
  named by the camel form.
-/

namespace ClientGen

inductive PathPiece where
  | literal (text : List Char)
  | placeholder (name : List Char)
  deriving DecidableEq, Repr

/-- A part of a path as a generated method sees it. -/
inductive PathPart where
  | literal (text : String)
  | param (argument : String)
  deriving DecidableEq, Repr

def PathPiece.written : PathPiece → List Char
  | .literal text => text
  | .placeholder name => '\x7b' :: name ++ ['\x7d']

def PathPiece.part : PathPiece → PathPart
  | .literal text => .literal (String.ofList text)
  | .placeholder name => .param (Name.camel (String.ofList name))

def PathPiece.placeholder? : PathPiece → Option String
  | .literal _ => none
  | .placeholder name => some (String.ofList name)

/-- Literal text held in reverse, unless it is empty. -/
def flushLiteral (text : List Char) : List PathPiece := if text.isEmpty then [] else [.literal text.reverse]

/-- `literal` is the literal text so far, `name` what follows a brace that may open a
    placeholder; both are held in reverse. -/
def scanPath (literal : List Char) (name : Option (List Char)) : List Char → List PathPiece
  | [] =>
    match name with
    | none => flushLiteral literal
    | some w => flushLiteral (w ++ '\x7b' :: literal)
  | c :: rest =>
    match name with
    | none => if c = '\x7b' then scanPath literal (some []) rest else scanPath (c :: literal) none rest
    | some w =>
      if Unicode.isWordChar c then scanPath literal (some (c :: w)) rest
      else if c = '\x7d' ∧ w ≠ [] then flushLiteral literal ++ .placeholder w.reverse :: scanPath [] none rest
      else if c = '\x7b' then scanPath (w ++ '\x7b' :: literal) (some []) rest
      else scanPath (c :: w ++ '\x7b' :: literal) none rest

structure PathTemplate where
  raw : String
  pieces : List PathPiece
  deriving DecidableEq, Repr

namespace PathTemplate

def ofPath (path : String) : PathTemplate := ⟨path, scanPath [] none path.toList⟩

def parts (t : PathTemplate) : List PathPart := t.pieces.map PathPiece.part

/-- The placeholder names as written, from left to right. -/
def placeholders (t : PathTemplate) : List String := t.pieces.filterMap PathPiece.placeholder?

/-- The path with every placeholder replaced by `marker`. -/
def expression (t : PathTemplate) (marker : String) : String :=
  String.join (t.parts.map fun
    | .literal text => text
    | .param _ => marker)

/-- The arguments, from left to right. -/
def parameters (t : PathTemplate) : List String :=
  t.parts.filterMap fun
    | .literal _ => none
    | .param argument => some argument

end PathTemplate

end ClientGen

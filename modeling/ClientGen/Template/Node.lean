import ClientGen.Json.Value
import ClientGen.Number.Shortest

/-
  ClientGen.Template.Node — templates and their evaluation.

  A template is text with values, conditions and loops in it. A path names a value by a variable
  and the keys below it; variables of inner loops come first. Showing something missing, looping
  over it or comparing it is an error; as a condition of its own a missing value is false.
-/

namespace ClientGen.Template

abbrev Path := List String

inductive Condition where
  /-- The value is there and is not empty, zero, false or null. -/
  | holds (path : Path)
  | equals (path : Path) (text : String)
  | either (a b : Condition)
  deriving Repr

inductive Node where
  | text (s : String)
  | value (path : Path)
  | cond (c : Condition) (yes no : List Node)
  | each (name : String) (path : Path) (body : List Node)

/-- Text given line by line. -/
def Node.lines (ls : List String) : Node := .text ("\n".intercalate ls)

inductive Failure where
  | missing (path : Path)
  | notIterable (path : Path)
  deriving DecidableEq, Repr

def Failure.message : Failure → String
  | .missing path => "there is no " ++ ".".intercalate path
  | .notIterable path => "there is nothing to loop over in " ++ ".".intercalate path

/-- The variables in sight, the innermost first. -/
abbrev Scope := List (String × Json)

def below? (v : Json) (path : Path) : Option Json := path.foldlM (fun v key => v.get? key) v

/-- The value of the first variable that has the whole path. -/
def lookup? (scope : Scope) : Path → Option Json
  | [] => none
  | name :: path => scope.findSome? fun (n, v) => if n = name then below? v path else none

def isTruthy : Json → Bool
  | .null => false
  | .bool b => b
  | .int n => n != 0
  | .float x => x.mant != 0
  | .str s => s != ""
  | .arr items => !items.isEmpty
  | .obj fields => !fields.isEmpty

mutual

/-- A value as it is shown. -/
def shown : Json → String
  | .null => ""
  | .bool b => if b then "true" else "false"
  | .int n => toString n
  | .float x => x.toPlain
  | .str s => s
  | .arr items => "[" ++ ", ".intercalate (shownItems items) ++ "]"
  | .obj _ => "[object]"

def shownItems : List Json → List String
  | [] => []
  | v :: rest => shown v :: shownItems rest

end

/-- What a loop goes through: the items of an array or the characters of a text. -/
def iterated? : Json → Option (List Json)
  | .arr items => some items
  | .str s => some (s.toList.map fun c => .str c.toString)
  | _ => none

def require (scope : Scope) (path : Path) : Except Failure Json :=
  match lookup? scope path with
  | some v => .ok v
  | none => .error (.missing path)

def Condition.eval (scope : Scope) : Condition → Except Failure Bool
  | .holds path => .ok ((lookup? scope path).any isTruthy)
  | .equals path text => do return (← require scope path).str? == some text
  | .either a b => do if ← a.eval scope then return true else b.eval scope

/-- The texts of a loop's rounds, one after another. -/
def joinRounds (render : Json → Except Failure String) : List Json → Except Failure String
  | [] => .ok ""
  | v :: rest => do return (← render v) ++ (← joinRounds render rest)

mutual

def Node.render (scope : Scope) : Node → Except Failure String
  | .text s => .ok s
  | .value path => do return shown (← require scope path)
  | .cond c yes no => do if ← c.eval scope then renderAll scope yes else renderAll scope no
  | .each name path body => do
    match iterated? (← require scope path) with
    | none => .error (.notIterable path)
    | some items => joinRounds (fun v => renderAll ((name, v) :: scope) body) items

def renderAll (scope : Scope) : List Node → Except Failure String
  | [] => .ok ""
  | node :: rest => do return (← node.render scope) ++ (← renderAll scope rest)

end

end ClientGen.Template

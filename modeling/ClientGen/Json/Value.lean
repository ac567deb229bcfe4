import ClientGen.KeyMap
import ClientGen.Number.Double

/-
  ClientGen.Json.Value — JSON values.

  A number is an integer or a double: `1` and `1.0` are different values. The fields of an
  object are kept in the order of their keys, each key once.
-/

namespace ClientGen

inductive Json where
  | null
  | bool (b : Bool)
  | int (n : Int)
  | float (x : Double)
  | str (s : String)
  | arr (items : List Json)
  | obj (fields : List (String × Json))
  deriving Inhabited, Repr

namespace Json

/-- An object from its fields as written: the last field of a repeated key counts. -/
def object (fields : List (String × Json)) : Json := .obj (KeyMap.ofList fields)

def get? (key : String) : Json → Option Json
  | .obj fields => KeyMap.get? fields key
  | _ => none

def str? : Json → Option String
  | .str s => some s
  | _ => none

def items? : Json → Option (List Json)
  | .arr items => some items
  | _ => none

def fields? : Json → Option (KeyMap Json)
  | .obj fields => some fields
  | _ => none

def bool? : Json → Option Bool
  | .bool b => some b
  | _ => none

/-- The strings of an array of strings. -/
def strings? : Json → Option (List String)
  | .arr items => items.mapM str?
  | _ => none

def ofOption (f : α → Json) : Option α → Json
  | some a => f a
  | none => .null

def ofText (s : Option String) : Json := ofOption .str s

def ofFlag (b : Option Bool) : Json := ofOption .bool b

def ofTexts (ss : List String) : Json := .arr (ss.map .str)

def ofMap (f : α → Json) (m : KeyMap α) : Json := .obj (m.map fun (k, a) => (k, f a))

/-! ## Equality of values

  Numbers are compared by value within their kind, so both float zeros are equal. -/

mutual

def same : Json → Json → Bool
  | .null, .null => true
  | .bool a, .bool b => a == b
  | .int a, .int b => a == b
  | .float a, .float b => a.same b
  | .str a, .str b => a == b
  | .arr a, .arr b => sameItems a b
  | .obj a, .obj b => sameFields a b
  | _, _ => false

def sameItems : List Json → List Json → Bool
  | [], [] => true
  | a :: as, b :: bs => same a b && sameItems as bs
  | _, _ => false

def sameFields : List (String × Json) → List (String × Json) → Bool
  | [], [] => true
  | (k, a) :: as, (l, b) :: bs => k == l && same a b && sameFields as bs
  | _, _ => false

end

end Json

end ClientGen

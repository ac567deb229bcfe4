/-
  ClientGen.Model.TypeRef — types of the generated library.

  A named type is only a key into the declarations. Optionality is not part of a type: it
  belongs to the field that has the type.
-/

namespace ClientGen

inductive Scalar where
  | string
  | integer
  /-- An integer that needs 64 bits. -/
  | int64
  | float
  | boolean
  deriving DecidableEq, Repr

namespace Scalar

def all : List Scalar := [.string, .integer, .int64, .float, .boolean]

def label : Scalar → String
  | .string => "String"
  | .integer => "Integer"
  | .int64 => "Int64"
  | .float => "Float"
  | .boolean => "Boolean"

def lowerLabel : Scalar → String
  | .string => "string"
  | .integer => "integer"
  | .int64 => "int64"
  | .float => "float"
  | .boolean => "boolean"

end Scalar

inductive TypeRef where
  | scalar (of : Scalar)
  | timestamp
  | date
  | time
  | named (name : String)
  | array (item : TypeRef)
  /-- A map with text keys. -/
  | map (value : TypeRef)
  /-- Values of any kind: what the generator does not model. -/
  | any
  deriving DecidableEq, Repr, Inhabited

namespace TypeRef

def string : TypeRef := .scalar .string

def isArray : TypeRef → Bool
  | .array _ => true
  | _ => false

/-- The items of an array; any other type itself. -/
def element : TypeRef → TypeRef
  | .array item => item
  | t => t

def declaredName? : TypeRef → Option String
  | .named name => some name
  | _ => none

/-- The names a type mentions. -/
def names : TypeRef → List String
  | .named name => [name]
  | .array item => item.names
  | .map value => value.names
  | _ => []

def display : TypeRef → String
  | .scalar k => k.lowerLabel
  | .timestamp => "timestamp"
  | .date => "date"
  | .time => "time"
  | .named name => name
  | .array item => "[" ++ item.display ++ "]"
  | .map value => "\x7bstring: " ++ value.display ++ "\x7d"
  | .any => "any"

end TypeRef

end ClientGen

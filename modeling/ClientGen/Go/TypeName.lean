import ClientGen.Model.TypeRef

/-
  ClientGen.Go.TypeName — how types are written in Go.
-/

namespace ClientGen.Go

def scalarName : Scalar → String
  | .string => "string"
  | .integer => "int"
  | .int64 => "int64"
  | .float => "float64"
  | .boolean => "bool"

def typeName : TypeRef → String
  | .scalar k => scalarName k
  | .timestamp => "time.Time"
  | .date => "Date"
  | .time => "Time"
  | .named name => name
  | .array item => "[]" ++ typeName item
  | .map value => "map[string]" ++ typeName value
  | .any => "any"

/-- Types whose zero value is already nil. -/
def isNilable : TypeRef → Bool
  | .array _ => true
  | .map _ => true
  | .any => true
  | _ => false

/-- An optional value is held behind a pointer, unless its type has a nil of its own. -/
def fieldTypeName (t : TypeRef) (optional : Bool) : String :=
  if optional && !isNilable t then "*" ++ typeName t else typeName t

end ClientGen.Go

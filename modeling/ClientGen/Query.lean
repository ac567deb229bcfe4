import ClientGen.Registry

/-
  ClientGen.Query — how the fields of a params struct become query pairs.

  A field that stands for an array contributes one pair for each item. Values of builtin types
  have a format of their own; a named type that stands for a builtin, or for an enum over a
  scalar, is converted to it first; everything else is written as text.
-/

namespace ClientGen

namespace Registry

/-- The type of each value that a field contributes. -/
def queryElement (r : Registry) (t : TypeRef) : TypeRef :=
  match r.resolveAlias t with
  | .array item => item
  | _ => t

end Registry

namespace ValueFormat

def ofScalar : Scalar → ValueFormat
  | .string => .text
  | .integer => .integer
  | .int64 => .integer
  | .float => .float
  | .boolean => .boolean

/-- The format of a named type, by what it stands for. -/
def ofNamed (r : Registry) (name : String) : ValueFormat :=
  match r.resolveAlias (.named name) with
  | .scalar k => .cast (.scalar k)
  | .timestamp => .cast .timestamp
  | .date => .cast .date
  | .time => .cast .time
  | .named _ =>
    match r.underlyingScalar? name with
    | some k => .cast (.scalar k)
    | none => .text
  | _ => .text

def ofElement (r : Registry) : TypeRef → ValueFormat
  | .scalar k => ofScalar k
  | .timestamp => .timestamp
  | .date => .date
  | .time => .time
  | .named name => ofNamed r name
  | _ => .text

def ofType (r : Registry) (t : TypeRef) : ValueFormat := ofElement r (r.queryElement t)

end ValueFormat

def Conversion.ofField (r : Registry) (f : Field) : Conversion :=
  { key := f.key
    field := f.name
    repeated := (r.resolveAlias f.type).isArray
    required := !f.optional
    element := r.queryElement f.type
    format := ValueFormat.ofType r f.type }

def QueryEncoder.ofFields (r : Registry) (typeName : String) (fields : List Field) : QueryEncoder :=
  ⟨typeName, fields.map (Conversion.ofField r)⟩

end ClientGen

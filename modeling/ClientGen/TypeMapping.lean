import ClientGen.Diagnostic
import ClientGen.Document.Basic
import ClientGen.Name.Identifier
import ClientGen.Name.Singular

/-
  ClientGen.TypeMapping — types for schemas where nothing may be declared.

  Path arguments and query parameters take the type of their schema without a declaration of
  their own. References, primitives, arrays and maps have a type already; what would need a
  declaration becomes `any`, with a diagnostic that says so.
-/

namespace ClientGen

/-- The type of a primitive, narrowed by its format. -/
def scalarType (p : Primitive) (format : Option String) : TypeRef :=
  match p with
  | .string =>
    if format = some "date-time" then .timestamp
    else if format = some "date" then .date
    else if format = some "time" then .time
    else .scalar .string
  | .integer => if format = some "int64" then .scalar .int64 else .scalar .integer
  | .number => .scalar .float
  | .boolean => .scalar .boolean

/-- The name under which a component is declared: enums take the singular. -/
def componentTypeName (name : String) (schema : Option Schema) : String :=
  if schema.any Schema.isEnum then Name.singular (Name.identifier name) else Name.identifier name

/-- The type that a reference stands for, whether or not its target exists. -/
def referenceType (doc : Document) (reference : String) : TypeRef :=
  .named (componentTypeName (Name.lastSegment reference) (doc.schemaByRef? reference))

/-- The primitive of an untyped literal. -/
def literalPrimitive? : Json → Option Primitive
  | .str _ => some .string
  | .int _ => some .integer
  | .float _ => some .number
  | .bool _ => some .boolean
  | _ => none

/-- The primitive of an enum: its type, or that of its first literal. -/
def enumPrimitive? (s : Schema) : Option Primitive :=
  match s.primaryType with
  | some t => Primitive.ofName? t
  | none => s.enumList.head?.bind literalPrimitive?

def mapType (doc : Document) (subject : String) (s : Schema) : TypeRef × List Diagnostic :=
  match h : s.shape with
  | .reference target => (referenceType doc target, [])
  | .primitive p => (scalarType p s.format, [])
  | .enumeration _ =>
    match enumPrimitive? s with
    | some p => (scalarType p s.format, [])
    | none => (.any, [])
  | .array none => (.array .any, [])
  | .array (some items) =>
    have : sizeOf items < sizeOf s := Schema.sizeOf_lt_of_items (Schema.items_of_shape h)
    let (t, ds) := mapType doc subject items
    (.array t, ds)
  | .object =>
    if s.hasProperties then (.any, [.inlineComposite subject])
    else
      match ha : s.additionalSchema with
      | none => (.map .any, [])
      | some value =>
        have : sizeOf value < sizeOf s := Schema.sizeOf_lt_of_additionalSchema ha
        let (t, ds) := mapType doc subject value
        (.map t, ds)
  | .allOf [branch] =>
    have : sizeOf branch < sizeOf s := Schema.sizeOf_lt_of_allOf (Schema.allOf_of_shape h) (by simp)
    mapType doc subject branch
  | .oneOf _ | .allOf _ => (.any, [.inlineComposite subject])
  | .anyOf _ => (.any, [.unsupportedAnyOf subject])
  | .unknown => (.any, [.unknownType subject s.primaryType])
termination_by sizeOf s

end ClientGen

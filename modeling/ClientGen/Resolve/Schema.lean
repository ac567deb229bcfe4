import ClientGen.Resolve.Enumeration
import ClientGen.Resolve.Merge

/-
  ClientGen.Resolve.Schema — schemas to types and declarations.

  Objects, enums, `oneOf` and merged `allOf` declare a type under the name they are given; what
  is nested inside is named after the parent. References are never followed here: they stand
  for the name under which their component is declared. `step` says what to do with one schema,
  given how the schemas inside it are resolved; `resolveAt` ties the knot by fuel.
-/

namespace ClientGen

/-- The accessor of a variant, named by its type. -/
def accessorLabel : TypeRef → String
  | .named name => name
  | .scalar k => k.label
  | .timestamp => "Timestamp"
  | .date => "Date"
  | .time => "Time"
  | .array item => accessorLabel item ++ "List"
  | .map _ => "Map"
  | .any => "Any"

/-- A schema that says nothing about its values. -/
def Schema.allowsAnything (s : Schema) : Bool :=
  s.reference.isNone && s.type.isNone && s.properties.isNone && s.items.isNone && s.enumValues.isNone &&
    s.additional.isNone && s.allOf.isNone && s.oneOf.isNone && s.anyOf.isNone

namespace Resolve

/-- A map with text keys, for an object that only has additional properties. -/
def freeFormMap (resolve : Resolver) (s : Schema) (name : String) : Resolve Resolution :=
  declaring name s do
    let value ←
      match s.additionalSchema with
      | none => pure (Resolution.of .any)
      | some value => if value.allowsAnything then pure (.of .any) else resolve value (name ++ "Value") .nested
    return (.type ⟨name, .map value.type, s.documentation, false⟩, value.declarations)

def object (resolve : Resolver) (s : Schema) (name : String) : Resolve Resolution :=
  if !s.hasProperties && s.allowsAdditional then freeFormMap resolve s name
  else
    declaring name s do
      let (fields, nested) ← structFields resolve s.required.contains name .nested s.propertyList
      return (.type ⟨name, .struct (sortedFields fields), s.documentation, false⟩, nested)

/-- Variants for the branches from number `number` on. -/
def sumVariants (resolve : Resolver) (name : String) (number : Nat) (labels : NameSet) :
    List Schema → Resolve (List SumVariant × List Declaration)
  | [] => return ([], [])
  | branch :: rest => do
    let r ← resolve branch (name ++ "Option" ++ toString number) .nested
    let (label, labels) := labels.claim (accessorLabel r.type)
    let (variants, nested) ← sumVariants resolve name (number + 1) labels rest
    return (⟨label, r.type⟩ :: variants, r.declarations ++ nested)

def sumType (resolve : Resolver) (s : Schema) (branches : List Schema) (name : String) : Resolve Resolution :=
  declaring name s do
    let (variants, nested) ← sumVariants resolve name 1 .empty branches
    return (.sum ⟨name, variants, s.documentation, false, true⟩, nested)

/-- The position of the items of an array. -/
def itemPosition : Position → Position
  | .allOfProperty => .allOfProperty
  | _ => .nested

/-- Resolve one schema, given how the schemas inside it are resolved. -/
def step (doc : Document) (resolve : Resolver) (s : Schema) (name : String) (position : Position) :
    Resolve Resolution :=
  match s.shape with
  | .reference target => return .of (referenceType doc target)
  | .enumeration _ => enumeration s name
  | .primitive p => return .of (scalarType p s.format)
  | .array none => return .of (.array .any)
  | .array (some items) => do
    let r ← resolve items (Name.singular name) (itemPosition position)
    return ⟨.array r.type, r.declarations⟩
  | .object => object resolve s name
  | .oneOf branches => sumType resolve s branches name
  | .anyOf _ => do
    report (.unsupportedAnyOf name)
    return .of .any
  | .allOf branches =>
    match position, branches with
    | .component, branches => mergeAllOf doc resolve s branches name
    | position, [branch] => resolve branch name position
    | .nested, branches => mergeAllOf doc resolve s branches name
    | .allOfProperty, _ => do
      report (.nestedAllOf name)
      return .of .any
  | .unknown => do
    report (.unknownType name s.primaryType)
    return .of .any

def resolveAt (doc : Document) : Nat → Resolver
  | 0 => fun _ _ _ => throw .outOfFuel
  | fuel + 1 => step doc (resolveAt doc fuel)

/-- Resolve a schema inside something else, naming what it declares after `name`. -/
def resolve (doc : Document) (fuel : Nat) (s : Schema) (name : String) : Resolve Resolution :=
  resolveAt doc fuel s name .nested

/-- Whether a schema of this shape declares a type of its own. -/
def declaresItself : Shape → Bool
  | .enumeration _ => true
  | .object => true
  | .oneOf _ => true
  | .allOf _ => true
  | _ => false

/-- Declare a component under the name that references to it use. A schema that declares no type
    of its own becomes an alias. -/
def declareComponent (doc : Document) (fuel : Nat) (key : String) (s : Schema) : Resolve (List Declaration) := do
  let name := Name.identifier key
  if declaresItself s.shape then
    return (← resolveAt doc fuel s name .component).declarations
  else if ← claim name (some s) then
    let inner ← resolveAt doc fuel s name .component
    let declared ← finish (.type (.aliasOf name inner.type s.documentation))
    return declared :: inner.declarations
  else return []

end Resolve

end ClientGen

import ClientGen.Model.Api
import ClientGen.Operation.Naming
import ClientGen.Resolve.Schema

/-
  ClientGen.Operation.Payloads — request bodies and responses.

  A payload has a name of its own: the schema is declared under it, or the name becomes an alias
  of whatever type the schema has. Only JSON payloads have a type.
  A response whose key does not start with `2` is an error.
-/

namespace ClientGen

/-- A response and whether it declares a JSON schema. -/
structure MappedResponse where
  response : Response
  hasJson : Bool
  deriving DecidableEq, Repr

namespace MappedResponse

/-- By code, with the default last. -/
def le (a b : MappedResponse) : Bool :=
  if a.response.isDefault == b.response.isDefault then a.response.sortKey ≤ b.response.sortKey
  else b.response.isDefault

/-- What is answered for a code that no response covers. -/
def unexpected : MappedResponse := ⟨⟨.default, 0, false, true, true, none, ""⟩, false⟩

/-- In order of their codes, with a default at the end whether declared or not. -/
def arrange (responses : List MappedResponse) : List MappedResponse :=
  let sorted := sortBy le responses
  if sorted.any (·.response.isDefault) then sorted else sorted ++ [unexpected]

/-- Whether this can be the result of the method. -/
def isSuccess (m : MappedResponse) : Bool :=
  !m.response.isDefault && 200 ≤ m.response.sortKey && m.response.sortKey < 300 && m.hasJson

/-- The type of the first success with a JSON payload. -/
def resultType? (responses : List MappedResponse) : Option TypeRef :=
  (responses.find? isSuccess).bind (·.response.type)

end MappedResponse

namespace Resolve

/-- Make `name` stand for the type of a schema. -/
def declareNamed (doc : Document) (fuel : Nat) (name : String) (s : Schema) : Resolve (List Declaration) := do
  let r ←
    match s.shape with
    | .reference target => pure (Resolution.of (referenceType doc target))
    | shape => if declaresItself shape then resolve doc fuel s name else resolve doc fuel s (name ++ "Items")
  if r.type = .named name then return r.declarations
  let declared ← declareAlias name r.type s.documentation
  return declared.toList ++ r.declarations

/-- The declarations of a response component. Without a JSON schema it is an empty struct, or raw
    bytes when it has other content. -/
def declareResponseComponent (doc : Document) (fuel : Nat) (key : String) (r : ResponseSpec) :
    Resolve (List Declaration) := do
  let name := responseComponentName key
  match r.jsonSchema? with
  | some s => declareNamed doc fuel name s
  | none =>
    let repr := if r.content.isEmpty then .struct [] else .rawBytes
    return (← declare (.type ⟨name, repr, Unicode.trimmed? r.description, false⟩)).toList

def requestBody (doc : Document) (fuel : Nat) (operationName : String) (op : Operation) :
    Resolve (List Declaration × Option Argument) := do
  match (op.requestBody.bind doc.requestBody?).bind (fun b => jsonSchemaOf? b.content) with
  | none => return ([], none)
  | some s =>
    let name := operationName ++ "Body"
    let declarations ← declareNamed doc fuel name s
    return (declarations, some ⟨"body", .named name⟩)

/-- The type of a response, and what had to be declared for it. -/
def responseType (doc : Document) (fuel : Nat) (operationName key : String) :
    RefOr ResponseSpec → Resolve (Option TypeRef × List Declaration)
  | .ref target => return (some (.named (responseComponentName (Name.lastSegment target))), [])
  | .item r =>
    match r.jsonSchema? with
    | none => return (none, [])
    | some s =>
      match s.shape with
      | .reference target => return (some (referenceType doc target), [])
      | _ => do
        let name := inlineResponseName operationName key s
        let declarations ← declareNamed doc fuel name s
        return (some (.named name), declarations)

def response (doc : Document) (fuel : Nat) (operationId operationName key : String) (r : RefOr ResponseSpec) :
    Resolve (MappedResponse × List Declaration) := do
  match Status.parse? key with
  | none => throw (.invalidStatus operationId key)
  | some status =>
    let spec := doc.response? r
    let (type, declarations) ← responseType doc fuel operationName key r
    let description := ((spec.bind (·.description)).map Unicode.trim).getD key
    return (⟨⟨status, status.sortKey, key.toList.head? != some '2', status == .default, false, type, description⟩,
      (spec.bind (·.jsonSchema?)).isSome⟩, declarations)

def responses (doc : Document) (fuel : Nat) (operationId operationName : String) :
    List (String × RefOr ResponseSpec) → Resolve (List MappedResponse × List Declaration)
  | [] => return ([], [])
  | (key, r) :: rest => do
    let (entry, declarations) ← response doc fuel operationId operationName key r
    let (more, moreDeclarations) ← responses doc fuel operationId operationName rest
    return (entry :: more, declarations ++ moreDeclarations)

end Resolve

end ClientGen

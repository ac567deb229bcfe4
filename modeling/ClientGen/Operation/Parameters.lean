import ClientGen.Model.Api
import ClientGen.Operation.Naming
import ClientGen.Query
import ClientGen.Resolve.Basic

/-
  ClientGen.Operation.Parameters — the parameters of an operation.

  - An operation's parameters come before those of its path, and the first of a name and
    location counts.
  - Every placeholder of the path becomes an argument, named by its camel form; two placeholders
    with one camel form share an argument. Without a parameter of its name it is text.
  - Query parameters become the fields of a params struct with a query encoder. Headers and
    cookies are not supported.
-/

namespace ClientGen

def ParameterSpec.samePlace (p q : ParameterSpec) : Bool := p.name == q.name && p.location == q.location

/-- Add parameters to those merged so far. -/
def mergeParametersFrom (doc : Document) (operationId : String) (merged : List ParameterSpec) :
    List (RefOr ParameterSpec) → List ParameterSpec × List Diagnostic
  | [] => (merged, [])
  | .item p :: rest =>
    mergeParametersFrom doc operationId (if merged.any p.samePlace then merged else merged ++ [p]) rest
  | .ref target :: rest =>
    match doc.parameterByRef? target with
    | some p => mergeParametersFrom doc operationId (if merged.any p.samePlace then merged else merged ++ [p]) rest
    | none =>
      let (merged, ds) := mergeParametersFrom doc operationId merged rest
      (merged, .unresolvedParameter operationId target :: ds)

def mergeParameters (doc : Document) (operationId : String) (own ofPath : List (RefOr ParameterSpec)) :
    List ParameterSpec × List Diagnostic :=
  mergeParametersFrom doc operationId [] (own ++ ofPath)

/-- The type of a parameter: that of its schema, or text. -/
def ParameterSpec.type (doc : Document) (subject : String) (p : ParameterSpec) : TypeRef × List Diagnostic :=
  match p.schema with
  | some s => mapType doc subject s
  | none => (.string, [])

def placeholderType (doc : Document) (operationId : String) (parameters : List ParameterSpec)
    (placeholder argument : String) : TypeRef × List Diagnostic :=
  match parameters.find? (fun p => p.location == .path && p.name == placeholder) with
  | some p => p.type doc argument
  | none => (.string, [.missingPathParameter operationId placeholder])

/-- Arguments for the placeholders, in order, leaving out the names already `taken`. -/
def pathArguments (doc : Document) (operationId : String) (parameters : List ParameterSpec) (taken : List String) :
    List String → List Argument × List Diagnostic
  | [] => ([], [])
  | placeholder :: rest =>
    let name := Name.camel placeholder
    if taken.contains name then pathArguments doc operationId parameters taken rest
    else
      let (t, ds) := placeholderType doc operationId parameters placeholder name
      let (more, moreDs) := pathArguments doc operationId parameters (name :: taken) rest
      (⟨name, t⟩ :: more, ds ++ moreDs)

/-- Fields for the query parameters, in order. -/
def queryFields (doc : Document) (operationId operationName : String) :
    List ParameterSpec → List Field × List Diagnostic
  | [] => ([], [])
  | p :: rest =>
    let (fields, ds) := queryFields doc operationId operationName rest
    match p.location with
    | .path => (fields, ds)
    | .query =>
      let name := Name.identifier p.name
      let (t, own) := p.type doc (operationName ++ "Params." ++ name)
      (⟨name, t, !p.required, p.name, Unicode.trimmed? p.description⟩ :: fields, own ++ ds)
    | .header | .cookie => (fields, .unsupportedLocation operationId p.location.name p.name :: ds)

namespace Resolve

/-- The params struct of an operation and its query encoder. -/
def queryParams (doc : Document) (operationId operationName : String) (parameters : List ParameterSpec) :
    Resolve (List Declaration × Option Argument) := do
  let (fields, ds) := queryFields doc operationId operationName parameters
  reportAll ds
  if fields.isEmpty then return ([], none)
  let typeName := operationName ++ "Params"
  let fields := sortedFields fields
  let encoder := QueryEncoder.ofFields (← get).registry typeName fields
  let documentation := "Query parameters for " ++ operationName ++ "."
  let params ← declare (.type ⟨typeName, .struct fields, some documentation, false⟩)
  let declarations :=
    match params with
    | some d => [d, .queryEncoder encoder]
    | none => []
  return (declarations, some ⟨"params", .named typeName⟩)

end Resolve

end ClientGen

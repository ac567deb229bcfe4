import ClientGen.Operation.Parameters
import ClientGen.Operation.Payloads

/-
  ClientGen.Operation.Mapping — an operation as a method and the declarations it brings along.
-/

namespace ClientGen

structure MappedOperation where
  method : Method
  bodyTypes : List Declaration
  paramTypes : List Declaration
  /-- Declarations of inline responses. -/
  responseTypes : List Declaration
  /-- The response components in use, first use first. -/
  responseRefs : List String
  /-- The declared names of error responses. -/
  errorTypes : List String
  deriving DecidableEq, Repr

/-- The components that responses refer to, by the last segment of the reference. -/
def responseRefsOf (responses : KeyMap (RefOr ResponseSpec)) : List String :=
  firstByKey id (responses.filterMap fun (_, r) =>
    match r with
    | .ref target => some (Name.lastSegment target)
    | .item _ => none)

def errorTypesOf (responses : List Response) : List String :=
  (responses.filter (·.isError)).filterMap fun r => r.type.bind TypeRef.declaredName?

namespace Resolve

/-- `ofPath` are the parameters of the path, which those of the operation override. -/
def mapOperation (doc : Document) (fuel : Nat) (httpMethod : HttpMethod) (path : String) (op : Operation)
    (ofPath : List (RefOr ParameterSpec)) : Resolve MappedOperation := do
  let operationId := op.idOr httpMethod path
  let operationName := Name.proper operationId
  let template := PathTemplate.ofPath path
  let (parameters, ds) := mergeParameters doc operationId op.parameters ofPath
  reportAll ds
  let (pathParams, ds) := pathArguments doc operationId parameters [] template.placeholders
  reportAll ds
  let (paramTypes, queryParams) ← queryParams doc operationId operationName parameters
  let (bodyTypes, body) ← requestBody doc fuel operationName op
  let (mapped, responseTypes) ← responses doc fuel operationId operationName op.responses
  let arranged := MappedResponse.arrange mapped
  let responses := arranged.map (·.response)
  let method : Method :=
    { operationId
      name := op.methodNameOverride?.getD operationName
      httpMethod
      path := template
      pathParams
      queryParams
      body
      hasBody := op.requestBody.isSome
      responseType := MappedResponse.resultType? arranged
      responses
      documentation := op.documentation
      deprecated := op.deprecated }
  return ⟨method, bodyTypes, paramTypes, responseTypes, responseRefsOf op.responses, errorTypesOf responses⟩

end Resolve

end ClientGen

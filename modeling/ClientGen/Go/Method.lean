import ClientGen.Go.Declare
import ClientGen.Go.Identifier
import ClientGen.Model.Api

/-
  ClientGen.Go.Method — methods of the generated client.

  A method sends the request and then goes through its responses as the cases of a switch, in
  order. The first success whose type is the result is decoded and returned. An error response
  returns its type, when that is declared as an error, or else the general API error.
-/

namespace ClientGen.Go

def methodConstant : HttpMethod → String
  | .delete => "http.MethodDelete"
  | .get => "http.MethodGet"
  | .head => "http.MethodHead"
  | .options => "http.MethodOptions"
  | .patch => "http.MethodPatch"
  | .post => "http.MethodPost"
  | .put => "http.MethodPut"
  | .trace => "http.MethodTrace"

def caseLabel : Status → String
  | .code n => "case resp.StatusCode == " ++ toString n ++ ":"
  | .range n => "case resp.StatusCode >= " ++ toString n ++ " && resp.StatusCode < " ++ toString (n + 100) ++ ":"
  | .default => "default:"

/-- Read the payload into a new variable and return that. -/
def decodeLines (name goType zero result : String) : List String :=
  ["var " ++ name ++ " " ++ goType,
    "if err := decodeJSON(resp.Body, &" ++ name ++ "); err != nil \x7b",
    "\treturn " ++ zero ++ "err",
    "\x7d",
    result]

def apiError (zero : String) : String :=
  "return " ++ zero ++ "&APIError\x7bStatusCode: resp.StatusCode, Body: resp.Body\x7d"

/-- The declaration that an error response returns. -/
def errorDeclaration? (m : ApiModel) (r : Response) : Option Declaration :=
  ((r.type.bind TypeRef.declaredName?).bind m.declaration?).filter (·.isError)

def errorLines (zero : String) (d : Declaration) : List String :=
  match d with
  | .type ⟨name, .struct [], _, _⟩ => ["return " ++ zero ++ "&" ++ name ++ "\x7b\x7d"]
  | .type ⟨name, .rawBytes, _, _⟩ => ["e := " ++ name ++ "(resp.Body)", "return " ++ zero ++ "&e"]
  | d => decodeLines "e" d.name zero ("return " ++ zero ++ "&e")

def caseLines (m : ApiModel) (zero : String) (primary : Bool) (r : Response) : List String :=
  if primary then decodeLines "out" ((r.type.map typeName).getD "") zero "return &out, nil"
  else if r.isUnexpected then
    ["if resp.StatusCode >= 200 && resp.StatusCode < 300 \x7b", "\treturn " ++ zero ++ "nil", "\x7d", apiError zero]
  else if !r.isError then ["return " ++ zero ++ "nil"]
  else
    match errorDeclaration? m r with
    | none => [apiError zero]
    | some d => errorLines zero d

/-- Whether a response can hold the result of the method. -/
def isPrimary (m : Method) (r : Response) : Bool :=
  !r.isDefault && 200 ≤ r.sortKey && r.sortKey < 300 && r.type.isSome && r.type == m.responseType

/-- The cases of a method; the first response that can hold the result does. -/
def cases (model : ApiModel) (m : Method) (zero : String) : List Case :=
  let primary := m.responses.findIdx? (isPrimary m)
  m.responses.zipIdx.map fun (r, i) => ⟨caseLabel r.status, caseLines model zero (primary == some i) r⟩

def pathPartText : PathPart → String
  | .literal text => literal text
  | .param argument => "pathParam(" ++ argumentName argument ++ ")"

def pathExpression (t : PathTemplate) : String :=
  match t.parts with
  | [] => literal "/"
  | parts => " + ".intercalate (parts.map pathPartText)

def methodDoc (m : Method) : List String :=
  [m.name ++ " calls " ++ m.httpMethod.upperName ++ " " ++ m.path.raw ++ "."] ++
    (match m.documentation with
      | none => []
      | some d => "" :: Text.commentLines d) ++
    if m.deprecated then ["", "Deprecated: the API marks this operation as deprecated."] else []

/-- The name and type of every argument after the context. -/
def arguments (m : Method) : List (String × String) :=
  m.pathParams.map (fun a => (argumentName a.name, typeName a.type)) ++
    (m.queryParams.toList.map fun a => ("params", "*" ++ typeName a.type)) ++
    match m.body with
    | some a => [("body", typeName a.type)]
    | none => if m.hasBody then [("body", "[]byte")] else []

def zeroText (m : Method) : String := if m.responseType.isSome then "nil, " else ""

def method (model : ApiModel) (m : Method) : GoMethod :=
  { name := m.name
    doc := methodDoc m
    arguments := String.join ((arguments m).map fun (name, type) => ", " ++ name ++ " " ++ type)
    result := match m.responseType with
      | some t => "(*" ++ typeName t ++ ", error)"
      | none => "error"
    zero := zeroText m
    httpMethod := methodConstant m.httpMethod
    path := pathExpression m.path
    query := if m.queryParams.isSome then "params.Values()" else "nil"
    body := if m.body.isSome || m.hasBody then "body" else "nil"
    cases := cases model m (zeroText m) }

def methodImports (m : Method) : List String :=
  m.pathParams.flatMap (fun a => typeImports (typeName a.type)) ++
    (m.responseType.toList.flatMap fun t => typeImports (typeName t))

end ClientGen.Go

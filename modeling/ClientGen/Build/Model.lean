import ClientGen.Build.Errors
import ClientGen.Build.Reach
import ClientGen.Operation.Mapping

/-
  ClientGen.Build.Model — the model of a document.

  Components are declared first, then operations are mapped, path by path and method by method.
  Each tag is a grouping. Tags are taken in the order of their names: a component goes to the
  first tag that reaches it, a response component to the first tag that uses it, and what is
  left is shared.
-/

namespace ClientGen

/-- The names stamped onto the generated package. -/
structure Config where
  package : String
  service : String
  deriving DecidableEq, Repr

/-- A mapped operation under its tag, with the components it reaches. -/
structure TaggedOperation where
  tag : String
  schemas : List String
  mapped : MappedOperation

namespace Resolve

def calendarHelpers : List TypeDecl :=
  [.aliasOf "Date" .date (some "Date is a calendar date without time, encoded as YYYY-MM-DD."),
    .aliasOf "Time" .time (some "Time is a time of day without date, encoded as HH:MM:SS.")]

def declareAll : List TypeDecl → Resolve (List Declaration)
  | [] => return []
  | d :: rest => do
    let declared ← declare (.type d)
    return declared.toList ++ (← declareAll rest)

def declareComponents (doc : Document) (fuel : Nat) : KeyMap Schema → Resolve (KeyMap (List Declaration))
  | [] => return []
  | (key, s) :: rest => do
    let ds ← declareComponent doc fuel key s
    return (key, ds) :: (← declareComponents doc fuel rest)

def mapPathOperations (doc : Document) (fuel : Nat) (path : String) (item : PathItem) :
    List (HttpMethod × Operation) → Resolve (List TaggedOperation)
  | [] => return []
  | (method, op) :: rest => do
    let mapped ← mapOperation doc fuel method path op item.parameters
    return ⟨op.tag, doc.operationReach op item.parameters, mapped⟩ :: (← mapPathOperations doc fuel path item rest)

/-- A path item given as a reference is not followed. -/
def mapPaths (doc : Document) (fuel : Nat) : KeyMap PathItem → Resolve (List TaggedOperation)
  | [] => return []
  | (path, item) :: rest => do
    match item.reference with
    | some reference =>
      report (.unresolvedPath path reference)
      mapPaths doc fuel rest
    | none =>
      let operations ← mapPathOperations doc fuel path item item.operations
      return operations ++ (← mapPaths doc fuel rest)

/-- The declarations of the response components among `keys`. -/
def declareResponses (doc : Document) (fuel : Nat) : List String → Resolve (List Declaration)
  | [] => return []
  | key :: rest => do
    let ds ←
      match KeyMap.get? doc.components.responses key with
      | some r => declareResponseComponent doc fuel key r
      | none => pure []
    return ds ++ (← declareResponses doc fuel rest)

end Resolve

/-- The tags in use, each once, in order. -/
def tagsOf (operations : List TaggedOperation) : List String :=
  KeyMap.keys (KeyMap.ofList (operations.map fun o => (o.tag, ())))

/-- The components and response components that no grouping has taken so far. -/
structure Unclaimed where
  schemas : KeyMap (List Declaration)
  responses : List String

namespace Resolve

def grouping (doc : Document) (fuel : Nat) (left : Unclaimed) (tag : String) (operations : List TaggedOperation) :
    Resolve (Grouping × Unclaimed) := do
  let reached := operations.flatMap (·.schemas)
  let used := firstByKey id (operations.flatMap (·.mapped.responseRefs))
  let own := left.schemas.filter fun (key, _) => reached.contains key
  let responseTypes ← declareResponses doc fuel (used.filter left.responses.contains)
  let declarations := own.flatMap (·.2) ++ operations.flatMap (·.mapped.bodyTypes) ++
    operations.flatMap (·.mapped.paramTypes) ++ operations.flatMap (·.mapped.responseTypes) ++ responseTypes
  let description := (doc.tags.find? (·.name = tag)).bind (·.description)
  return (⟨tag, Name.proper tag, description, declarations, operations.map (·.mapped.method)⟩,
    ⟨left.schemas.filter fun (key, _) => !reached.contains key, left.responses.filter (!used.contains ·)⟩)

def groupings (doc : Document) (fuel : Nat) (operations : List TaggedOperation) (left : Unclaimed) :
    List String → Resolve (List Grouping × Unclaimed)
  | [] => return ([], left)
  | tag :: rest => do
    let (g, left) ← grouping doc fuel left tag (operations.filter (·.tag = tag))
    let (more, left) ← groupings doc fuel operations left rest
    return (g :: more, left)

end Resolve

def Grouping.le (a b : Grouping) : Bool := if a.name = b.name then !(b.tag < a.tag) else a.name < b.name

namespace Resolve

def buildModel (doc : Document) (config : Config) (fuel : Nat) : Resolve ApiModel := do
  let helpers ← declareAll calendarHelpers
  let components ← declareComponents doc fuel doc.components.schemas
  let operations ← mapPaths doc fuel doc.paths
  let (groups, left) ←
    groupings doc fuel operations ⟨components, doc.components.responses.keys⟩ (tagsOf operations)
  let groups := sortBy Grouping.le groups
  let responseTypes ← declareResponses doc fuel left.responses
  let shared := helpers ++ left.schemas.flatMap (·.2) ++ responseTypes
  let errorTypes := operations.flatMap (·.mapped.errorTypes)
  let errors := followErrors (namedAliases (groups.flatMap (·.declarations) ++ shared)) errorTypes errorTypes
  return {
    package := config.package
    service := config.service
    title := doc.info.title
    version := doc.info.version
    description := doc.info.description
    groupings := groups.map fun g => { g with declarations := markErrors errors g.declarations }
    shared := markErrors errors shared
    groupingNames := groups.map (·.name) }

end Resolve

/-- The model of a document and everything that degraded, or why there is none. -/
def build (fuel : Nat) (doc : Document) (config : Config) : Except BuildError (ApiModel × List Diagnostic) :=
  match (Resolve.buildModel doc config fuel).run Session.start with
  | .ok model s => .ok (model, s.diagnostics)
  | .error e _ => .error e

/-- Fuel for documents as they are written: how deep schemas may nest once `allOf` is expanded. -/
def defaultFuel : Nat := 4096

end ClientGen

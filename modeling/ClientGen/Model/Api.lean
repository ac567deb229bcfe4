import ClientGen.Model.Declaration
import ClientGen.Model.Path
import ClientGen.Model.Status
import ClientGen.Document.Basic

/-
  ClientGen.Model.Api — methods, groupings and the whole model of a client library.

  A grouping holds the operations of one tag together with the declarations that its operations
  were the first to need; everything else is shared.
-/

namespace ClientGen

structure Argument where
  name : String
  type : TypeRef
  deriving DecidableEq, Repr

structure Response where
  status : Status
  sortKey : Nat
  isError : Bool
  isDefault : Bool
  /-- Added for an operation that declares no `default`. -/
  isUnexpected : Bool
  type : Option TypeRef
  description : String
  deriving DecidableEq, Repr

structure Method where
  operationId : String
  name : String
  httpMethod : HttpMethod
  path : PathTemplate
  pathParams : List Argument
  queryParams : Option Argument
  body : Option Argument
  hasBody : Bool
  responseType : Option TypeRef
  responses : List Response
  documentation : Option String
  deprecated : Bool
  deriving DecidableEq, Repr

structure Grouping where
  tag : String
  name : String
  description : Option String
  declarations : List Declaration
  methods : List Method
  deriving DecidableEq, Repr

structure ApiModel where
  package : String
  service : String
  title : String
  version : String
  description : Option String
  /-- Ordered by name, then tag. -/
  groupings : List Grouping
  /-- Declarations that no grouping owns. -/
  shared : List Declaration
  groupingNames : List String
  deriving DecidableEq, Repr

namespace ApiModel

def grouping? (m : ApiModel) (name : String) : Option Grouping := m.groupings.find? (·.name = name)

def declarations (m : ApiModel) : List Declaration := m.groupings.flatMap (·.declarations) ++ m.shared

def declaration? (m : ApiModel) (name : String) : Option Declaration := m.declarations.find? (·.name = name)

def methods (m : ApiModel) : List Method := m.groupings.flatMap (·.methods)

end ApiModel

end ClientGen

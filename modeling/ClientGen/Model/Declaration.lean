import ClientGen.Model.TypeRef
import ClientGen.Number.Shortest

/-
  ClientGen.Model.Declaration — the declarations of the generated library.

  Types, enums and sum types have names of their own; a query encoder belongs to the struct whose
  name it carries. Only types and sum types can be errors.
-/

namespace ClientGen

structure Field where
  /-- Exported identifier. -/
  name : String
  type : TypeRef
  optional : Bool
  /-- The property on the wire. -/
  key : String
  documentation : Option String
  deriving DecidableEq, Repr

inductive TypeRepr where
  | aliasOf (target : TypeRef)
  | struct (fields : List Field)
  | map (value : TypeRef)
  /-- Undecoded bytes. -/
  | rawBytes
  deriving DecidableEq, Repr

structure TypeDecl where
  name : String
  repr : TypeRepr
  documentation : Option String
  isError : Bool
  deriving DecidableEq, Repr

inductive Literal where
  | text (s : String)
  | integer (n : Int)
  | float (x : Double)
  deriving DecidableEq, Repr

def Literal.display : Literal → String
  | .text s => s
  | .integer n => toString n
  | .float x => x.toPlain

structure Variant where
  name : String
  value : Literal
  deriving DecidableEq, Repr

structure EnumDecl where
  name : String
  scalar : Scalar
  /-- Ordered by name. -/
  variants : List Variant
  documentation : Option String
  deriving DecidableEq, Repr

structure SumVariant where
  label : String
  type : TypeRef
  deriving DecidableEq, Repr

structure SumDecl where
  name : String
  variants : List SumVariant
  documentation : Option String
  isError : Bool
  /-- The payload is kept raw and the caller picks the variant. -/
  decodeUnimplemented : Bool
  deriving DecidableEq, Repr

/-- The builtin type through which a value of a named type becomes text. -/
inductive CastTarget where
  | scalar (of : Scalar)
  | timestamp
  | date
  | time
  deriving DecidableEq, Repr

/-- How a query value becomes text. -/
inductive ValueFormat where
  | text
  | timestamp
  | date
  | time
  | integer
  | boolean
  | float
  | cast (via : CastTarget)
  deriving DecidableEq, Repr

structure Conversion where
  key : String
  field : String
  /-- One pair for each item. -/
  repeated : Bool
  required : Bool
  /-- The type of each formatted value. -/
  element : TypeRef
  format : ValueFormat
  deriving DecidableEq, Repr

structure QueryEncoder where
  typeName : String
  conversions : List Conversion
  deriving DecidableEq, Repr

inductive Declaration where
  | type (d : TypeDecl)
  | enumeration (d : EnumDecl)
  | sum (d : SumDecl)
  | queryEncoder (d : QueryEncoder)
  deriving DecidableEq, Repr

namespace TypeDecl

def aliasOf (name : String) (target : TypeRef) (documentation : Option String) : TypeDecl :=
  ⟨name, .aliasOf target, documentation, false⟩

def fields (d : TypeDecl) : List Field :=
  match d.repr with
  | .struct fields => fields
  | _ => []

end TypeDecl

namespace Declaration

def name : Declaration → String
  | .type d => d.name
  | .enumeration d => d.name
  | .sum d => d.name
  | .queryEncoder d => d.typeName

def isError : Declaration → Bool
  | .type d => d.isError
  | .sum d => d.isError
  | _ => false

def markError : Declaration → Declaration
  | .type d => .type { d with isError := true }
  | .sum d => .sum { d with isError := true }
  | d => d

/-- The name that an alias of a named type stands for. -/
def aliasOfNamed? : Declaration → Option (String × String)
  | .type ⟨name, .aliasOf (.named target), _, _⟩ => some (name, target)
  | _ => none

end Declaration

end ClientGen

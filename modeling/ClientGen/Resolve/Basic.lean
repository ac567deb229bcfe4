import ClientGen.Diagnostic
import ClientGen.Name.Identifier
import ClientGen.Name.NameSet
import ClientGen.Registry
import ClientGen.Sorted
import ClientGen.TypeMapping

/-
  ClientGen.Resolve.Basic — the state in which schemas are resolved.

  A session holds the registry of names and the diagnostics so far. Steps that fail leave the
  session as it was at the failure. Resolution follows references through `allOf`, so it is
  bounded by fuel: running out is an outcome of its own, apart from every answer.
-/

namespace ClientGen

structure Session where
  registry : Registry
  /-- In the order in which they were found. -/
  diagnostics : List Diagnostic

def Session.start : Session := ⟨[], []⟩

inductive BuildError where
  | outOfFuel
  /-- A response key that is no status. -/
  | invalidStatus (operation key : String)
  deriving DecidableEq, Repr

def BuildError.message : BuildError → String
  | .outOfFuel => "Schemas nest without end"
  | .invalidStatus operation key => "Invalid status code " ++ Text.quoted key ++ " in operation " ++ operation

abbrev Resolve := EStateM BuildError Session

/-- The type of a schema and the declarations made on the way, parents before children. -/
structure Resolution where
  type : TypeRef
  declarations : List Declaration
  deriving DecidableEq, Repr

def Resolution.of (t : TypeRef) : Resolution := ⟨t, []⟩

/-- Where a schema stands, which decides how an `allOf` is treated. -/
inductive Position where
  | component
  | nested
  /-- A property of an `allOf` merge, or the items of one. -/
  | allOfProperty
  deriving DecidableEq, Repr

/-- How the schemas inside a schema are resolved: under a name, at a position. -/
abbrev Resolver := Schema → String → Position → Resolve Resolution

namespace Resolve

def report (d : Diagnostic) : Resolve Unit :=
  modify fun s => { s with diagnostics := s.diagnostics ++ [d] }

def reportAll (ds : List Diagnostic) : Resolve Unit :=
  modify fun s => { s with diagnostics := s.diagnostics ++ ds }

/-- Claim a name. Only a fresh claim lets the caller declare it. -/
def claim (name : String) (origin : Option Schema) : Resolve Bool := do
  let s ← get
  match s.registry.claim name origin with
  | (.fresh, r) => set { s with registry := r }; return true
  | (.existing, _) => return false
  | (.collision, _) => report (.nameCollision name); return false

/-- Record a declaration that was just built. -/
def finish (d : Declaration) : Resolve Declaration := do
  modify fun s => { s with registry := s.registry.record d }
  return d

/-- Declare something that stands for no schema, if its name is free. -/
def declare (d : Declaration) : Resolve (Option Declaration) := do
  if ← claim d.name none then return some (← finish d) else return none

def declareAlias (name : String) (target : TypeRef) (documentation : Option String) :
    Resolve (Option Declaration) :=
  declare (.type (.aliasOf name target documentation))

/-- The type of a schema where nothing may be declared. -/
def mapType (doc : Document) (subject : String) (s : Schema) : Resolve TypeRef := do
  let (t, ds) := ClientGen.mapType doc subject s
  reportAll ds
  return t

/-- Claim `name` for a schema, and build its declaration unless the name is taken. -/
def declaring (name : String) (s : Schema) (build : Resolve (Declaration × List Declaration)) :
    Resolve Resolution := do
  if ← claim name (some s) then
    let (d, nested) ← build
    return ⟨.named name, (← finish d) :: nested⟩
  else return .of (.named name)

/-- Fields for properties, in their order, and the declarations of their inline types, which are
    named after the parent and the property. -/
def structFields (resolve : Resolver) (isRequired : String → Bool) (parent : String) (position : Position) :
    List (String × Schema) → Resolve (List Field × List Declaration)
  | [] => return ([], [])
  | (key, property) :: rest => do
    let name := Name.identifier key
    let r ← resolve property (parent ++ name) position
    let (fields, declarations) ← structFields resolve isRequired parent position rest
    return (⟨name, r.type, !isRequired key, key, property.documentation⟩ :: fields, r.declarations ++ declarations)

/-- The first field of every name, in the order of names. -/
def sortedFields (fields : List Field) : List Field := sortByText (·.name) (firstByKey (·.name) fields)

end Resolve

end ClientGen

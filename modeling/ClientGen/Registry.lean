import ClientGen.Document.Schema
import ClientGen.Model.Declaration

/-
  ClientGen.Registry — the names declared so far and what they stand for.

  A name is claimed before its declaration is built and belongs to the first claim. Claiming it
  again for the same schema is a reuse; anything else is a collision. A claim without a schema
  is never a reuse.
  Once a declaration is built, the registry records the scalar it wraps and the type it aliases,
  so that a named type can be followed to what it stands for.
-/

namespace ClientGen

structure RegistryEntry where
  /-- The schema of the first claim; synthesized types have none. -/
  origin : Option Schema
  scalar : Option Scalar
  aliasOf : Option TypeRef

inductive Claim where
  | fresh
  | existing
  | collision
  deriving DecidableEq, Repr

abbrev Registry := KeyMap RegistryEntry

namespace Registry

def sameOrigin (entry : RegistryEntry) (origin : Option Schema) : Bool :=
  match entry.origin, origin with
  | some a, some b => a.same b
  | _, _ => false

def claim (r : Registry) (name : String) (origin : Option Schema) : Claim × Registry :=
  match KeyMap.get? r name with
  | none => (.fresh, KeyMap.insert name ⟨origin, none, none⟩ r)
  | some entry => if sameOrigin entry origin then (.existing, r) else (.collision, r)

/-- What a declaration adds to the entry of its name. -/
def recorded (d : Declaration) (entry : RegistryEntry) : RegistryEntry :=
  match d with
  | .enumeration e => { entry with scalar := some e.scalar }
  | .type ⟨_, .aliasOf (.scalar k), _, _⟩ => { entry with scalar := some k, aliasOf := some (.scalar k) }
  | .type ⟨_, .aliasOf target, _, _⟩ => { entry with aliasOf := some target }
  | _ => entry

def record (r : Registry) (d : Declaration) : Registry := KeyMap.modify d.name (recorded d) r

def aliasOf? (r : Registry) (name : String) : Option TypeRef := (KeyMap.get? r name).bind (·.aliasOf)

def scalarOf? (r : Registry) (name : String) : Option Scalar := (KeyMap.get? r name).bind (·.scalar)

/-- The scalar of the first name that has one, looking at `steps` names along the aliases. -/
def followScalar (r : Registry) (name : String) : Nat → Option Scalar
  | 0 => none
  | steps + 1 =>
    match r.scalarOf? name with
    | some k => some k
    | none =>
      match r.aliasOf? name with
      | some (.named next) => followScalar r next steps
      | _ => none

/-- The scalar that a named type wraps. A chain of aliases has no more links than there are names. -/
def underlyingScalar? (r : Registry) (name : String) : Option Scalar := followScalar r name r.length

/-- The end of the chain of named aliases, if at most `steps` types lie on it. -/
def followAlias (r : Registry) (t : TypeRef) : Nat → Option TypeRef
  | 0 => none
  | steps + 1 =>
    match t with
    | .named name =>
      match r.aliasOf? name with
      | some target => followAlias r target steps
      | none => some t
    | t => some t

/-- What a type stands for: the end of its alias chain, or the type itself when the chain is
    a cycle. -/
def resolveAlias (r : Registry) (t : TypeRef) : TypeRef := (followAlias r t (r.length + 1)).getD t

end Registry

end ClientGen

import ClientGen.Proofs.Run.Schema

/-
  ClientGen.Proofs.Run.Type — the type of a schema, apart from what it declares.

  Names decide types: a schema that declares itself stands for its name whether the name was
  free or taken. So the type that resolving gives depends on the schema, the name and the
  position alone, not on the session and not on the fuel (`type_of_runs`). Only a property of a
  merge stands for `any` where an `allOf` could declare a type.
-/

namespace ClientGen

def typeAt (doc : Document) (sch : Schema) (name : String) (position : Position) : TypeRef :=
  match h : sch.shape with
  | .reference target => referenceType doc target
  | .enumeration _ => .named (Name.singular name)
  | .primitive p => scalarType p sch.format
  | .array none => .array .any
  | .array (some items) =>
    have : sizeOf items < sizeOf sch := Schema.sizeOf_lt_of_items (Schema.items_of_shape h)
    .array (typeAt doc items (Name.singular name) (Resolve.itemPosition position))
  | .allOf [branch] =>
    have : sizeOf branch < sizeOf sch := Schema.sizeOf_lt_of_allOf (Schema.allOf_of_shape h) (by simp)
    if position = .component then .named name else typeAt doc branch name position
  | .allOf _ => if position = .allOfProperty then .any else .named name
  | .object | .oneOf _ => .named name
  | .anyOf _ | .unknown => .any
termination_by sizeOf sch

theorem typeAt_eq (doc : Document) (sch : Schema) (name : String) (position : Position) :
    typeAt doc sch name position = match sch.shape with
      | .reference target => referenceType doc target
      | .enumeration _ => .named (Name.singular name)
      | .primitive p => scalarType p sch.format
      | .array none => .array .any
      | .array (some items) => .array (typeAt doc items (Name.singular name) (Resolve.itemPosition position))
      | .allOf [branch] => if position = .component then .named name else typeAt doc branch name position
      | .allOf _ => if position = .allOfProperty then .any else .named name
      | .object | .oneOf _ => .named name
      | .anyOf _ | .unknown => .any := by
  rw [typeAt]
  split <;> simp_all

namespace Resolve

variable {doc : Document} {s s' : Session}

theorem type_of_declaring {name : String} {sch : Schema} {build : Resolve (Declaration × List Declaration)}
    {r : Resolution} (h : Runs (declaring name sch build) s r s') : r.type = .named name := by
  rcases runs_declaring h with ⟨_, _, _, -, -, rfl, -⟩ | ⟨-, rfl⟩ <;> rfl

theorem type_of_object {resolve : Resolver} {sch : Schema} {name : String} {r : Resolution}
    (h : Runs (object resolve sch name) s r s') : r.type = .named name := by
  unfold object at h
  split at h <;> exact type_of_declaring h

theorem type_of_runs {fuel : Nat} {sch : Schema} {name : String} {position : Position} {r : Resolution}
    (h : Runs (resolveAt doc fuel sch name position) s r s') : r.type = typeAt doc sch name position := by
  induction fuel generalizing sch name position s r s' with
  | zero => cases h
  | succ fuel ih =>
    rw [resolveAt] at h
    unfold step at h
    split at h <;> rename_i hshape <;> rw [typeAt_eq, hshape]
    · simp only [runs_pure] at h
      obtain ⟨rfl, -⟩ := h
      rfl
    · exact type_of_declaring h
    · simp only [runs_pure] at h
      obtain ⟨rfl, -⟩ := h
      rfl
    · simp only [runs_pure] at h
      obtain ⟨rfl, -⟩ := h
      rfl
    · simp only [runs_bind, runs_pure] at h
      obtain ⟨r, _, hr, rfl, -⟩ := h
      exact congrArg TypeRef.array (ih hr)
    · exact type_of_object h
    · exact type_of_declaring h
    · simp only [runs_bind, runs_report, runs_pure] at h
      obtain ⟨_, _, -, rfl, -⟩ := h
      rfl
    · split at h
      · rw [type_of_declaring h]
        split <;> simp_all
      · rename_i hposition
        exact (ih h).trans (if_neg hposition).symm
      · rw [type_of_declaring h]
        split <;> simp_all
      · simp only [runs_bind, runs_report, runs_pure] at h
        obtain ⟨_, _, -, rfl, -⟩ := h
        split <;> simp_all [Resolution.of]
    · simp only [runs_bind, runs_report, runs_pure] at h
      obtain ⟨_, _, -, rfl, -⟩ := h
      rfl

/-- The fields for properties, in their order. -/
theorem fields_of_structFields {fuel : Nat} {isRequired : String → Bool} {parent : String} {position : Position}
    {properties : List (String × Schema)} {fields : List Field} {ds : List Declaration}
    (h : Runs (structFields (resolveAt doc fuel) isRequired parent position properties) s (fields, ds) s') :
    fields = properties.map fun (key, property) =>
      ⟨Name.identifier key, typeAt doc property (parent ++ Name.identifier key) position, !isRequired key, key,
        property.documentation⟩ := by
  induction properties generalizing s fields ds with
  | nil =>
    simp only [structFields, runs_pure] at h
    cases h.1
    rfl
  | cons e rest ih =>
    obtain ⟨key, property⟩ := e
    obtain ⟨r, t, more, moreDs, hr, hrest, rfl, -⟩ := runs_structFields_cons h
    rw [ih hrest, type_of_runs hr]
    rfl

end Resolve

end ClientGen

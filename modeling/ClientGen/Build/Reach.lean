import ClientGen.Resolve.Merge

/-
  ClientGen.Build.Reach — the components that an operation reaches.

  A schema reaches what its references name, and what those components reach in turn. A
  reference hides the keywords beside it. Names without a component are reached too, and lead
  nowhere.
-/

namespace ClientGen

namespace Schema

/-- The schemas inside a schema. -/
def children (s : Schema) : List Schema :=
  s.items.toList ++ s.propertyList.map (·.2) ++ s.additionalSchema.toList ++ s.allOf.getD [] ++ s.oneOf.getD [] ++
    s.anyOf.getD []

theorem mem_children_of_items {s i : Schema} (h : s.items = some i) : i ∈ s.children := by simp [children, h]

theorem mem_children_of_property {s : Schema} {key : String} {property : Schema} (h : (key, property) ∈ s.propertyList) :
    property ∈ s.children := by
  have := List.mem_map_of_mem (f := fun e : String × Schema => e.2) h
  simp only [children, List.mem_append]
  exact .inl (.inl (.inl (.inl (.inr this))))

theorem mem_children_of_additional {s a : Schema} (h : s.additionalSchema = some a) : a ∈ s.children := by
  simp [children, h]

theorem mem_children_of_allOf {s b : Schema} {branches : List Schema} (h : s.allOf = some branches)
    (hb : b ∈ branches) : b ∈ s.children := by simp [children, h, hb]

theorem mem_children_of_oneOf {s b : Schema} {branches : List Schema} (h : s.oneOf = some branches)
    (hb : b ∈ branches) : b ∈ s.children := by simp [children, h, hb]

theorem sizeOf_lt_of_mem_children {s c : Schema} (h : c ∈ s.children) : sizeOf c < sizeOf s := by
  simp only [children, List.mem_append, Option.mem_toList, List.mem_map] at h
  rcases h with ((((h | ⟨e, he, rfl⟩) | h) | h) | h) | h
  · exact sizeOf_lt_of_items h
  · obtain ⟨_, _, _, _, _, _, properties, _, _, _, _, _, _, _, _⟩ := s
    cases properties with
    | none => simp [propertyList] at he
    | some ps =>
      have := List.sizeOf_lt_of_mem (show e ∈ ps from he)
      cases e
      simp only [mk.sizeOf_spec, Option.some.sizeOf_spec, Prod.mk.sizeOf_spec] at this ⊢
      omega
  · exact sizeOf_lt_of_additionalSchema h
  all_goals
    obtain ⟨_, _, _, _, _, _, _, _, _, _, allOf, oneOf, anyOf, _, _⟩ := s
    simp only at h
  · cases allOf with
    | none => simp at h
    | some bs =>
      have := List.sizeOf_lt_of_mem (show c ∈ bs from h)
      simp only [mk.sizeOf_spec, Option.some.sizeOf_spec]; omega
  · cases oneOf with
    | none => simp at h
    | some bs =>
      have := List.sizeOf_lt_of_mem (show c ∈ bs from h)
      simp only [mk.sizeOf_spec, Option.some.sizeOf_spec]; omega
  · cases anyOf with
    | none => simp at h
    | some bs =>
      have := List.sizeOf_lt_of_mem (show c ∈ bs from h)
      simp only [mk.sizeOf_spec, Option.some.sizeOf_spec]; omega

/-- The component names that a schema refers to without going through another component. -/
def directRefs (s : Schema) : List String :=
  match s.reference with
  | some target => (Document.schemaRefName? target).toList
  | none => s.children.attach.flatMap fun ⟨c, h⟩ =>
    have := sizeOf_lt_of_mem_children h
    directRefs c
termination_by sizeOf s

theorem directRefs_eq (s : Schema) :
    s.directRefs =
      match s.reference with
      | some target => (Document.schemaRefName? target).toList
      | none => s.children.flatMap directRefs := by
  rw [directRefs]
  split
  · rfl
  · exact List.flatMap_subtype (fun _ _ => rfl) |>.trans (by simp)

end Schema

/-- Close `seen` under references, starting with `todo`. `pending` are the components not yet
    looked into. -/
def reachFrom (pending : KeyMap Schema) (seen : List String) : List String → List String
  | [] => seen
  | name :: rest =>
    if seen.contains name then reachFrom pending seen rest
    else
      match h : KeyMap.get? pending name with
      | none => reachFrom pending (name :: seen) rest
      | some s =>
        have := length_withoutKey_lt h
        reachFrom (withoutKey name pending) (name :: seen) (s.directRefs ++ rest)
termination_by todo => (pending.length, todo.length)

/-- The schemas of a body or a response, of whatever media type. -/
def contentSchemas (content : KeyMap MediaType) : List Schema := content.filterMap (·.2.schema)

namespace Document

/-- The schemas that an operation mentions: those of its parameters and its path's, of its request
    body and of its responses. -/
def operationSchemas (d : Document) (op : Operation) (ofPath : List (RefOr ParameterSpec)) : List Schema :=
  ((op.parameters ++ ofPath).filterMap d.parameter?).filterMap (·.schema) ++
    (op.requestBody.bind d.requestBody?).toList.flatMap (contentSchemas ·.content) ++
    (op.responses.filterMap fun (_, r) => d.response? r).flatMap (contentSchemas ·.content)

/-- The component schemas that an operation reaches. -/
def operationReach (d : Document) (op : Operation) (ofPath : List (RefOr ParameterSpec)) : List String :=
  reachFrom d.components.schemas [] ((d.operationSchemas op ofPath).flatMap Schema.directRefs)

end Document

end ClientGen

import ClientGen.Build.Model

/-
  ClientGen.Proofs.Names.Mention — which names a model mentions, and which references a document has.

  A model mentions names only through its types; they stand in declarations and in methods.
  References stand in schemas, at any depth and wherever the document holds a schema, and in the
  responses of operations. `ReferencesResolve` is what a document must satisfy for its model to
  mention declared names only.
-/

namespace ClientGen

/-! ## The types of a model -/

def TypeRepr.types : TypeRepr → List TypeRef
  | .aliasOf target => [target]
  | .struct fields => fields.map (·.type)
  | .map value => [value]
  | .rawBytes => []

def Declaration.types : Declaration → List TypeRef
  | .type d => d.repr.types
  | .enumeration _ => []
  | .sum d => d.variants.map (·.type)
  | .queryEncoder e => e.conversions.map (·.element)

def Method.types (m : Method) : List TypeRef :=
  m.pathParams.map (·.type) ++ m.queryParams.toList.map (·.type) ++ m.body.toList.map (·.type) ++
    m.responseType.toList ++ m.responses.filterMap (·.type)

def ApiModel.types (m : ApiModel) : List TypeRef := m.declarations.flatMap (·.types) ++ m.methods.flatMap (·.types)

/-- The names that occur anywhere in a model as a type. -/
def ApiModel.mentions (m : ApiModel) : List String := m.types.flatMap (·.names)

/-! ## The references of a document -/

def RefOr.target? : RefOr α → Option String
  | .ref target => some target
  | .item _ => none

def RefOr.item? : RefOr α → Option α
  | .ref _ => none
  | .item a => some a

namespace Schema

/-- The references in a schema, those that a reference hides included. -/
def references (s : Schema) : List String :=
  s.reference.toList ++ s.children.attach.flatMap fun ⟨c, h⟩ =>
    have := sizeOf_lt_of_mem_children h
    references c
termination_by sizeOf s

theorem references_eq (s : Schema) : s.references = s.reference.toList ++ s.children.flatMap references := by
  rw [references]
  congr 1
  exact List.flatMap_subtype (fun _ _ => rfl) |>.trans (by simp)

theorem mem_references_of_reference {s : Schema} {target : String} (h : s.reference = some target) :
    target ∈ s.references := by
  rw [references_eq, h]
  exact List.mem_append_left _ List.mem_cons_self

theorem mem_references_of_child {s c : Schema} (hc : c ∈ s.children) {target : String} (h : target ∈ c.references) :
    target ∈ s.references := by
  rw [references_eq]
  exact List.mem_append_right _ (List.mem_flatMap.mpr ⟨c, hc, h⟩)

end Schema

namespace Operation

/-- The schemas that stand in an operation itself. -/
def ownSchemas (op : Operation) : List Schema :=
  (op.parameters.filterMap RefOr.item?).filterMap (·.schema) ++
    (op.requestBody.bind RefOr.item?).toList.flatMap (contentSchemas ·.content) ++
    (op.responses.filterMap (·.2.item?)).flatMap (contentSchemas ·.content)

end Operation

namespace PathItem

def ownSchemas (item : PathItem) : List Schema :=
  (item.parameters.filterMap RefOr.item?).filterMap (·.schema) ++ item.operations.flatMap (·.2.ownSchemas)

end PathItem

namespace Components

def ownSchemas (c : Components) : List Schema :=
  c.schemas.map (·.2) ++ c.responses.flatMap (contentSchemas ·.2.content) ++ c.parameters.filterMap (·.2.schema) ++
    c.requestBodies.flatMap (contentSchemas ·.2.content)

end Components

namespace Document

/-- Every schema that stands in a document and in no other schema. -/
def ownSchemas (d : Document) : List Schema := d.components.ownSchemas ++ d.paths.flatMap (·.2.ownSchemas)

def schemaReferences (d : Document) : List String := d.ownSchemas.flatMap (·.references)

def operations (d : Document) : List Operation := d.paths.flatMap (·.2.operations.map (·.2))

def responseReferences (d : Document) : List String := d.operations.flatMap (·.responses.filterMap (·.2.target?))

end Document

/-- The references of a document lead somewhere, and under the name that they end in. -/
structure ReferencesResolve (doc : Document) : Prop where
  schemas : ∀ target ∈ doc.schemaReferences, (doc.schemaByRef? target).isSome
  responses : ∀ target ∈ doc.responseReferences, (doc.responseByRef? target).isSome
  /-- A reference is cut at its last slash. -/
  noSlash : ∀ key ∈ doc.components.schemas.keys ++ doc.components.responses.keys, '/' ∉ key.toList
  /-- A component that is a reference is declared under its plain name, enum or not. -/
  enums : ∀ e ∈ doc.components.schemas, e.2.reference.isSome → e.2.isEnum = false

/-! ## Names at the end of references -/

theorem Name.lastSegmentChars_append {before after : List Char} (h : '/' ∉ after) :
    Name.lastSegmentChars (before ++ '/' :: after) = after := by
  have hkept : ∀ c ∈ after.reverse, (c != '/') = true := by
    intro c hc
    rw [bne_iff_ne]
    rintro rfl
    exact h (List.mem_reverse.mp hc)
  rw [Name.lastSegmentChars, List.reverse_append, List.reverse_cons, List.append_assoc, List.singleton_append,
    List.takeWhile_append_of_pos hkept]
  simp

/-- A reference made of a start that ends in a slash and a key without one is cut to that key. -/
theorem lastSegment_append (before : String) {start key : String} (hs : start.toList = before.toList ++ ['/'])
    (hkey : '/' ∉ key.toList) : Name.lastSegment (start ++ key) = key := by
  rw [Name.lastSegment, String.toList_append, hs, List.append_assoc, List.singleton_append,
    Name.lastSegmentChars_append hkey, String.ofList_toList]

namespace ReferencesResolve

variable {doc : Document} {target : String}

/-- A reference to a schema stands for the type name of the component that it leads to. -/
theorem referenceType_eq (hdoc : ReferencesResolve doc) (h : (doc.schemaByRef? target).isSome) :
    ∃ key s, (key, s) ∈ doc.components.schemas ∧ referenceType doc target = .named (componentTypeName key (some s)) := by
  obtain ⟨s, hs⟩ := Option.isSome_iff_exists.mp h
  obtain ⟨key, rfl, hget⟩ := Document.schemaByRef?_eq_some_iff.mp hs
  have hslash := hdoc.noSlash key (List.mem_append_left _ (KeyMap.mem_keys_of_get? hget))
  have hlast := @lastSegment_append "#/components/schemas" schemaRefStart key (by decide) hslash
  exact ⟨key, s, KeyMap.mem_of_get? hget, by rw [referenceType, hs, hlast]⟩

theorem lastSegment_mem_keys (hdoc : ReferencesResolve doc) (h : (doc.responseByRef? target).isSome) :
    Name.lastSegment target ∈ doc.components.responses.keys := by
  obtain ⟨r, hr⟩ := Option.isSome_iff_exists.mp h
  obtain ⟨key, rfl, hget⟩ := Document.responseByRef?_eq_some_iff.mp hr
  have hmem := KeyMap.mem_keys_of_get? hget
  have hslash := hdoc.noSlash key (List.mem_append_right _ hmem)
  rw [@lastSegment_append "#/components/responses" responseRefStart key (by decide) hslash]
  exact hmem

end ReferencesResolve

end ClientGen

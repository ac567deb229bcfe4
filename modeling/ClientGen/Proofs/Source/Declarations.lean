import ClientGen.Go.Package
import ClientGen.Proofs.Source.Names
import ClientGen.Proofs.Source.Pieces
import ClientGen.Proofs.Source.Rendered

/-
  ClientGen.Proofs.Source.Declarations — what a declaration names and what is imported for it.

  The declarations of a model can be written (`readable_declaration`). They name the packages that
  are imported for them, with one exception: `encoding/json` is imported for every sum type, also
  for one without variants, which has nothing to encode (`readable_declaration`).
-/

namespace ClientGen

/-- The type of a member is among those of its declaration, and those among the types of the model. -/
theorem ApiModel.mem_types_of_declaration {m : ApiModel} {d : Declaration} (hd : d ∈ m.declarations) {t : TypeRef}
    (ht : t ∈ d.types) : t ∈ m.types := List.mem_append_left _ (List.mem_flatMap.mpr ⟨d, hd, ht⟩)

namespace Go

open Source

variable {m : ApiModel} {path : String}

/-! ## Members -/

theorem unmarked_fieldName {name : String} (h : Unmarked name) (isError : Bool) :
    Unmarked (fieldName name isError) := by
  unfold fieldName
  split
  · exact .of_chars (by decide)
  · exact h

theorem readable_structField {f : Field} (hname : f.name = Name.identifier f.key) (htype : f.type.In Unmarked)
    (isError : Bool) : (structField isError f).Readable where
  name := unmarked_fieldName (hname ▸ unmarked_identifier f.key) isError
  type := (scans_fieldTypeName htype f.optional).settles
  tag := silent_structTag f.key f.optional

theorem mem_uses_structField {f : Field} (htype : f.type.In Unmarked) (isError : Bool) :
    path ∈ (structField isError f).uses ↔ path ∈ typeImports (fieldTypeName f.type f.optional) :=
  (scans_fieldTypeName htype f.optional).mem_packagesIn path

theorem unmarked_label (k : Scalar) : Unmarked k.label := by cases k <;> exact .of_chars (by decide)

theorem unmarked_accessorLabel {t : TypeRef} (h : t.In Unmarked) : Unmarked (accessorLabel t) := by
  induction t with
  | scalar k => exact unmarked_label k
  | timestamp => exact .of_chars (by decide)
  | date => exact .of_chars (by decide)
  | time => exact .of_chars (by decide)
  | named name => exact TypeRef.in_named.mp h
  | array item ih => exact (ih (TypeRef.in_array.mp h)).append (.of_chars (by decide))
  | map value _ => exact .of_chars (by decide)
  | any => exact .of_chars (by decide)

theorem readable_sumVariant {v : SumVariant} (hlabel : Numbered (accessorLabel v.type) v.label)
    (htype : v.type.In Unmarked) (isError : Bool) : (sumVariant isError v).Readable := by
  have htag : Scans Fresh "\x60json:\"-\"\x60" Fresh [] := .of_chars (by decide)
  constructor
  case name => exact unmarked_fieldName ((unmarked_accessorLabel htype).numbered hlabel) isError
  case type => exact (scans_fieldTypeName htype true).settles
  case tag => exact htag.inCode.silent

theorem mem_uses_sumVariant {v : SumVariant} (htype : v.type.In Unmarked) (isError : Bool) :
    path ∈ (sumVariant isError v).uses ↔ path ∈ typeImports (fieldTypeName v.type true) :=
  (scans_fieldTypeName htype true).mem_packagesIn path

theorem readable_errorMethod (isError payloadless : Bool) (message : String) :
    ∀ e ∈ errorMethod isError payloadless message, e.Readable := by
  intro e he
  unfold errorMethod at he
  split at he
  · rw [← Option.mem_some.mp he]
    intro text htext
    split at htext
    · rw [← Option.mem_some.mp htext]
      exact ⟨literal_ne_empty message, silent_literal message⟩
    · cases htext
  · cases he

theorem uses_errorMethod (isError payloadless : Bool) (message : String) :
    (errorMethod isError payloadless message).toList.flatMap (·.uses) = errorImports isError payloadless := by
  cases isError <;> cases payloadless <;> rfl

/-! ## Types -/

/-- A type declaration is a calendar type, a struct or a type over another one. -/
theorem typeForm_cases {d : TypeDecl} (htypes : ∀ t ∈ d.repr.types, t.In Unmarked) :
    (∃ layout, typeForm d = .calendar layout ∧ Unmarked layout) ∨
      (∃ fields, typeForm d = .struct fields ∧ d.repr = .struct fields) ∨
      ∃ target, typeForm d = .defined target ∧ Scans Fresh target InCode (typeImports target) := by
  have hdefined {t : TypeRef} (ht : t.In Unmarked) (h : typeForm d = .defined (typeName t)) :
      ∃ target, typeForm d = .defined target ∧ Scans Fresh target InCode (typeImports target) :=
    ⟨typeName t, h, scans_typeName ht⟩
  unfold typeForm at hdefined ⊢
  cases hrepr : d.repr with
  | struct fields => exact .inr (.inl ⟨fields, rfl, rfl⟩)
  | rawBytes =>
    have hbyte : Scans Fresh "byte" InCode (typeImports "byte") := scans_typeWord (.of_chars (by decide))
    exact .inr (.inr ⟨"[]byte", rfl, @scans_typeAround "[]" "byte" (.of_chars (by decide)) (by decide) hbyte⟩)
  | map value =>
    rw [hrepr] at hdefined htypes
    exact .inr (.inr (@hdefined (.map value) (htypes value List.mem_cons_self) rfl))
  | aliasOf target =>
    rw [hrepr] at hdefined htypes
    have htarget : target.In Unmarked := htypes target List.mem_cons_self
    cases target with
    | date =>
      by_cases hname : d.name = "Date"
      · exact .inl ⟨"2006-01-02", if_pos hname, .of_chars (by decide)⟩
      · exact .inr (.inr (hdefined htarget (if_neg hname)))
    | time =>
      by_cases hname : d.name = "Time"
      · exact .inl ⟨"15:04:05", if_pos hname, .of_chars (by decide)⟩
      · exact .inr (.inr (hdefined htarget (if_neg hname)))
    | _ => exact .inr (.inr (hdefined htarget rfl))

/-- A type declaration names what is imported for it. -/
theorem readable_typeDeclaration {d : TypeDecl} (hname : Unmarked d.name) (hformed : (Declaration.type d).Formed)
    (htypes : ∀ t ∈ d.repr.types, t.In Unmarked) :
    (typeDeclaration d).Readable ∧ ∀ path, path ∈ (typeDeclaration d).uses ↔ path ∈ typeDeclImports d := by
  rcases typeForm_cases htypes with ⟨layout, hform, hlayout⟩ | ⟨fields, hform, hrepr⟩ | ⟨target, hform, htarget⟩
  · rw [typeDeclaration, typeDeclImports, hform]
    exact ⟨⟨hname, hlayout⟩, fun _ => Iff.rfl⟩
  · have hfields : ∀ f ∈ fields, f.name = Name.identifier f.key ∧ f.type.In Unmarked := by
      intro f hf
      refine ⟨hformed f (by rw [TypeDecl.fields, hrepr]; exact hf), htypes f.type ?_⟩
      rw [hrepr]
      exact List.mem_map_of_mem hf
    rw [typeDeclaration, typeDeclImports, hform]
    constructor
    · refine ⟨hname, ?_, readable_errorMethod _ _ _⟩
      intro field hfield
      obtain ⟨f, hf, rfl⟩ := List.mem_map.mp hfield
      exact readable_structField (hfields f hf).1 (hfields f hf).2 d.isError
    · intro path
      have huses : path ∈ (fields.map (structField d.isError)).flatMap (·.uses) ↔
          path ∈ fields.flatMap fun f => typeImports (fieldTypeName f.type f.optional) := by
        rw [List.flatMap_map, List.mem_flatMap, List.mem_flatMap]
        exact exists_congr fun f => and_congr_right fun hf => mem_uses_structField (hfields f hf).2 d.isError
      simp only [GoDeclaration.uses, uses_errorMethod, List.mem_append, huses]
  · rw [typeDeclaration, typeDeclImports, hform]
    refine ⟨⟨hname, htarget.settles, readable_errorMethod _ _ _⟩, ?_⟩
    intro path
    simp only [GoDeclaration.uses, uses_errorMethod, List.mem_append, htarget.mem_packagesIn]

/-! ## Enums and sums -/

theorem unmarked_variantName {name : String} (h : Unmarked name) (l : Literal) : Unmarked (variantName name l) := by
  have hspelled : Unmarked (Name.spelled l.display) := unmarked_of_lacks fun _ hd _ => Name.lacks_spelled hd _
  unfold variantName
  dsimp only
  split
  · exact h.append (.of_chars (by decide))
  · exact h.append hspelled

theorem readable_enumDeclaration {d : EnumDecl} (hname : Unmarked d.name) (hformed : d.Formed) :
    (enumDeclaration d).Readable := by
  refine ⟨hname, unmarked_scalarName d.scalar, ?_⟩
  intro c hc
  obtain ⟨v, hv, rfl⟩ := List.mem_map.mp hc
  constructor
  case name => exact (unmarked_variantName hname v.value).numbered (hformed.named v hv)
  case value => exact silent_literalText v.value

/-- Without variants nothing of a sum type is encoded. -/
theorem readable_sumDeclaration {d : SumDecl} (hname : Unmarked d.name) (hformed : d.Formed)
    (htypes : ∀ v ∈ d.variants, v.type.In Unmarked) :
    (sumDeclaration d).Readable ∧ ∀ path, path ∈ sumImports d ↔
      path ∈ (sumDeclaration d).uses ∨ d.variants = [] ∧ path = "encoding/json" := by
  constructor
  · refine ⟨hname, ?_, readable_errorMethod _ _ _⟩
    intro field hfield
    obtain ⟨v, hv, rfl⟩ := List.mem_map.mp hfield
    exact readable_sumVariant (hformed.named v hv) (htypes v hv) d.isError
  · intro path
    have huses : path ∈ (d.variants.map (sumVariant d.isError)).flatMap (·.uses) ↔
        path ∈ d.variants.flatMap fun v => typeImports (fieldTypeName v.type true) := by
      rw [List.flatMap_map, List.mem_flatMap, List.mem_flatMap]
      exact exists_congr fun v => and_congr_right fun hv => mem_uses_sumVariant (htypes v hv) d.isError
    have hcases : path ∈ (if d.variants.isEmpty then [] else ["encoding/json"]) ↔
        d.variants ≠ [] ∧ path = "encoding/json" := by
      cases d.variants <;> simp
    simp only [sumDeclaration, sumImports, GoDeclaration.uses, uses_errorMethod, List.mem_append, List.mem_cons, huses,
      List.isEmpty_map, hcases]
    tauto

/-! ## Query encoders -/

/-- An encoder goes through fields of a struct, which are named by their keys. -/
theorem isWord_of_mem_encoded {e : QueryEncoder} (hformed : ∀ d ∈ m.declarations, d.Formed) {p : Conversion × Field}
    (hp : p ∈ encoded m e) : ∀ c ∈ p.1.field.toList, isWord c = true := by
  obtain ⟨c, -, hfound⟩ := List.mem_filterMap.mp hp
  obtain ⟨f, hfind, rfl⟩ := Option.map_eq_some_iff.mp hfound
  have hchosen := List.find?_some hfind
  have hfield : f.name = c.field := of_decide_eq_true hchosen
  have hmem := List.mem_of_find?_eq_some hfind
  unfold paramsFields at hmem
  split at hmem
  · rename_i d hd
    have hnamed : f.name = Name.identifier f.key := hformed _ (List.mem_of_find?_eq_some hd) f hmem
    rw [← hfield, hnamed]
    exact isWord_identifier f.key
  · cases hmem

theorem readable_queryEncoder {e : QueryEncoder} (hname : Unmarked e.typeName)
    (hformed : ∀ d ∈ m.declarations, d.Formed) :
    (queryEncoder m e).Readable ∧ ∀ path, path ∈ (queryEncoder m e).uses ↔ path ∈ queryEncoderImports m e := by
  have hstatement : ∀ p ∈ encoded m e,
      Scans Fresh (queryStatement p.1 p.2) InCode (formatImports p.1.format p.1.element) :=
    fun p hp => scans_queryStatement p.1 p.2 (isWord_of_mem_encoded hformed hp)
  constructor
  · refine ⟨hname, ?_⟩
    intro text htext
    obtain ⟨p, hp, rfl⟩ := List.mem_map.mp htext
    exact (hstatement p hp).settles
  · intro path
    have huses : path ∈ ((encoded m e).map fun p => queryStatement p.1 p.2).flatMap packagesIn ↔
        path ∈ (encoded m e).flatMap fun p => formatImports p.1.format p.1.element := by
      rw [List.flatMap_map, List.mem_flatMap, List.mem_flatMap]
      exact exists_congr fun p => and_congr_right fun hp => (hstatement p hp).mem_packagesIn path
    simp only [queryEncoder, queryEncoderImports, GoDeclaration.uses, List.mem_cons]
    exact or_congr_right huses

/-! ## All declarations -/

/-- A sum type without variants. -/
def GoDeclaration.isBareSum : GoDeclaration → Bool
  | .sum _ _ variants _ _ => variants.isEmpty
  | _ => false

/-- The methods of the declaration encode or decode JSON. -/
def GoDeclaration.encodes : GoDeclaration → Bool
  | .sum _ _ variants _ _ => !variants.isEmpty
  | .calendar .. => true
  | _ => false

theorem isBareSum_typeDeclaration (d : TypeDecl) : (typeDeclaration d).isBareSum = false := by
  rw [typeDeclaration]
  cases typeForm d <;> rfl

/-- Beside what a declaration names, only a sum type without variants has an import. -/
theorem readable_declaration (h : m.Plain) {d : Declaration} (hd : d ∈ m.declarations) :
    (declaration m d).Readable ∧ ∀ path, path ∈ declarationImports m d ↔
      path ∈ (declaration m d).uses ∨ (declaration m d).isBareSum = true ∧ path = "encoding/json" := by
  have hname := h.declarations d hd
  have hformed := h.formed d hd
  have htypes : ∀ t ∈ d.types, t.In Unmarked := fun t ht => h.types t (ApiModel.mem_types_of_declaration hd ht)
  cases d with
  | type d =>
    obtain ⟨hreadable, huses⟩ := readable_typeDeclaration hname hformed htypes
    refine ⟨hreadable, ?_⟩
    intro path
    rw [declaration, declarationImports, huses path]
    simp [isBareSum_typeDeclaration]
  | enumeration d =>
    refine ⟨readable_enumDeclaration hname hformed, ?_⟩
    intro path
    simp [declaration, declarationImports, enumDeclaration, GoDeclaration.uses, GoDeclaration.isBareSum]
  | sum d =>
    have hvariants : ∀ v ∈ d.variants, v.type.In Unmarked := fun v hv => htypes v.type (List.mem_map_of_mem hv)
    obtain ⟨hreadable, huses⟩ := readable_sumDeclaration hname hformed hvariants
    refine ⟨hreadable, ?_⟩
    intro path
    rw [declaration, declarationImports, huses path]
    simp [sumDeclaration, GoDeclaration.isBareSum]
  | queryEncoder e =>
    obtain ⟨hreadable, huses⟩ := readable_queryEncoder hname h.formed
    refine ⟨hreadable, ?_⟩
    intro path
    rw [declaration, declarationImports, huses path]
    simp [queryEncoder, GoDeclaration.isBareSum]

/-! ## JSON -/

theorem json_not_mem_typeImports (text : String) : "encoding/json" ∉ typeImports text := by
  unfold typeImports
  split
  · decide
  · decide

theorem json_not_mem_errorImports (isError payloadless : Bool) :
    "encoding/json" ∉ errorImports isError payloadless := by
  cases isError <;> cases payloadless <;> decide

theorem json_not_mem_formatImports (format : ValueFormat) (element : TypeRef) :
    "encoding/json" ∉ formatImports format element := by
  unfold formatImports
  split
  · split
    · decide
    · decide
  all_goals decide

theorem json_mem_typeDeclImports_iff {d : TypeDecl} (htypes : ∀ t ∈ d.repr.types, t.In Unmarked) :
    "encoding/json" ∈ typeDeclImports d ↔ (typeDeclaration d).encodes = true := by
  rcases typeForm_cases htypes with ⟨layout, hform, -⟩ | ⟨fields, hform, -⟩ | ⟨target, hform, -⟩
  · rw [typeDeclaration, typeDeclImports, hform]
    exact iff_of_true List.mem_cons_self rfl
  · rw [typeDeclaration, typeDeclImports, hform]
    simp [GoDeclaration.encodes, json_not_mem_typeImports, json_not_mem_errorImports]
  · rw [typeDeclaration, typeDeclImports, hform]
    simp [GoDeclaration.encodes, json_not_mem_typeImports, json_not_mem_errorImports]

/-- A declaration names `encoding/json` for its own methods only. -/
theorem json_mem_uses_iff (h : m.Plain) {d : Declaration} (hd : d ∈ m.declarations) :
    "encoding/json" ∈ (declaration m d).uses ↔ (declaration m d).encodes = true := by
  have htypes : ∀ t ∈ d.types, t.In Unmarked := fun t ht => h.types t (ApiModel.mem_types_of_declaration hd ht)
  cases d with
  | type d =>
    rw [declaration, (readable_typeDeclaration (h.declarations _ hd) (h.formed _ hd) htypes).2]
    exact json_mem_typeDeclImports_iff htypes
  | enumeration d => simp [declaration, enumDeclaration, GoDeclaration.uses, GoDeclaration.encodes]
  | sum d =>
    have hvariants : "encoding/json" ∉ (d.variants.map (sumVariant d.isError)).flatMap (·.uses) := by
      rw [List.flatMap_map, List.mem_flatMap]
      rintro ⟨v, hv, hmem⟩
      rw [mem_uses_sumVariant (htypes v.type (List.mem_map_of_mem hv))] at hmem
      exact json_not_mem_typeImports _ hmem
    have herrors : "encoding/json" ∉ (if d.decodeUnimplemented then ["errors"] else []) := by
      cases d.decodeUnimplemented <;> decide
    simp only [declaration, sumDeclaration, GoDeclaration.uses, GoDeclaration.encodes, uses_errorMethod,
      List.mem_append, hvariants, herrors, json_not_mem_errorImports, or_false, false_or, List.isEmpty_map]
    cases d.variants with
    | nil => decide
    | cons v vs => exact iff_of_true List.mem_cons_self rfl
  | queryEncoder e =>
    rw [declaration, (readable_queryEncoder (h.declarations _ hd) h.formed).2]
    simp [queryEncoderImports, queryEncoder, GoDeclaration.encodes, json_not_mem_formatImports]

end Go

end ClientGen

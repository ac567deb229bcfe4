import Mathlib
import ClientGen.Go.Package

/-
  ClientGen.Proofs.Comments.Handed — what templates are handed for line comments.

  Of a document templates write into line comments the title, the version and the documentation
  lines of the package, and whatever stands under `doc_lines` in the values of the groupings and
  of the shared declarations, however deep (`Commented`). The latter are the documentation lines
  of services, methods, declarations and fields, and no others (`commented_iff`). Custom variables
  hide none of them and add none.
-/

namespace ClientGen

/-! ## Lines inside a value -/

namespace Json

/-- A text among the items under `doc_lines`, somewhere inside a value. -/
inductive DocLine (t : String) : Json → Prop
  | here {fields : KeyMap Json} {items : List Json} : ("doc_lines", .arr items) ∈ fields → .str t ∈ items →
      DocLine t (.obj fields)
  | field {fields : KeyMap Json} {key : String} {v : Json} : (key, v) ∈ fields → DocLine t v → DocLine t (.obj fields)
  | item {items : List Json} {v : Json} : v ∈ items → DocLine t v → DocLine t (.arr items)

variable {t : String}

@[simp] theorem docLine_null : ¬ DocLine t .null := by
  intro h
  cases h

@[simp] theorem docLine_bool (b : Bool) : ¬ DocLine t (.bool b) := by
  intro h
  cases h

@[simp] theorem docLine_str (s : String) : ¬ DocLine t (.str s) := by
  intro h
  cases h

@[simp] theorem docLine_arr {items : List Json} : DocLine t (.arr items) ↔ ∃ v ∈ items, DocLine t v := by
  constructor
  · intro h
    cases h with
    | item hv h => exact ⟨_, hv, h⟩
  · rintro ⟨v, hv, h⟩
    exact .item hv h

@[simp] theorem docLine_ofTexts (ss : List String) : ¬ DocLine t (ofTexts ss) := by
  simp [ofTexts]

@[simp] theorem docLine_ofOption {α : Type} {f : α → Json} {o : Option α} :
    DocLine t (ofOption f o) ↔ ∃ a ∈ o, DocLine t (f a) := by
  cases o <;> simp [ofOption]

@[simp] theorem arr_eq_ofTexts {items : List Json} {ss : List String} : .arr items = ofTexts ss ↔ items = ss.map .str := by
  rw [ofTexts, arr.injEq]

theorem docLine_object {fields : List (String × Json)} (h : (KeyMap.keys fields).Nodup) :
    DocLine t (object fields) ↔
      (∃ items, ("doc_lines", .arr items) ∈ fields ∧ .str t ∈ items) ∨ ∃ e ∈ fields, DocLine t e.2 := by
  constructor
  · intro hline
    cases hline with
    | here hitems ht => exact .inl ⟨_, (KeyMap.mem_ofList h).mp hitems, ht⟩
    | field hv hline => exact .inr ⟨_, (KeyMap.mem_ofList h).mp hv, hline⟩
  · rintro (⟨items, hitems, ht⟩ | ⟨e, he, hline⟩)
    · exact .here ((KeyMap.mem_ofList h).mpr hitems) ht
    · exact .field ((KeyMap.mem_ofList h).mpr he) hline

end Json

namespace Go

open Json

variable {t : String}

/-! ## Lines of a file -/

/-- The documentation lines of a declaration and of its fields. -/
def GoDeclaration.docLines : GoDeclaration → List String
  | .struct _ doc fields _ => doc ++ fields.flatMap (·.doc)
  | .aliasOf _ doc _ _ => doc
  | .enumeration _ doc _ _ => doc
  | .sum _ doc variants _ _ => doc ++ variants.flatMap (·.doc)
  | .calendar _ doc _ => doc
  | .queryEncoder _ _ => []

/-- The documentation lines of a service and of its methods. -/
def Service.docLines (s : Service) : List String := s.doc ++ s.methods.flatMap (·.doc)

def File.docLines (f : File) : List String :=
  f.declarations.flatMap (·.docLines) ++ f.service.toList.flatMap (·.docLines)

theorem docLine_goField {f : GoField} : DocLine t f.toJson ↔ t ∈ f.doc := by
  rw [GoField.toJson, docLine_object (by simp [KeyMap.keys])]
  simp

theorem docLine_constant {c : Constant} : ¬ DocLine t c.toJson := by
  rw [Constant.toJson, docLine_object (by simp [KeyMap.keys])]
  simp

theorem docLine_errorMethod {e : ErrorMethod} : ¬ DocLine t e.toJson := by
  rw [ErrorMethod.toJson, docLine_object (by simp [KeyMap.keys])]
  simp

theorem docLine_goDeclaration {d : GoDeclaration} : DocLine t d.toJson ↔ t ∈ d.docLines := by
  cases d <;> rw [GoDeclaration.toJson, docLine_object (by simp [KeyMap.keys])] <;>
    simp [GoDeclaration.docLines, docLine_goField, docLine_constant, docLine_errorMethod]

theorem docLine_case {c : Case} : ¬ DocLine t c.toJson := by
  rw [Case.toJson, docLine_object (by simp [KeyMap.keys])]
  simp

theorem docLine_goMethod {m : GoMethod} : DocLine t m.toJson ↔ t ∈ m.doc := by
  rw [GoMethod.toJson, docLine_object (by simp [KeyMap.keys])]
  simp [docLine_case]

theorem docLine_service {s : Service} : DocLine t s.toJson ↔ t ∈ s.docLines := by
  rw [Service.toJson, docLine_object (by simp [KeyMap.keys])]
  simp [Service.docLines, docLine_goMethod]

theorem docLine_file {f : File} : DocLine t f.toJson ↔ t ∈ f.docLines := by
  rw [File.toJson, docLine_object (by simp [KeyMap.keys])]
  simp [File.docLines, docLine_goDeclaration, docLine_service]

/-! ## Values of a package -/

/-- The texts of a document that templates write into line comments. -/
inductive Commented (data : KeyMap Json) (t : String) : Prop
  | title : KeyMap.get? data "title" = some (.str t) → Commented data t
  | version : KeyMap.get? data "version" = some (.str t) → Commented data t
  | package {items : List Json} : KeyMap.get? data "doc_lines" = some (.arr items) → .str t ∈ items → Commented data t
  | grouping {v : Json} : KeyMap.get? data "groupings" = some v → v.DocLine t → Commented data t
  | shared {v : Json} : KeyMap.get? data "shared" = some v → v.DocLine t → Commented data t

variable {m : ApiModel} {doc : Document} {modulePath : String} {custom : KeyMap Json}

theorem keys_ownValues (m : ApiModel) (doc : Document) (modulePath : String) :
    KeyMap.keys (ownValues m doc modulePath) =
      ["package", "module", "service", "title", "version", "doc_lines", "base_url", "user_agent", "services",
        "groupings", "shared"] := rfl

/-- A package hands over its own value, whatever custom variables there are. -/
theorem get?_templateData {key : String} {v : Json} (h : (key, v) ∈ ownValues m doc modulePath) :
    KeyMap.get? (templateData m doc modulePath custom) key = some v := by
  have hnodup : (KeyMap.keys (ownValues m doc modulePath)).Nodup := by
    rw [keys_ownValues]
    decide
  rw [templateData, KeyMap.get?_ofList_append custom (List.mem_map_of_mem h)]
  exact (KeyMap.get?_ofList hnodup).mpr h

theorem commented_iff : Commented (templateData m doc modulePath custom) t ↔
    t = Text.singleLine m.title ∨ t = m.version ∨ t ∈ plainDoc m.description ∨
      (∃ g ∈ m.groupings, t ∈ (groupingFile m g).docLines) ∨ t ∈ (sharedFile m).docLines := by
  have htitle : KeyMap.get? (templateData m doc modulePath custom) "title" = some (.str (Text.singleLine m.title)) :=
    get?_templateData (by simp [ownValues])
  have hversion : KeyMap.get? (templateData m doc modulePath custom) "version" = some (.str m.version) :=
    get?_templateData (by simp [ownValues])
  have hdescription : KeyMap.get? (templateData m doc modulePath custom) "doc_lines" =
      some (ofTexts (plainDoc m.description)) :=
    get?_templateData (by simp [ownValues])
  have hgroupings : KeyMap.get? (templateData m doc modulePath custom) "groupings" =
      some (.arr (m.groupings.map fun g => (groupingFile m g).toJson)) :=
    get?_templateData (by simp [ownValues])
  have hshared : KeyMap.get? (templateData m doc modulePath custom) "shared" = some (sharedFile m).toJson :=
    get?_templateData (by simp [ownValues])
  constructor
  · intro h
    cases h with
    | title h =>
      rw [htitle, Option.some.injEq, Json.str.injEq] at h
      exact .inl h.symm
    | version h =>
      rw [hversion, Option.some.injEq, Json.str.injEq] at h
      exact .inr (.inl h.symm)
    | package h ht =>
      rw [hdescription, Option.some.injEq, eq_comm, arr_eq_ofTexts] at h
      rw [h, List.mem_map_of_injective fun _ _ heq => Json.str.inj heq] at ht
      exact .inr (.inr (.inl ht))
    | grouping h ht =>
      rw [hgroupings, Option.some.injEq] at h
      rw [← h, docLine_arr] at ht
      obtain ⟨_, hv, ht⟩ := ht
      obtain ⟨g, hg, rfl⟩ := List.mem_map.mp hv
      exact .inr (.inr (.inr (.inl ⟨g, hg, docLine_file.mp ht⟩)))
    | shared h ht =>
      rw [hshared, Option.some.injEq] at h
      rw [← h] at ht
      exact .inr (.inr (.inr (.inr (docLine_file.mp ht))))
  · rintro (rfl | rfl | h | ⟨g, hg, h⟩ | h)
    · exact .title htitle
    · exact .version hversion
    · refine .package hdescription ?_
      exact List.mem_map_of_mem h
    · refine .grouping hgroupings ?_
      exact docLine_arr.mpr ⟨_, List.mem_map_of_mem hg, docLine_file.mpr h⟩
    · exact .shared hshared (docLine_file.mpr h)

end Go

end ClientGen

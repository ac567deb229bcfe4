import ClientGen.Proofs.Errors.Marked
import ClientGen.Proofs.Grouping.MethodNames
import ClientGen.Proofs.Names.Letter

/-
  ClientGen.Proofs.Names.Identifiers — when every identifier of a model begins with a letter.

  Of the conversions that make identifiers only that of keys guards against a digit in front and
  against a text without a word. Tags, ids and method names go through the plain one. What is
  inside a declaration is named after it, so a model is in order exactly if the names that its
  document gives are (`identifiers_lettered_iff`): tags and method texts with a word that begins
  with a letter, keys and properties whose first word begins with no digit beyond ASCII, and
  payload names in use that begin with a letter.
  - One text makes an identifier as a key and none as an operation id (`guardedKeys`, `digitFirst`).
-/

namespace ClientGen

open Name

/-! ## Identifiers -/

/-- The names of fields, constants and accessors. -/
def Declaration.members : Declaration → List String
  | .type d => d.fields.map (·.name)
  | .enumeration d => d.variants.map (·.name)
  | .sum d => d.variants.map (·.label)
  | .queryEncoder _ => []

@[simp] theorem Declaration.members_markError (d : Declaration) : d.markError.members = d.members := by
  cases d with
  | _ => rfl

namespace ApiModel

/-- Everything that a model has a name for. -/
def identifiers (m : ApiModel) : List String :=
  m.groupings.map (·.name) ++ m.methods.map (·.name) ++ m.declarations.flatMap fun d => d.name :: d.members

/-- A type of which the model declares no name. -/
def Undeclared (m : ApiModel) (t : TypeRef) : Prop := ∀ name ∈ t.names, name ∉ declaredNames m.declarations

end ApiModel

/-- The text that names the method of an endpoint. -/
def Endpoint.methodText (e : Endpoint) : String :=
  ((((e.operation.extension? "x-codegen").bind (·.get? "method_name")).bind Json.str?).filter
    (Name.proper · ≠ "")).getD (e.operation.idOr e.method e.path)

theorem Endpoint.methodName_eq (e : Endpoint) : e.methodName = Name.proper e.methodText := by
  unfold methodName methodText Operation.methodNameOverride?
  cases ((e.operation.extension? "x-codegen").bind (·.get? "method_name")).bind Json.str? with
  | none => rfl
  | some text =>
    simp only [Option.map_some, Option.filter_some]
    split
    · rfl
    · rfl

/-- The texts of a document make names that begin with a letter. -/
structure NamesLettered (doc : Document) (model : ApiModel) : Prop where
  tags : ∀ e ∈ doc.endpoints, WordFirst e.operation.tag
  methods : ∀ e ∈ doc.endpoints, WordFirst e.methodText
  components : ∀ key ∈ doc.components.schemas.keys, Guarded key
  /-- Only names in use count. -/
  payloads : ∀ name ∈ doc.payloadNames, name ∈ declaredNames model.declarations → Lettered name
  properties : ∀ d, .type d ∈ model.declarations → ∀ f ∈ d.fields, Guarded f.key
  /-- Accessors are named by their types, which are declared unless a reference leads nowhere. -/
  accessors : ∀ d, .sum d ∈ model.declarations → ∀ v ∈ d.variants, model.Undeclared v.type →
    Lettered (accessorLabel v.type)

/-! ## Names that pass a letter on -/

theorem NamedAfter.lettered {root name : String} (h : NamedAfter root name) (hroot : Lettered root) :
    Lettered name := by
  induction h with
  | self => exact hroot
  | property key _ ih => exact ih.append _
  | option number _ ih => exact (ih.append _).append _
  | value _ ih => exact ih.append _
  | items _ ih => exact ih.append _
  | singular _ ih => exact (lettered_singular_iff _).mpr ih

theorem lettered_ownName_iff (sch : Schema) (name : String) : Lettered (Resolve.ownName sch name) ↔ Lettered name := by
  unfold Resolve.ownName
  split
  · exact lettered_singular_iff name
  · rfl

theorem lettered_append_iff {s t : String} (ht : ¬ Lettered t) : Lettered (s ++ t) ↔ Lettered s := by
  unfold Lettered at *
  rw [String.toList_append]
  cases s.toList with
  | nil => simpa using ht
  | cons c rest => rfl

theorem not_lettered_toString (n : Nat) : ¬ Lettered (toString n) := by
  intro h
  obtain ⟨c, rest, hn, hc⟩ := lettered_iff.mp h
  have hdigit : c.isDigit = true := isDigit_of_mem_toString (hn ▸ List.mem_cons_self)
  have hascii : c.toNat < 0x80 := lt_of_isAlphanum (by simp [Char.isAlphanum, hdigit])
  obtain ⟨hupper, hlower⟩ := not_cased_of_isDigit hdigit
  rw [Unicode.isAlphabetic_ascii hascii] at hc
  simp [Char.isAlpha, hupper, hlower] at hc

theorem lettered_numbered_iff {name chosen : String} (h : Numbered name chosen) : Lettered chosen ↔ Lettered name := by
  rcases h with rfl | ⟨n, rfl⟩
  · rfl
  · exact lettered_append_iff (not_lettered_toString n)

theorem lettered_accessorLabel {t : TypeRef} (h : ∀ name ∈ t.names, Lettered name) : Lettered (accessorLabel t) := by
  induction t with
  | named name => exact h name List.mem_cons_self
  | array item ih => exact (ih h).append _
  | scalar k => cases k <;> decide
  | map value _ => exact (by decide : Lettered "Map")
  | _ => decide

theorem TypeRef.names_eq (t : TypeRef) : t.names = [] ∨ ∃ name, t.names = [name] := by
  induction t with
  | named name => exact .inr ⟨name, rfl⟩
  | array item ih => exact ih
  | map value ih => exact ih
  | _ => exact .inl rfl

/-! ## Groupings and methods -/

section grouped

variable {doc : Document} {fuel : Nat} {model : ApiModel}

theorem groupings_lettered_iff (h : Grouped doc fuel model)
    (hnames : ∀ g ∈ model.groupings, g.name = Name.proper g.tag) :
    (∀ g ∈ model.groupings, Lettered g.name) ↔ ∀ e ∈ doc.endpoints, WordFirst e.operation.tag := by
  have hall : (∀ g ∈ model.groupings, Lettered g.name) ↔ ∀ name ∈ model.groupings.map (·.name), Lettered name :=
    List.forall_mem_map.symm
  rw [hall, Grouping.names_eq hnames]
  simp only [h.mem_map_tags, forall_exists_index, and_imp, forall_apply_eq_imp_iff₂, lettered_proper_iff]

theorem methods_lettered_iff (h : Grouped doc fuel model) :
    (∀ method ∈ model.methods, Lettered method.name) ↔ ∀ e ∈ doc.endpoints, WordFirst e.methodText := by
  obtain ⟨methods, hmapped, hperm⟩ := h.complete
  have hname : ∀ {e method}, Endpoint.MapsTo doc fuel e method → (Lettered method.name ↔ WordFirst e.methodText) := by
    intro e method hmaps
    rw [hmaps.name_eq, e.methodName_eq, lettered_proper_iff]
  constructor
  · intro hall e he
    obtain ⟨method, hmethod, hmaps⟩ := exists_of_forall₂ hmapped.flip he
    exact (hname hmaps).mp (hall method (hperm.mem_iff.mpr hmethod))
  · intro hall method hmethod
    obtain ⟨e, he, hmaps⟩ := exists_of_forall₂ hmapped (hperm.mem_iff.mp hmethod)
    exact (hname hmaps).mpr (hall e he)

end grouped

/-! ## Declarations -/

/-- The declarations of a model are formed, and named after given names that the model declares. -/
structure ApiModel.Rooted (m : ApiModel) (doc : Document) : Prop where
  formed : ∀ d ∈ m.declarations, d.Formed
  named : ∀ d ∈ m.declarations, ∃ root ∈ doc.givenNames, root ∈ declaredNames m.declarations ∧ NamedAfter root d.name
  components : ∀ name ∈ doc.componentNames, name ∈ declaredNames m.declarations

namespace Resolve

variable {doc : Document} {fuel : Nat}

theorem rooted_of_build {config : Config} {model : ApiModel} {ds : List Diagnostic}
    (h : build fuel doc config = .ok (model, ds)) : model.Rooted doc := by
  obtain ⟨s', hrun, -⟩ := runs_of_build h
  obtain ⟨hdeclared, -⟩ := declaredNames_model hrun
  obtain ⟨p, rfl, hgroupings, hshared, -⟩ := runs_buildModel hrun
  have hmarked : ∀ d ∈ model.declarations, ∃ made ∈ p.sortedGroups.flatMap (·.declarations) ++ p.shared,
      d.name = made.name ∧ (made.Formed → d.Formed) := by
    intro d hd
    rw [p.marked hgroupings hshared] at hd
    obtain ⟨made, hmade, rfl⟩ := List.mem_map.mp hd
    refine ⟨made, hmade, ?_⟩
    split
    · exact ⟨name_markError made, Declaration.Formed.markError⟩
    · exact ⟨rfl, id⟩
  constructor
  case formed =>
    intro d hd
    obtain ⟨made, hmade, -, hformed⟩ := hmarked d hd
    obtain ⟨root, -, -, hmade⟩ := p.rooted made hmade
    exact hformed hmade.formed
  case named =>
    intro d hd
    obtain ⟨made, hmade, hname, -⟩ := hmarked d hd
    obtain ⟨root, hroot, hkey, hmade⟩ := p.rooted made hmade
    exact ⟨root, hroot, hdeclared.mem_iff.mpr hkey, hname ▸ hmade.named⟩
  case components =>
    intro name hname
    exact hdeclared.mem_iff.mpr (p.componentNames_declared name hname)

end Resolve

namespace ApiModel.Rooted

variable {doc : Document} {model : ApiModel}

theorem lettered_of_given (h : model.Rooted doc)
    (hgiven : ∀ root ∈ doc.givenNames, root ∈ declaredNames model.declarations → Lettered root) :
    ∀ d ∈ model.declarations, Lettered d.name := by
  intro d hd
  obtain ⟨root, hroot, hdeclared, hnamed⟩ := h.named d hd
  exact hnamed.lettered (hgiven root hroot hdeclared)

theorem members_lettered (h : model.Rooted doc) (hnames : ∀ d ∈ model.declarations, Lettered d.name)
    (hproperties : ∀ d, .type d ∈ model.declarations → ∀ f ∈ d.fields, Guarded f.key)
    (haccessors : ∀ d, .sum d ∈ model.declarations → ∀ v ∈ d.variants, model.Undeclared v.type →
      Lettered (accessorLabel v.type)) :
    ∀ d ∈ model.declarations, ∀ name ∈ d.members, Lettered name := by
  intro d hd name hname
  have hformed := h.formed d hd
  cases d with
  | type d =>
    obtain ⟨f, hf, rfl⟩ := List.mem_map.mp hname
    rw [hformed f hf, lettered_identifier_iff]
    exact hproperties d hd f hf
  | enumeration d =>
    obtain ⟨v, hv, rfl⟩ := List.mem_map.mp hname
    obtain ⟨suffix, -, hv⟩ := EnumDecl.Formed.extends_name hformed v hv
    rw [hv]
    exact (hnames _ hd).append suffix
  | sum d =>
    obtain ⟨v, hv, rfl⟩ := List.mem_map.mp hname
    rw [lettered_numbered_iff (SumDecl.Formed.named hformed v hv)]
    by_cases hundeclared : model.Undeclared v.type
    · exact haccessors d hd v hv hundeclared
    · refine lettered_accessorLabel ?_
      rcases v.type.names_eq with hnone | ⟨name, hone⟩
      · rw [hnone]
        exact List.forall_mem_nil _
      · rw [ApiModel.Undeclared, hone] at hundeclared
        rw [hone]
        simp only [List.mem_singleton, forall_eq, not_not] at hundeclared ⊢
        obtain ⟨named, hnamed, rfl⟩ := mem_declaredNames hundeclared
        exact hnames named hnamed
  | queryEncoder d => cases hname

end ApiModel.Rooted

theorem ApiModel.forall_identifiers {m : ApiModel} {P : String → Prop} : (∀ name ∈ m.identifiers, P name) ↔
    (∀ g ∈ m.groupings, P g.name) ∧ (∀ method ∈ m.methods, P method.name) ∧
      (∀ d ∈ m.declarations, P d.name) ∧ ∀ d ∈ m.declarations, ∀ name ∈ d.members, P name := by
  simp only [identifiers, List.forall_mem_append, List.forall_mem_map, List.forall_mem_flatMap, List.forall_mem_cons,
    and_assoc, forall_and]

open Resolve in
/-- Every identifier of a model begins with a letter, and so is not empty, exactly if the texts of
    the document make such names. -/
theorem identifiers_lettered_iff {doc : Document} {fuel : Nat} {config : Config} {model : ApiModel}
    {ds : List Diagnostic} (h : build fuel doc config = .ok (model, ds)) :
    (∀ name ∈ model.identifiers, Lettered name) ↔ NamesLettered doc model := by
  obtain ⟨hgrouped, hgroupNames⟩ := groupings_of_build h
  have hrooted := rooted_of_build h
  have hcomponent : ∀ key sch, Lettered (ownName sch (Name.identifier key)) ↔ Guarded key :=
    fun key sch => (lettered_ownName_iff sch _).trans (lettered_identifier_iff key)
  rw [ApiModel.forall_identifiers, groupings_lettered_iff hgrouped hgroupNames, methods_lettered_iff hgrouped]
  constructor
  · rintro ⟨htags, hmethods, hnames, hmembers⟩
    have hdeclared : ∀ name ∈ declaredNames model.declarations, Lettered name := by
      intro name hname
      obtain ⟨d, hd, rfl⟩ := mem_declaredNames hname
      exact hnames d hd
    constructor
    case tags => exact htags
    case methods => exact hmethods
    case components =>
      intro key hkey
      obtain ⟨⟨_, sch⟩, he, rfl⟩ := List.mem_map.mp hkey
      exact (hcomponent _ sch).mp (hdeclared _ (hrooted.components _ (List.mem_map_of_mem he)))
    case payloads => exact fun name _ hname => hdeclared name hname
    case properties =>
      intro d hd f hf
      have hformed : f.name = Name.identifier f.key := hrooted.formed _ hd f hf
      rw [← lettered_identifier_iff, ← hformed]
      exact hmembers _ hd _ (List.mem_map_of_mem hf)
    case accessors =>
      intro d hd v hv _
      have hformed : d.Formed := hrooted.formed _ hd
      rw [← lettered_numbered_iff (hformed.named v hv)]
      exact hmembers _ hd _ (List.mem_map_of_mem hv)
  · intro hlettered
    have hnames : ∀ d ∈ model.declarations, Lettered d.name := by
      refine hrooted.lettered_of_given ?_
      refine List.forall_mem_append.mpr ⟨List.forall_mem_append.mpr ⟨?_, ?_⟩, hlettered.payloads⟩
      · have hhelpers : ∀ name ∈ calendarHelpers.map (·.name), Lettered name := by decide
        exact fun name hname _ => hhelpers name hname
      · intro name hname _
        obtain ⟨⟨key, sch⟩, he, rfl⟩ := List.mem_map.mp hname
        exact (hcomponent key sch).mpr (hlettered.components key (List.mem_map_of_mem he))
    exact ⟨hlettered.tags, hlettered.methods, hnames,
      hrooted.members_lettered hnames hlettered.properties hlettered.accessors⟩

/-- A component and a property whose keys begin with a digit. -/
def guardedKeys : Document :=
  { openapi := "3.0.3", info := ⟨"t", "1", none⟩, servers := [], tags := []
    paths := [("/a", ⟨none, none, none, [(.get, ⟨["auth"], none, none, some "enroll", [], none, [], false, []⟩)], []⟩)]
    components :=
      ⟨[("2fa", { Schema.blank with
          properties := some [("1st", { Schema.blank with type := some (.single "string") })] })], [], [], []⟩ }

theorem identifiers_lettered_iff_guardedKeys : ∃ model ds, build 2 guardedKeys ⟨"p", "P"⟩ = .ok (model, ds) ∧
    model.identifiers = ["Auth", "Enroll", "Date", "Time", "N2fa", "N1st"] ∧ NamesLettered guardedKeys model := by
  obtain ⟨model, ds, h, hpasses⟩ := @Resolve.exists_build_of_passes guardedKeys 2 ⟨"p", "P"⟩
    (fun m _ => m.identifiers = ["Auth", "Enroll", "Date", "Time", "N2fa", "N1st"]) (by cbv)
  have hidentifiers := of_decide_eq_true hpasses
  refine ⟨model, ds, h, hidentifiers, (identifiers_lettered_iff h).mp ?_⟩
  rw [hidentifiers]
  decide

/-- The same text as an operation id. -/
def digitFirst : Document :=
  { openapi := "3.0.3", info := ⟨"t", "1", none⟩, servers := [], tags := []
    paths := [("/a", ⟨none, none, none, [(.get, ⟨["auth"], none, none, some "2fa", [], none, [], false, []⟩)], []⟩)]
    components := ⟨[], [], [], []⟩ }

/-- The id makes a method of it that begins with the digit. -/
theorem digit_begins_method : ∃ model ds, build 1 digitFirst ⟨"p", "P"⟩ = .ok (model, ds) ∧
    "2fa" ∈ model.identifiers ∧ ¬ Lettered "2fa" := by
  obtain ⟨model, ds, h, hpasses⟩ :=
    @Resolve.exists_build_of_passes digitFirst 1 ⟨"p", "P"⟩ (fun m _ => "2fa" ∈ m.identifiers) (by decide +kernel)
  exact ⟨model, ds, h, of_decide_eq_true hpasses, by decide⟩

end ClientGen

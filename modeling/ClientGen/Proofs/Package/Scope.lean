import ClientGen.Proofs.Names.Identifiers
import ClientGen.Proofs.Package.Paths

/-
  ClientGen.Proofs.Package.Scope — when the names of a Go package differ.

  The package scope has what `client.go` declares, the declared names of the model, the constants
  of its enums and a service type for each grouping; the client has three fields of its own and
  one for each grouping (`Go.packageScope`, `Go.clientScope`). The registry keeps declared names
  apart and an enum its own constants, and nothing in `client.go` is named like a service type.
  No other pair is looked at, so a package is in order exactly if none of them clashes
  (`scopes_nodup_iff`): a constant may have the name of a component (`constant_named_like_type`).
-/

namespace ClientGen

/-! ## Scopes -/

namespace Go

/-- What `client.go` declares for every package. -/
def clientNames : List String :=
  ["DefaultBaseURL", "Client", "Option", "WithHTTPClient", "WithUserAgent", "NewClient", "APIError", "rawResponse",
    "decodeJSON", "pathParam"]

/-- The fields that the client has in every package. -/
def clientFields : List String := ["BaseURL", "HTTPClient", "UserAgent"]

/-- The names that a declaration adds to the package. A query encoder is a method. -/
def GoDeclaration.topLevel : GoDeclaration → List String
  | .struct name _ _ _ => [name]
  | .aliasOf name _ _ _ => [name]
  | .enumeration name _ _ constants => name :: constants.map (·.name)
  | .sum name _ _ _ _ => [name]
  | .calendar name _ _ => [name]
  | .queryEncoder _ _ => []

def File.topLevel (f : File) : List String :=
  f.declarations.flatMap GoDeclaration.topLevel ++ f.service.toList.map (·.typeName)

/-- The names of a package: those of the client, of the shared file and of every grouping's file. -/
def packageScope (m : ApiModel) : List String :=
  clientNames ++ (sharedFile m).topLevel ++ m.groupings.flatMap fun g => (groupingFile m g).topLevel

/-- The fields of the client. -/
def clientScope (m : ApiModel) : List String := clientFields ++ m.groupings.map (·.name)

end Go

/-- The constants of an enum. -/
def Declaration.constants : Declaration → List String
  | .enumeration d => d.variants.map (·.name)
  | _ => []

namespace Go

theorem topLevel_typeDeclaration (d : TypeDecl) : (typeDeclaration d).topLevel = [d.name] := by
  unfold typeDeclaration
  dsimp only
  split <;> rfl

theorem topLevel_declaration (m : ApiModel) (d : Declaration) :
    (declaration m d).topLevel = declaredNames [d] ++ d.constants := by
  cases d with
  | type d => exact topLevel_typeDeclaration d
  | enumeration d =>
    show d.name :: (d.variants.map fun v => (⟨v.name, literalText v.value⟩ : Constant)).map (·.name) = _
    rw [List.map_map]
    rfl
  | sum d => rfl
  | queryEncoder d => rfl

/-- The declarations of a package add the declared names and the constants. -/
theorem topLevel_declarations_perm (m : ApiModel) (ds : List Declaration) :
    ((ds.map (declaration m)).flatMap GoDeclaration.topLevel).Perm
      (declaredNames ds ++ ds.flatMap Declaration.constants) := by
  induction ds with
  | nil => exact .refl _
  | cons d rest ih =>
    have hcons : declaredNames (d :: rest) = declaredNames [d] ++ declaredNames rest := declaredNames_append [d] rest
    rw [List.map_cons, List.flatMap_cons, List.flatMap_cons, topLevel_declaration, hcons]
    refine (ih.append_left _).trans ?_
    simp only [List.append_assoc]
    refine .append_left _ ?_
    rw [← List.append_assoc, ← List.append_assoc]
    exact List.perm_append_comm.append_right _

theorem topLevel_groupingFiles_perm (m : ApiModel) (gs : List Grouping) :
    (gs.flatMap fun g => (groupingFile m g).topLevel).Perm
      (((gs.flatMap (·.declarations)).map (declaration m)).flatMap GoDeclaration.topLevel ++
        gs.map serviceTypeName) := by
  have hservices : gs.map serviceTypeName = gs.flatMap fun g => [serviceTypeName g] :=
    (List.flatMap_pure_eq_map serviceTypeName gs).symm
  rw [List.map_flatMap, List.flatMap_assoc, hservices]
  exact (List.flatMap_append_perm gs _ _).symm

/-- The sources of the names of a package. -/
theorem packageScope_perm (m : ApiModel) :
    (packageScope m).Perm (clientNames ++ (declaredNames m.declarations ++
      (m.declarations.flatMap Declaration.constants ++ m.groupings.map serviceTypeName))) := by
  have hshared : (sharedFile m).topLevel = (m.shared.map (declaration m)).flatMap GoDeclaration.topLevel :=
    List.append_nil _
  have hfiles := (topLevel_groupingFiles_perm m m.groupings).append_left (sharedFile m).topLevel
  rw [packageScope, List.append_assoc]
  refine .append_left _ (hfiles.trans ?_)
  rw [hshared, ← List.append_assoc, ← List.append_assoc (declaredNames _)]
  refine .append_right _ (.trans ?_ (topLevel_declarations_perm m m.declarations))
  rw [ApiModel.declarations, List.map_append, List.flatMap_append]
  exact List.perm_append_comm

end Go

/-! ## Tags -/

/-- The service type for a tag. -/
def serviceOf (tag : String) : String := Name.proper tag ++ "Service"

/-- Tags in use that have one name are one tag. -/
def Document.TagNamesApart (doc : Document) : Prop :=
  ∀ e ∈ doc.endpoints, ∀ e' ∈ doc.endpoints, Name.proper e.operation.tag = Name.proper e'.operation.tag →
    e.operation.tag = e'.operation.tag

/-- No service type is named like something in `client.go`. -/
theorem serviceOf_not_mem_clientNames (tag : String) : serviceOf tag ∉ Go.clientNames := by
  intro h
  have hends : ∀ n ∈ Go.clientNames, n.toList.reverse.take 7 ≠ "Service".toList.reverse := by decide
  apply hends _ h
  rw [serviceOf, String.toList_append, List.reverse_append, List.take_append_of_le_length (by decide)]
  rfl

theorem serviceTypeNames_eq {gs : List Grouping} (h : ∀ g ∈ gs, g.name = Name.proper g.tag) :
    gs.map Go.serviceTypeName = (gs.map (·.tag)).map serviceOf := by
  rw [List.map_map]
  refine List.map_congr_left fun g hg => ?_
  rw [Go.serviceTypeName, h g hg]
  rfl

section grouped

variable {doc : Document} {fuel : Nat} {model : ApiModel}

theorem clientScope_nodup_iff (h : Grouped doc fuel model)
    (hnames : ∀ g ∈ model.groupings, g.name = Name.proper g.tag) :
    (Go.clientScope model).Nodup ↔
      doc.TagNamesApart ∧ ∀ e ∈ doc.endpoints, Name.proper e.operation.tag ∉ Go.clientFields := by
  have hfields : Go.clientFields.Nodup := by decide
  rw [Go.clientScope, List.nodup_append', and_iff_right hfields, Grouping.names_eq hnames, h.nodup_map_tags_iff]
  refine and_congr_right fun _ => ?_
  simp only [List.disjoint_right, h.mem_map_tags, forall_exists_index, and_imp, forall_apply_eq_imp_iff₂]

theorem serviceTypeNames_nodup_iff (h : Grouped doc fuel model)
    (hnames : ∀ g ∈ model.groupings, g.name = Name.proper g.tag) :
    (model.groupings.map Go.serviceTypeName).Nodup ↔ doc.TagNamesApart := by
  rw [serviceTypeNames_eq hnames, h.nodup_map_tags_iff]
  simp only [serviceOf, String.append_left_inj]
  rfl

end grouped

/-! ## Clashes -/

def ApiModel.constants (m : ApiModel) : List String := m.declarations.flatMap Declaration.constants

theorem Declaration.Formed.nodup_constants {d : Declaration} (h : d.Formed) : d.constants.Nodup := by
  cases d with
  | enumeration d => exact EnumDecl.Formed.nodup h
  | _ => exact List.nodup_nil

/-- The names that nothing keeps apart are apart. -/
structure ScopesApart (doc : Document) (m : ApiModel) : Prop where
  tags : doc.TagNamesApart
  fields : ∀ e ∈ doc.endpoints, Name.proper e.operation.tag ∉ Go.clientFields
  types : ∀ name ∈ declaredNames m.declarations,
    name ∉ Go.clientNames ∧ ∀ e ∈ doc.endpoints, serviceOf e.operation.tag ≠ name
  constants : ∀ name ∈ m.constants,
    name ∉ Go.clientNames ∧ name ∉ declaredNames m.declarations ∧ ∀ e ∈ doc.endpoints, serviceOf e.operation.tag ≠ name
  enums : m.declarations.Pairwise fun a b => a.constants.Disjoint b.constants

section

variable {fuel : Nat} {doc : Document} {s : Settings} {g : Generated}

open Resolve in
/-- The names of a package and the fields of its client differ exactly if no two tags in use have
    one name, no such name is a field of the client, and declared names and constants keep clear
    of `client.go`, of the service types and of each other. -/
theorem scopes_nodup_iff (h : generate fuel doc s = .ok g) :
    (Go.packageScope g.model).Nodup ∧ (Go.clientScope g.model).Nodup ↔ ScopesApart doc g.model := by
  obtain ⟨hgrouped, hnames⟩ := grouped_of_generate h
  obtain ⟨-, hbuild, -⟩ := build_of_generate h
  obtain ⟨s', hrun, -⟩ := runs_of_build hbuild
  have hdeclared := (declaredNames_model hrun).2
  have hclient : Go.clientNames.Nodup := by decide
  have hformed := (rooted_of_build hbuild).formed
  have hconstants : g.model.constants.Nodup ↔
      g.model.declarations.Pairwise fun a b => a.constants.Disjoint b.constants := by
    rw [ApiModel.constants, List.nodup_flatMap]
    exact and_iff_right fun d hd => (hformed d hd).nodup_constants
  have hservice : ∀ {name}, name ∈ g.model.groupings.map Go.serviceTypeName ↔
      ∃ e ∈ doc.endpoints, serviceOf e.operation.tag = name := by
    intro name
    rw [serviceTypeNames_eq hnames, hgrouped.mem_map_tags]
  rw [(Go.packageScope_perm g.model).nodup_iff, ← ApiModel.constants]
  simp only [List.nodup_append', List.disjoint_left, hclient, hdeclared, hconstants,
    hservice, serviceTypeNames_nodup_iff hgrouped hnames, clientScope_nodup_iff hgrouped hnames, true_and,
    List.mem_append, not_or, not_exists, not_and]
  constructor
  · rintro ⟨⟨⟨⟨henums, -, hconstant⟩, htype⟩, hfixed⟩, htags, hfields⟩
    constructor
    case tags => exact htags
    case fields => exact hfields
    case types => exact fun name hname => ⟨fun hin => (hfixed hin).1 hname, (htype hname).2⟩
    case constants =>
      intro name hname
      exact ⟨fun hin => (hfixed hin).2.1 hname, fun hin => (htype hin).1 hname, hconstant hname⟩
    case enums => exact henums
  · rintro ⟨htags, hfields, htypes, hconstants, henums⟩
    refine ⟨⟨⟨⟨henums, htags, ?_⟩, ?_⟩, ?_⟩, htags, hfields⟩
    · exact fun name hname => (hconstants name hname).2.2
    · exact fun name hname => ⟨fun hin => (hconstants name hin).2.1 hname, (htypes name hname).2⟩
    · intro name hname
      refine ⟨fun hin => (htypes name hin).1 hname, fun hin => (hconstants name hin).1 hname, ?_⟩
      rintro e - rfl
      exact serviceOf_not_mem_clientNames e.operation.tag hname

end

/-- The scopes of a package whose model is built with these declared names, constants and groupings. -/
theorem scopes_of_names {fuel : Nat} {doc : Document} {declared constants groupings : List String}
    (h : (build fuel doc petstore.config).toOption.any (fun r =>
      (declaredNames r.1.declarations, r.1.constants, r.1.groupings.map (·.name)) = (declared, constants, groupings) &&
        !Go.isKeyword r.1.package) = true) :
    ∃ g, generate fuel doc petstore = .ok g ∧
      (Go.packageScope g.model).Perm
        (Go.clientNames ++ (declared ++ (constants ++ groupings.map (· ++ "Service")))) ∧
      Go.clientScope g.model = Go.clientFields ++ groupings := by
  obtain ⟨g, hgenerate, hnames⟩ := @generate_of_passes fuel doc (fun m =>
    (declaredNames m.declarations, m.constants, m.groupings.map (·.name)) = (declared, constants, groupings)) h
  simp only [decide_eq_true_eq, Prod.mk.injEq] at hnames
  obtain ⟨rfl, rfl, rfl⟩ := hnames
  have hservices : g.model.groupings.map Go.serviceTypeName =
      (g.model.groupings.map (·.name)).map (· ++ "Service") := by
    rw [List.map_map]
    rfl
  have hpackage := Go.packageScope_perm g.model
  rw [← ApiModel.constants, hservices] at hpackage
  exact ⟨g, hgenerate, hpackage, rfl⟩

/-- An enum with two values, and an operation. -/
def colors : Document :=
  { openapi := "3.0.3", info := ⟨"t", "1", none⟩, servers := [], tags := []
    paths := [("/a", ⟨none, none, none, [(.get, ⟨["p"], none, none, some "f", [], none, [], false, []⟩)], []⟩)]
    components :=
      ⟨[("C", { Schema.blank with type := some (.single "string"), enumValues := some [.str "r", .str "g"] })],
        [], [], []⟩ }

theorem scopes_nodup_iff_colors : ∃ g, generate 2 colors petstore = .ok g ∧ ScopesApart colors g.model ∧
    (Go.packageScope g.model).Perm
      (Go.clientNames ++ (["Date", "Time", "C"] ++ (["CG", "CR"] ++ ["PService"]))) ∧
    Go.clientScope g.model = Go.clientFields ++ ["P"] := by
  obtain ⟨g, h, hpackage, hclient⟩ :=
    @scopes_of_names 2 colors ["Date", "Time", "C"] ["CG", "CR"] ["P"] (by cbv)
  refine ⟨g, h, (scopes_nodup_iff h).mp ⟨hpackage.nodup_iff.mpr (by decide), ?_⟩, hpackage, hclient⟩
  rw [hclient]
  decide

/-- An enum with a value `r`, and a component called like the constant for it. -/
def constantTwice : Document :=
  { openapi := "3.0.3", info := ⟨"t", "1", none⟩, servers := [], tags := [], paths := []
    components :=
      ⟨[("C", { Schema.blank with type := some (.single "string"), enumValues := some [.str "r"] }),
        ("cR", { Schema.blank with type := some (.single "object") })], [], [], []⟩ }

/-- The package declares one name as a type and as a constant. -/
theorem constant_named_like_type : ∃ g, generate 2 constantTwice petstore = .ok g ∧
    (Go.packageScope g.model).Perm (Go.clientNames ++ (["Date", "Time", "C", "CR"] ++ (["CR"] ++ []))) ∧
    ¬ (Go.packageScope g.model).Nodup := by
  obtain ⟨g, h, hpackage, -⟩ := @scopes_of_names 2 constantTwice ["Date", "Time", "C", "CR"] ["CR"] [] (by cbv)
  exact ⟨g, h, hpackage, fun hnodup => absurd (hpackage.nodup_iff.mp hnodup) (by decide)⟩

end ClientGen

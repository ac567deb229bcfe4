import Mathlib
import ClientGen.Proofs.Comments.Handed
import ClientGen.Proofs.Comments.Lines
import ClientGen.Proofs.Errors.Marked

/-
  ClientGen.Proofs.Comments.Unbroken — which documents break a comment.

  A line comment ends at a line feed, so text with one continues as source. Descriptions, the
  title and every name stand on one line whatever the document says. Three texts go into comments
  as they are: the version into that of the package, a tag into that of its service and a path
  into that of its method. So the comments of a package are unbroken exactly when none of these
  has a line feed (`commented_oneLine_iff`); a version on two lines breaks the first comment of
  the package (`twoLineVersion_commented`).
-/

namespace ClientGen

/-- Everything that a model has a name for is named on one line. -/
structure ApiModel.OneLineNames (m : ApiModel) : Prop where
  groupings : ∀ g ∈ m.groupings, OneLine g.name
  methods : ∀ method ∈ m.methods, OneLine method.name
  declarations : ∀ d ∈ m.declarations, OneLine d.name

/-- A character is in no name of a model. -/
structure ApiModel.NamesLack (d : Char) (m : ApiModel) : Prop where
  groupings : ∀ g ∈ m.groupings, Lacks d g.name
  methods : ∀ method ∈ m.methods, Lacks d method.name
  declarations : ∀ declaration ∈ m.declarations, Lacks d declaration.name

namespace Go

/-! ## Declarations -/

theorem oneLine_of_mem_fieldDocs {isError : Bool} {fields : List Field} {t : String}
    (h : t ∈ (fields.map (structField isError)).flatMap (·.doc)) : OneLine t := by
  obtain ⟨f, hf, ht⟩ := List.mem_flatMap.mp h
  obtain ⟨field, -, rfl⟩ := List.mem_map.mp hf
  exact oneLine_of_mem_plainDoc ht

theorem oneLine_of_mem_typeDeclaration {d : TypeDecl} (hname : OneLine d.name) {t : String}
    (h : t ∈ (typeDeclaration d).docLines) : OneLine t := by
  unfold typeDeclaration at h
  dsimp only at h
  split at h
  · exact oneLine_of_mem_namedDoc hname h
  · rcases List.mem_append.mp h with h | h
    · exact oneLine_of_mem_namedDoc hname h
    · exact oneLine_of_mem_fieldDocs h
  · exact oneLine_of_mem_namedDoc hname h

/-- Variants have no documentation. -/
theorem oneLine_of_mem_sumDeclaration {d : SumDecl} (hname : OneLine d.name) {t : String}
    (h : t ∈ (sumDeclaration d).docLines) : OneLine t := by
  rcases List.mem_append.mp h with h | h
  · exact oneLine_of_mem_namedDoc hname h
  · obtain ⟨f, hf, ht⟩ := List.mem_flatMap.mp h
    obtain ⟨variant, -, rfl⟩ := List.mem_map.mp hf
    cases ht

theorem oneLine_of_mem_declaration {m : ApiModel} {d : Declaration} (hname : OneLine d.name) {t : String}
    (h : t ∈ (declaration m d).docLines) : OneLine t := by
  cases d with
  | type d => exact oneLine_of_mem_typeDeclaration hname h
  | enumeration d => exact oneLine_of_mem_namedDoc hname h
  | sum d => exact oneLine_of_mem_sumDeclaration hname h
  | queryEncoder d => cases h

/-! ## Methods and services -/

theorem oneLine_upperName (method : HttpMethod) : OneLine method.upperName := by cases method <;> decide

/-- An empty line and a text below it, if there is one. -/
theorem oneLine_of_mem_paragraph {text : Option String} {t : String}
    (h : t ∈ match text with
      | none => []
      | some d => "" :: Text.commentLines d) : OneLine t := by
  cases text with
  | none => cases h
  | some d =>
    rcases List.mem_cons.mp h with rfl | h
    · decide
    · exact Text.oneLine_of_mem_commentLines h

theorem methodDoc_oneLine_iff {method : Method} (hname : OneLine method.name) :
    (∀ t ∈ methodDoc method, OneLine t) ↔ OneLine method.path.raw := by
  have hfirst : OneLine (method.name ++ " calls " ++ method.httpMethod.upperName ++ " " ++ method.path.raw ++ ".") ↔
      OneLine method.path.raw := by
    have hcalls : OneLine " calls " := by decide
    have hspace : OneLine " " := by decide
    have hdot : OneLine "." := by decide
    simp only [oneLine_append, hname, hcalls, oneLine_upperName, hspace, hdot, true_and, and_true]
  have hdeprecated : ∀ t ∈ if method.deprecated then ["", "Deprecated: the API marks this operation as deprecated."]
      else [], OneLine t := by
    split
    · decide
    · decide
  rw [methodDoc, List.forall_mem_append, List.forall_mem_append, List.forall_mem_singleton, hfirst]
  exact ⟨fun h => h.1.1, fun h => ⟨⟨h, fun _ => oneLine_of_mem_paragraph⟩, hdeprecated⟩⟩

theorem groupingFile_oneLine_iff {m : ApiModel} {g : Grouping} (hname : OneLine g.name)
    (hmethods : ∀ method ∈ g.methods, OneLine method.name) (hdeclarations : ∀ d ∈ g.declarations, OneLine d.name) :
    (∀ t ∈ (groupingFile m g).docLines, OneLine t) ↔
      OneLine g.tag ∧ ∀ method ∈ g.methods, OneLine method.path.raw := by
  have hfirst : OneLine (serviceTypeName g ++ " groups the operations tagged " ++ g.tag ++ ".") ↔ OneLine g.tag := by
    have hservice : OneLine (serviceTypeName g) := hname.append (by decide)
    have hgroups : OneLine " groups the operations tagged " := by decide
    have hdot : OneLine "." := by decide
    simp only [oneLine_append, hservice, hgroups, hdot, true_and, and_true]
  have htypes : ∀ t ∈ (g.declarations.map (declaration m)).flatMap (·.docLines), OneLine t := by
    intro t ht
    obtain ⟨_, hd, ht⟩ := List.mem_flatMap.mp ht
    obtain ⟨d, hin, rfl⟩ := List.mem_map.mp hd
    exact oneLine_of_mem_declaration (hdeclarations d hin) ht
  have hdocs : (∀ t ∈ (g.methods.map (method m)).flatMap (·.doc), OneLine t) ↔
      ∀ method ∈ g.methods, OneLine method.path.raw := by
    rw [List.flatMap_map, List.forall_mem_flatMap]
    exact forall₂_congr fun x hx => methodDoc_oneLine_iff (hmethods x hx)
  rw [File.docLines, List.forall_mem_append]
  simp only [groupingFile, Option.toList_some, List.flatMap_singleton, Service.docLines, List.cons_append,
    List.forall_mem_cons, List.forall_mem_append, hfirst, hdocs]
  constructor
  · rintro ⟨-, htag, -, hpaths⟩
    exact ⟨htag, hpaths⟩
  · rintro ⟨htag, hpaths⟩
    exact ⟨htypes, htag, fun _ => oneLine_of_mem_paragraph, hpaths⟩

theorem oneLine_of_mem_sharedFile {m : ApiModel} (hdeclarations : ∀ d ∈ m.shared, OneLine d.name) {t : String}
    (h : t ∈ (sharedFile m).docLines) : OneLine t := by
  rw [File.docLines, show (sharedFile m).service = none from rfl, Option.toList_none, List.flatMap_nil,
    List.append_nil] at h
  obtain ⟨_, hd, ht⟩ := List.mem_flatMap.mp h
  obtain ⟨d, hin, rfl⟩ := List.mem_map.mp hd
  exact oneLine_of_mem_declaration (hdeclarations d hin) ht

/-! ## Packages -/

/-- Among the texts for comments, the version, the tags and the paths are left as they are. -/
theorem templateData_oneLine_iff {m : ApiModel} (h : m.OneLineNames) (doc : Document) (modulePath : String)
    (custom : KeyMap Json) : (∀ t, Commented (templateData m doc modulePath custom) t → OneLine t) ↔
      OneLine m.version ∧ ∀ g ∈ m.groupings, OneLine g.tag ∧ ∀ method ∈ g.methods, OneLine method.path.raw := by
  have hgrouping : ∀ g ∈ m.groupings, (∀ t ∈ (groupingFile m g).docLines, OneLine t) ↔
      OneLine g.tag ∧ ∀ method ∈ g.methods, OneLine method.path.raw := by
    intro g hg
    have hmethods : ∀ method ∈ g.methods, OneLine method.name := fun method hin =>
      h.methods method (List.mem_flatMap_of_mem hg hin)
    have hdeclarations : ∀ d ∈ g.declarations, OneLine d.name := fun d hin =>
      h.declarations d (List.mem_append_left _ (List.mem_flatMap_of_mem hg hin))
    exact groupingFile_oneLine_iff (h.groupings g hg) hmethods hdeclarations
  have hshared : ∀ d ∈ m.shared, OneLine d.name := fun d hd => h.declarations d (List.mem_append_right _ hd)
  simp only [commented_iff]
  constructor
  · intro hall
    refine ⟨hall _ (.inr (.inl rfl)), ?_⟩
    intro g hg
    refine (hgrouping g hg).mp ?_
    intro t ht
    exact hall t (.inr (.inr (.inr (.inl ⟨g, hg, ht⟩))))
  · rintro ⟨hversion, hraw⟩ t (rfl | rfl | ht | ⟨g, hg, ht⟩ | ht)
    · exact Text.oneLine_singleLine m.title
    · exact hversion
    · exact oneLine_of_mem_plainDoc ht
    · exact (hgrouping g hg).mpr (hraw g hg) t ht
    · exact oneLine_of_mem_sharedFile hshared ht

end Go

/-! ## Documents -/

namespace Resolve

variable {doc : Document} {fuel : Nat} {s s' : Session}

/-- A method is named by its extension or by its id, and either way by the words of a text. -/
theorem mapOperation_lacks {d : Char} (hd : Separates d) {httpMethod : HttpMethod} {path : String} {op : Operation}
    {ofPath : List (RefOr ParameterSpec)} {m : MappedOperation}
    (h : Runs (mapOperation doc fuel httpMethod path op ofPath) s m s') : Lacks d m.method.name := by
  rw [name_of_mapOperation h]
  cases hname : op.methodNameOverride? with
  | none => exact Name.lacks_proper hd _
  | some name =>
    obtain ⟨text, -, rfl⟩ := Option.map_eq_some_iff.mp (Option.eq_some_of_filter_eq_some hname)
    exact Name.lacks_proper hd text

theorem namesLack_of_buildModel {d : Char} (hd : Separates d) (hplus : d ≠ '+') {config : Config} {m : ApiModel}
    (h : Runs (buildModel doc config fuel) .start m s') : m.NamesLack d := by
  obtain ⟨p, -, hgroupings, hshared, hnames⟩ := runs_buildModel h
  constructor
  case groupings =>
    intro g hg
    exact p.name_eq hgroupings g hg ▸ Name.lacks_proper hd g.tag
  case methods =>
    intro method hmethod
    obtain ⟨e, -, hmaps⟩ := (p.grouped hgroupings hnames).exists_endpoint hmethod
    obtain ⟨s, mapped, s', hrun⟩ := hmaps.runs
    exact hmaps.method_eq hrun ▸ mapOperation_lacks hd hrun
  case declarations =>
    intro declaration hin
    rw [p.marked hgroupings hshared] at hin
    obtain ⟨made, hmade, rfl⟩ := List.mem_map.mp hin
    split
    · rw [name_markError]
      exact p.lacks hd hplus hmade
    · exact p.lacks hd hplus hmade

theorem oneLineNames_of_buildModel {config : Config} {m : ApiModel}
    (h : Runs (buildModel doc config fuel) .start m s') : m.OneLineNames := by
  obtain ⟨hgroupings, hmethods, hdeclarations⟩ := namesLack_of_buildModel separates_newline (by decide) h
  exact ⟨hgroupings, hmethods, hdeclarations⟩

/-- A method keeps the path of its endpoint as it is. -/
theorem path_of_mapsTo {e : Endpoint} {method : Method} (h : e.MapsTo doc fuel method) : method.path.raw = e.path := by
  obtain ⟨s, m, s', hrun⟩ := h.runs
  obtain ⟨_, _, _, _, -, -, -, -, -, -, -, -, -, hpath⟩ := runs_mapOperation hrun
  rw [← h.method_eq hrun, hpath]
  rfl

/-- The tags and paths of a model are those of the endpoints of the document. -/
theorem rawTexts_iff {model : ApiModel} (h : Grouped doc fuel model) :
    (∀ g ∈ model.groupings, OneLine g.tag ∧ ∀ method ∈ g.methods, OneLine method.path.raw) ↔
      ∀ e ∈ doc.endpoints, OneLine e.operation.tag ∧ OneLine e.path := by
  constructor
  · intro hall e he
    obtain ⟨g, hg, htag⟩ := List.mem_map.mp ((h.mem_tags e.operation.tag).mpr ⟨e, he, rfl⟩)
    obtain ⟨hone, hpaths⟩ := hall g hg
    have hin : e ∈ doc.endpoints.filter (·.operation.tag = g.tag) :=
      List.mem_filter.mpr ⟨he, decide_eq_true htag.symm⟩
    obtain ⟨method, hmethod, hmaps⟩ := exists_of_forall₂ (h.methods g hg).flip hin
    exact ⟨htag ▸ hone, path_of_mapsTo hmaps ▸ hpaths method hmethod⟩
  · intro hall g hg
    obtain ⟨e, he, htag⟩ := (h.mem_tags g.tag).mp (List.mem_map_of_mem hg)
    refine ⟨htag ▸ (hall e he).1, ?_⟩
    intro method hmethod
    obtain ⟨e, he, hmaps⟩ := exists_of_forall₂ (h.methods g hg) hmethod
    exact path_of_mapsTo hmaps ▸ (hall e (List.mem_of_mem_filter he)).2

end Resolve

open Resolve in
/-- The texts that a package has in line comments have no line feed exactly when the version, the
    tags in use and the paths have none. -/
theorem commented_oneLine_iff {doc : Document} {fuel : Nat} {config : Config} {model : ApiModel}
    {ds : List Diagnostic} (h : build fuel doc config = .ok (model, ds)) (modulePath : String) (custom : KeyMap Json) :
    (∀ t, Go.Commented (Go.templateData model doc modulePath custom) t → OneLine t) ↔
      OneLine doc.info.version ∧ ∀ e ∈ doc.endpoints, OneLine e.operation.tag ∧ OneLine e.path := by
  obtain ⟨s', hrun, -⟩ := runs_of_build h
  obtain ⟨p, -, hgroupings, -, hnames⟩ := runs_buildModel hrun
  rw [Go.templateData_oneLine_iff (oneLineNames_of_buildModel hrun), version_of_buildModel hrun,
    rawTexts_iff (p.grouped hgroupings hnames)]

/-- Line feeds in the title and in the descriptions of the document, of a tag and of an operation. -/
def manyLines : Document :=
  { openapi := "3.0.0", info := ⟨"t\nu", "1", some "a\nb"⟩, servers := [], tags := [⟨"x", some "c\nd"⟩]
    paths := [("/a", ⟨none, none, none, [(.get, ⟨["x"], none, some "e\ng", some "f", [], none, [], false, []⟩)], []⟩)]
    components := ⟨[], [], [], []⟩ }

theorem commented_oneLine_manyLines : ∃ model ds, build 1 manyLines ⟨"p", "P"⟩ = .ok (model, ds) ∧
    model.version = "1" ∧ model.groupings.map (·.tag) = ["x"] ∧ model.methods.map (·.path.raw) = ["/a"] ∧
    ∀ t, Go.Commented (Go.templateData model manyLines "m" []) t → OneLine t := by
  have hraw : OneLine manyLines.info.version ∧ ∀ e ∈ manyLines.endpoints, OneLine e.operation.tag ∧ OneLine e.path :=
    ⟨by decide, by decide⟩
  obtain ⟨model, ds, h, htest⟩ := @Resolve.exists_build_of_passes manyLines 1 ⟨"p", "P"⟩ (fun m _ =>
    decide (m.version = "1" ∧ m.groupings.map (·.tag) = ["x"] ∧ m.methods.map (·.path.raw) = ["/a"])) (by decide +kernel)
  obtain ⟨hversion, htags, hpaths⟩ := of_decide_eq_true htest
  exact ⟨model, ds, h, hversion, htags, hpaths, (commented_oneLine_iff h "m" []).mpr hraw⟩

/-- No operation, and a version on two lines. -/
def twoLineVersion : Document :=
  { openapi := "3.0.3", info := ⟨"Items", "1\n2", none⟩, servers := [], tags := [], paths := []
    components := ⟨[], [], [], []⟩ }

theorem twoLineVersion_commented : ∃ model ds, build 1 twoLineVersion ⟨"petstore", "Petstore"⟩ = .ok (model, ds) ∧
    ∃ t, Go.Commented (Go.templateData model twoLineVersion "example.com/petstore" []) t ∧ ¬ OneLine t := by
  obtain ⟨model, ds, h, htest⟩ := @Resolve.exists_build_of_passes twoLineVersion 1 ⟨"petstore", "Petstore"⟩
    (fun m _ => m.version = "1\n2") (by decide +kernel)
  have hversion : model.version = "1\n2" := of_decide_eq_true htest
  exact ⟨model, ds, h, "1\n2", Go.commented_iff.mpr (.inr (.inl hversion.symm)), by decide⟩

end ClientGen

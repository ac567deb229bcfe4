import ClientGen.Proofs.Names.Payloads

/-
  ClientGen.Proofs.Names.Closed — every name that a model mentions is declared.

  With `K` the names in the registry when the build ends:
  - the components put theirs there before anything else is mapped (`phases_cover`), and every
    response component ends in a grouping or in the shared file (`phases_cover_responses`), so
    `K` covers what references name.
  - every phase closes what it declares and what its methods mention (`phases_close`).
  The registry holds the declared names, so the model is closed (`mentions_declared`).
-/

namespace ClientGen

/-- `P` holds of the references to schemas, and `Q` of what the references to responses end in. -/
structure Document.Refers (P Q : String → Prop) (doc : Document) : Prop where
  schemas : ∀ target ∈ doc.schemaReferences, P target
  responses : ∀ target ∈ doc.responseReferences, Q (Name.lastSegment target)

theorem ReferencesResolve.refers {doc : Document} (hdoc : ReferencesResolve doc) :
    doc.Refers (fun target => (doc.schemaByRef? target).isSome) (· ∈ doc.components.responses.keys) where
  schemas := hdoc.schemas
  responses := fun target ht => hdoc.lastSegment_mem_keys (hdoc.responses target ht)

namespace Resolve

variable {K P Q : String → Prop} {doc : Document} {fuel : Nat} {s s' : Session}

/-! ## What a document gives its operations -/

theorem mem_contentSchemas {content : KeyMap MediaType} {sch : Schema} (h : jsonSchemaOf? content = some sch) :
    sch ∈ contentSchemas content := by
  obtain ⟨m, hm, hsch⟩ := Option.bind_eq_some_iff.mp h
  exact List.mem_filterMap.mpr ⟨_, KeyMap.mem_of_get? hm, hsch⟩

theorem refers_of_mem (hdoc : doc.Refers P Q) {sch : Schema} (h : sch ∈ doc.ownSchemas) : sch.Refers P :=
  fun target ht => hdoc.schemas target (List.mem_flatMap.mpr ⟨sch, h, ht⟩)

/-- The schemas of the components stand in the document. -/
theorem mem_ownSchemas_of_components {sch : Schema} (h : sch ∈ doc.components.ownSchemas) : sch ∈ doc.ownSchemas :=
  List.mem_append_left _ h

theorem component_refers (hdoc : doc.Refers P Q) {key : String} {sch : Schema}
    (h : (key, sch) ∈ doc.components.schemas) : sch.Refers P := by
  refine refers_of_mem hdoc (mem_ownSchemas_of_components ?_)
  simp only [Components.ownSchemas, List.mem_append]
  exact .inl (.inl (.inl (List.mem_map_of_mem (f := fun e : String × Schema => e.2) h)))

theorem responseComponent_refers (hdoc : doc.Refers P Q) {key : String} {r : ResponseSpec}
    (h : KeyMap.get? doc.components.responses key = some r) : ResponseRefers P r := by
  intro sch hsch
  refine refers_of_mem hdoc (mem_ownSchemas_of_components ?_)
  simp only [Components.ownSchemas, List.mem_append]
  exact .inl (.inl (.inr (List.mem_flatMap.mpr ⟨_, KeyMap.mem_of_get? h, mem_contentSchemas hsch⟩)))

section Paths

variable {path : String} {item : PathItem} {httpMethod : HttpMethod} {op : Operation}

theorem mem_ownSchemas_of_path {sch : Schema} (hitem : (path, item) ∈ doc.paths) (h : sch ∈ item.ownSchemas) :
    sch ∈ doc.ownSchemas := List.mem_append_right _ (List.mem_flatMap.mpr ⟨_, hitem, h⟩)

theorem mem_ownSchemas_of_operation {sch : Schema} (hitem : (path, item) ∈ doc.paths)
    (hop : (httpMethod, op) ∈ item.operations) (h : sch ∈ op.ownSchemas) : sch ∈ doc.ownSchemas :=
  mem_ownSchemas_of_path hitem (List.mem_append_right _ (List.mem_flatMap.mpr ⟨_, hop, h⟩))

theorem parameter_refers (hdoc : doc.Refers P Q) (hitem : (path, item) ∈ doc.paths)
    (hop : (httpMethod, op) ∈ item.operations) {r : RefOr ParameterSpec} (hr : r ∈ op.parameters ++ item.parameters)
    {p : ParameterSpec} (hp : doc.parameter? r = some p) {sch : Schema} (hsch : p.schema = some sch) :
    sch.Refers P := by
  refine refers_of_mem hdoc ?_
  cases r with
  | item q =>
    cases hp
    have hmem {rs : List (RefOr ParameterSpec)} (h : .item p ∈ rs) :
        sch ∈ (rs.filterMap RefOr.item?).filterMap (·.schema) :=
      List.mem_filterMap.mpr ⟨p, List.mem_filterMap.mpr ⟨_, h, rfl⟩, hsch⟩
    rcases List.mem_append.mp hr with hr | hr
    · exact mem_ownSchemas_of_operation hitem hop (List.mem_append_left _ (List.mem_append_left _ (hmem hr)))
    · exact mem_ownSchemas_of_path hitem (List.mem_append_left _ (hmem hr))
  | ref target =>
    obtain ⟨key, -, hget⟩ := Document.parameterByRef?_eq_some_iff.mp hp
    refine mem_ownSchemas_of_components (List.mem_append_left _ (List.mem_append_right _ ?_))
    exact List.mem_filterMap.mpr ⟨_, KeyMap.mem_of_get? hget, hsch⟩

theorem body_refers (hdoc : doc.Refers P Q) (hitem : (path, item) ∈ doc.paths)
    (hop : (httpMethod, op) ∈ item.operations) {sch : Schema} (hsch : bodySchema? doc op = some sch) :
    sch.Refers P := by
  refine refers_of_mem hdoc ?_
  obtain ⟨b, hb, hjson⟩ := Option.bind_eq_some_iff.mp hsch
  obtain ⟨r, hr, hb⟩ := Option.bind_eq_some_iff.mp hb
  cases r with
  | item body =>
    cases hb
    refine mem_ownSchemas_of_operation hitem hop (List.mem_append_left _ (List.mem_append_right _ ?_))
    rw [hr]
    exact List.mem_flatMap.mpr ⟨b, List.mem_cons_self, mem_contentSchemas hjson⟩
  | ref target =>
    obtain ⟨key, -, hget⟩ := Document.requestBodyByRef?_eq_some_iff.mp hb
    exact mem_ownSchemas_of_components (List.mem_append_right _
      (List.mem_flatMap.mpr ⟨_, KeyMap.mem_of_get? hget, mem_contentSchemas hjson⟩))

theorem operation_refers (hdoc : doc.Refers P Q) (hitem : (path, item) ∈ doc.paths)
    (hop : (httpMethod, op) ∈ item.operations) : OperationRefers P Q doc op item.parameters where
  parameters := fun r hr p hp sch hsch => parameter_refers hdoc hitem hop hr hp hsch
  body := fun sch hsch => body_refers hdoc hitem hop hsch
  responses := by
    intro e he spec hspec sch hsch
    refine refers_of_mem hdoc (mem_ownSchemas_of_operation hitem hop (List.mem_append_right _ ?_))
    exact List.mem_flatMap.mpr ⟨spec, List.mem_filterMap.mpr ⟨e, he, by rw [hspec]; rfl⟩, mem_contentSchemas hsch⟩
  targets := by
    intro e he target htarget
    refine hdoc.responses target ?_
    refine List.mem_flatMap.mpr ⟨op, ?_, List.mem_filterMap.mpr ⟨e, he, by rw [htarget]; rfl⟩⟩
    exact List.mem_flatMap.mpr ⟨_, hitem, List.mem_map_of_mem (f := fun o : HttpMethod × Operation => o.2) hop⟩

end Paths

/-! ## The phases -/

/-- The types that operations bring along, in their methods and in their declarations. -/
def operationTypes (operations : List TaggedOperation) : List TypeRef :=
  operations.flatMap fun o => o.mapped.method.types ++ typesOf o.mapped.declarations

theorem Mapping.closes (hK : Covers K P doc) (hR : ∀ key, Q key → K (responseComponentName key))
    {es : List Endpoint} {operations : List TaggedOperation} (h : Mapping doc fuel es s operations s')
    (hes : ∀ e ∈ es, OperationRefers P Q doc e.operation e.item.parameters) :
    Closes K s.registry (operationTypes operations) s'.registry := by
  induction h with
  | done => exact .of_eq rfl (by simp [operationTypes])
  | passed _ _ ih => exact ih hes
  | mapped hone _ ih =>
    obtain ⟨he, hmore⟩ := List.forall_mem_cons.mp hes
    exact (mapOperation_closes hK hR he hone).append (ih hmore)

theorem calendarHelpers_in : ∀ d ∈ calendarHelpers, ∀ t ∈ d.repr.types, t.names = [] := by decide

theorem declareAll_closes {types : List TypeDecl} (hts : ∀ d ∈ types, ∀ t ∈ d.repr.types, t.names = [])
    {ds : List Declaration} (h : Runs (declareAll types) s ds s') : Closes K s.registry (typesOf ds) s'.registry := by
  refine (closes_gathers K).declareAll ?_ h
  intro d hd s o s' ho
  have hin : ∀ u ∈ (Declaration.type d).types, u.In K := fun u hu => .of_names (hts d hd u hu)
  exact (declare_closes hin ho).mono fun u hu => List.mem_cons_of_mem _ hu

/-- The names in the registry when the phases are done. -/
def Phases.Known (p : Phases doc fuel) (n : String) : Prop := n ∈ p.final.registry.keys

theorem phases_cover (hdoc : ReferencesResolve doc) (p : Phases doc fuel) :
    Covers p.Known (fun target => (doc.schemaByRef? target).isSome) doc := by
  refine ⟨fun {target} htarget => ?_, fun h => component_refers hdoc.refers h⟩
  obtain ⟨key, sch, hmem, heq⟩ := hdoc.referenceType_eq htarget
  rw [heq, TypeRef.in_named]
  obtain ⟨_, added, hadded, -⟩ := p.perm
  have hafter := declareComponents_declare hdoc.enums p.runsComponents _ hmem
  exact (declareResponses_emits p.runsResponses).mem_keys ((declareResponses_emits hadded).mem_keys
    (p.mapping.adds.mem_keys hafter))

/-- Every response component puts its name into the registry: in a grouping, or at the end. -/
theorem phases_cover_responses (hdoc : ReferencesResolve doc) (p : Phases doc fuel) :
    ∀ key ∈ doc.components.responses.keys, p.Known (responseComponentName key) := by
  intro key hkey
  obtain ⟨keys, added, hadded, hkeys, -⟩ := p.perm
  have hK := phases_cover hdoc p
  rcases hkeys key hkey with hin | hleft
  · exact declareResponses_known hK (responseComponent_refers hdoc.refers) hadded
      (fun n hn => (declareResponses_emits p.runsResponses).mem_keys hn) key hin hkey
  · exact declareResponses_known hK (responseComponent_refers hdoc.refers) p.runsResponses (fun n hn => hn) key hleft hkey

/-- If `K` covers what the document refers to and holds of the names in the registry, the phases stay within `K`. -/
theorem phases_close (hdoc : doc.Refers P Q) (p : Phases doc fuel) (hK : Covers K P doc)
    (hR : ∀ key, Q key → K (responseComponentName key)) (hkeys : ∀ n, p.Known n → K n) :
    (∀ t ∈ typesOf (p.sortedGroups.flatMap (·.declarations) ++ p.shared), t.In K) ∧
      ∀ o ∈ p.operations, ∀ t ∈ o.mapped.method.types, t.In K := by
  obtain ⟨keys, added, hadded, -, hp⟩ := p.perm
  have hresponse {key : String} {r : ResponseSpec} (h : KeyMap.get? doc.components.responses key = some r) :=
    responseComponent_refers hdoc h
  have hoperations : ∀ e ∈ doc.endpoints, OperationRefers P Q doc e.operation e.item.parameters := by
    intro e he
    obtain ⟨hitem, hop⟩ := Endpoint.mem_of_mem_endpointsOf he
    exact operation_refers hdoc hitem hop
  have hall := ((((declareAll_closes calendarHelpers_in p.runsHelpers).append
    (declareComponents_close hK (fun e he => component_refers hdoc he) p.runsComponents)).append
    (p.mapping.closes hK hR hoperations)).append
    (declareResponses_close hK hresponse hadded)).append (declareResponses_close hK hresponse p.runsResponses)
  obtain ⟨-, hts⟩ := hall.closes hkeys (by intro name t ht; cases ht)
  refine ⟨fun t ht => hts t ?_, fun o ho t ht => hts t ?_⟩
  · have ht := (hp.symm.flatMap_right _).mem_iff.mp ht
    simp only [List.flatMap_append, List.mem_append] at ht
    simp only [typesOf, List.mem_append]
    rcases ht with (((ht | ht) | ht) | ht) | ht
    · simp [ht]
    · simp [ht]
    · obtain ⟨d, hd, ht⟩ := List.mem_flatMap.mp ht
      obtain ⟨o, ho, hd⟩ := List.mem_flatMap.mp hd
      have : t ∈ operationTypes p.operations :=
        List.mem_flatMap.mpr ⟨o, ho, List.mem_append_right _ (List.mem_flatMap.mpr ⟨d, hd, ht⟩)⟩
      simp [this]
    · simp [ht]
    · simp [ht]
  · have : t ∈ operationTypes p.operations := List.mem_flatMap.mpr ⟨o, ho, List.mem_append_left _ ht⟩
    simp [this]

/-! ## The whole model -/

@[simp] theorem types_markError (d : Declaration) : d.markError.types = d.types := by cases d <;> rfl

@[simp] theorem typesOf_markErrors (errors : List String) (ds : List Declaration) :
    typesOf (markErrors errors ds) = typesOf ds := by
  induction ds with
  | nil => rfl
  | cons d rest ih =>
    rw [markErrors, List.map_cons, typesOf_cons, typesOf_cons]
    congr 1
    split
    · exact types_markError d
    · rfl

/-- A model mentions what its phases do. -/
theorem types_in_of_phases {m : ApiModel} {p : Phases doc fuel}
    (hgroups : m.groupings = p.sortedGroups.map fun g => { g with declarations := markErrors p.errors g.declarations })
    (hshared : m.shared = markErrors p.errors p.shared)
    (hdeclared : ∀ t ∈ typesOf (p.sortedGroups.flatMap (·.declarations) ++ p.shared), t.In K)
    (hmethods : ∀ o ∈ p.operations, ∀ t ∈ o.mapped.method.types, t.In K) : ∀ t ∈ m.types, t.In K := by
  intro t ht
  rcases List.mem_append.mp ht with ht | ht
  · have ht : t ∈ typesOf m.declarations := ht
    rw [p.marked hgroups hshared, typesOf_markErrors] at ht
    exact hdeclared t ht
  · obtain ⟨method, hm, ht⟩ := List.mem_flatMap.mp ht
    obtain ⟨g, hg, hm⟩ := List.mem_flatMap.mp hm
    rw [hgroups] at hg
    obtain ⟨g, hin, rfl⟩ := List.mem_map.mp hg
    obtain ⟨-, hgroup⟩ := groupings_methods p.runsGroups
    rw [(hgroup g ((sortBy_perm _ _).mem_iff.mp hin)).2] at hm
    obtain ⟨o, ho, rfl⟩ := List.mem_map.mp hm
    exact hmethods o (List.mem_of_mem_filter ho) t ht

theorem model_closes {config : Config} {m : ApiModel} (hdoc : ReferencesResolve doc)
    (h : Runs (buildModel doc config fuel) .start m s') : ∀ t ∈ m.types, t.In (· ∈ s'.registry.keys) := by
  obtain ⟨p, rfl, hgroups, hshared, -⟩ := runs_buildModel h
  obtain ⟨hdeclared, hmethods⟩ := phases_close hdoc.refers p (phases_cover hdoc p) (phases_cover_responses hdoc p)
    fun _ hn => hn
  exact types_in_of_phases hgroups hshared hdeclared hmethods

end Resolve

/-- Where references resolve, every name that a model mentions is the name of one of its declarations. -/
theorem mentions_declared {doc : Document} {fuel : Nat} {config : Config} {model : ApiModel} {ds : List Diagnostic}
    (hdoc : ReferencesResolve doc) (h : build fuel doc config = .ok (model, ds)) :
    ∀ n ∈ model.mentions, n ∈ declaredNames model.declarations := by
  obtain ⟨s', hrun, -⟩ := Resolve.runs_of_build h
  intro n hn
  obtain ⟨t, ht, hn⟩ := List.mem_flatMap.mp hn
  exact (Resolve.declaredNames_model hrun).1.mem_iff.mpr (Resolve.model_closes hdoc hrun t ht n hn)

/-- A component that refers to itself through a list. -/
def chained : Document :=
  { openapi := "3.0.0", info := ⟨"t", "1", none⟩, servers := [], tags := [], paths := []
    components :=
      ⟨[("N", { Schema.blank with
          type := some (.single "array")
          items := some { Schema.blank with reference := some "#/components/schemas/N" } })], [], [], []⟩ }

theorem chained_references : ReferencesResolve chained where
  schemas := by
    have hrefs : chained.schemaReferences = ["#/components/schemas/N"] := by cbv
    rw [hrefs]
    decide
  responses := by
    have hrefs : chained.responseReferences = [] := by decide
    rw [hrefs]
    decide
  noSlash := by decide
  enums := by decide

theorem mentions_declared_chained :
    ReferencesResolve chained ∧ ∃ model, build 4 chained ⟨"p", "P"⟩ = .ok (model, []) ∧ model.mentions = ["N"] ∧
      declaredNames model.declarations = ["Date", "Time", "N"] ∧
      ∀ n ∈ model.mentions, n ∈ declaredNames model.declarations := by
  obtain ⟨model, ds, h, htest⟩ := @Resolve.exists_build_of_passes chained 4 ⟨"p", "P"⟩
    (fun model ds => decide (model.mentions = ["N"] ∧
      declaredNames model.declarations = ["Date", "Time", "N"] ∧ ds = [])) (by cbv)
  obtain ⟨hmentions, hnames, rfl⟩ := of_decide_eq_true htest
  exact ⟨chained_references, model, h, hmentions, hnames, mentions_declared chained_references h⟩

end ClientGen

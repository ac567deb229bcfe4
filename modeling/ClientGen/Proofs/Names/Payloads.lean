import ClientGen.Proofs.Names.Closure
import ClientGen.Proofs.Names.Model
import ClientGen.Proofs.Parameters.Mapped

/-
  ClientGen.Proofs.Names.Payloads — components, payloads and operations mention known names only.

  - A component puts its name into the registry (`declareComponent_mem_keys`), which is the name
    that references use (`componentTypeName_eq`): enums take the singular, both there and in
    `referenceType`.
  - The name of a payload is known, whether it is declared under it, aliased, or a reference to a
    component of that very name (`declareNamed_known`).
  - So an operation closes what its method and its declarations mention (`mapOperation_closes`).
    Its query conversions follow aliases that the registry had when its parameters were mapped.
-/

namespace ClientGen

namespace Resolve

variable {K P Q : String → Prop} {doc : Document} {resolve : Resolver} {fuel : Nat} {s s' : Session}

/-! ## Names that resolving leaves in the registry -/

theorem declared_mem_keys (hr : EmitsAll resolve) {sch : Schema} {name : String} {r : Resolution}
    (h : Declared doc resolve sch name s r s') : r.type = .named name ∧ name ∈ s'.registry.keys := by
  cases h with
  | @fresh d nested t hn hb =>
    refine ⟨rfl, ?_⟩
    rw [keys_recorded]
    exact (built_emits hr hb).2.2.mem_keys (mem_keys_claimed.mpr (.inl rfl))
  | taken htaken => exact ⟨rfl, htaken.registry_eq ▸ htaken.mem_keys⟩

/-- A named type comes from a reference or is in the registry. -/
theorem resolveAt_named {sch : Schema} {name : String} {position : Position} {r : Resolution} {n : String}
    (hs : sch.Refers P) (h : Runs (resolveAt doc fuel sch name position) s r s') (ht : r.type = .named n) :
    n ∈ s'.registry.keys ∨ ∃ target, P target ∧ referenceType doc target = .named n := by
  induction fuel generalizing sch name position r with
  | zero => cases h
  | succ fuel ih =>
    cases runs_step h with
    | @reference target hshape =>
      exact .inr ⟨target, hs target (Schema.mem_references_of_reference (Schema.eq_of_shape.1 target hshape)), ht⟩
    | builtin _ hnames _ =>
      simp only [Resolution.of] at ht
      subst ht
      cases hnames
    | array _ _ => cases ht
    | only hshape _ hb =>
      exact ih (hs.child (Schema.mem_children_of_allOf (Schema.allOf_of_shape hshape) List.mem_cons_self)) hb ht
    | declared _ _ hd =>
      obtain ⟨htype, hmem⟩ := declared_mem_keys (resolveAt_emits doc fuel) hd
      rw [htype] at ht
      cases ht
      exact .inl hmem

/-! ## Components -/

theorem ownName_eq {sch : Schema} (h : sch.reference = none) (name : String) :
    ownName sch name = if sch.isEnum then Name.singular name else name := by
  cases he : sch.isEnum with
  | true =>
    rw [ownName, Schema.shape_of_isEnum h he]
    rfl
  | false =>
    unfold ownName
    split
    · rename_i hshape
      rw [Schema.isEnum_of_shape hshape] at he
      cases he
    · rfl

/-- A component that is no reference and an enum at once claims the name that references to it use. -/
theorem componentTypeName_eq {sch : Schema} (henum : sch.reference.isSome → sch.isEnum = false) (key : String) :
    componentTypeName key (some sch) = ownName sch (Name.identifier key) := by
  rw [componentTypeName, Option.any_some]
  cases hr : sch.reference with
  | none => rw [ownName_eq hr]
  | some target =>
    have hshape : sch.shape = .reference target := by rw [Schema.shape, hr]
    rw [henum (by rw [hr]; rfl), ownName_of_not_self (by rw [hshape]; rfl)]
    rfl

/-- A component declares its name, or found it taken. -/
theorem declareComponent_mem_keys {key : String} {sch : Schema} {ds : List Declaration}
    (h : Runs (declareComponent doc fuel key sch) s ds s') : ownName sch (Name.identifier key) ∈ s'.registry.keys := by
  rcases runs_declareComponent h with ⟨hself, r, hr, rfl⟩ | ⟨hself, hn, r, t, hr, rfl, rfl⟩ | ⟨hself, htaken, -⟩
  · cases fuel with
    | zero => cases hr
    | succ fuel => exact (declared_mem_keys (resolveAt_emits doc fuel) (runs_component hself hr)).2
  · rw [ownName_of_not_self hself, keys_recorded]
    exact (resolveAt_emits doc fuel hr).mem_keys (mem_keys_claimed.mpr (.inl rfl))
  · rw [ownName_of_not_self hself, htaken.registry_eq]
    exact htaken.mem_keys

theorem declareComponents_mem_keys {schemas : KeyMap Schema} {components : KeyMap (List Declaration)}
    (h : Runs (declareComponents doc fuel schemas) s components s') :
    ∀ e ∈ schemas, ownName e.2 (Name.identifier e.1) ∈ s'.registry.keys := by
  induction schemas generalizing s components with
  | nil => simp
  | cons c rest ih =>
    obtain ⟨ds, t, more, hd, hrest, rfl⟩ := runs_declareComponents_cons h
    refine List.forall_mem_cons.mpr ⟨?_, ih hrest⟩
    exact (declareComponents_emits hrest).mem_keys (declareComponent_mem_keys hd)

/-- Components declare the names that references to them use, or found them taken. -/
theorem declareComponents_declare {schemas : KeyMap Schema} {components : KeyMap (List Declaration)}
    (henum : ∀ e ∈ schemas, e.2.reference.isSome → e.2.isEnum = false)
    (h : Runs (declareComponents doc fuel schemas) s components s') :
    ∀ e ∈ schemas, componentTypeName e.1 (some e.2) ∈ s'.registry.keys := by
  intro e he
  rw [componentTypeName_eq (henum e he)]
  exact declareComponents_mem_keys h e he

theorem declareComponent_closes (hK : Covers K P doc) {key : String} {sch : Schema} (hs : sch.Refers P)
    {ds : List Declaration} (h : Runs (declareComponent doc fuel key sch) s ds s') :
    Closes K s.registry (typesOf ds) s'.registry := by
  rcases runs_declareComponent h with ⟨-, r, hr, rfl⟩ | ⟨-, -, r, t, hr, rfl, rfl⟩ | ⟨-, htaken, rfl⟩
  · exact (resolveAt_closes hK fuel hs hr).mono fun u hu => List.mem_cons_of_mem _ hu
  · have := resolveAt_closes hK fuel hs hr
    exact (Closes.declared this).mono fun u hu => List.mem_cons_of_mem _ hu
  · exact .of_eq htaken.registry_eq (by simp)

theorem closes_gathers (K : String → Prop) : Gathers fun r ds r' => Closes K r (typesOf ds) r' where
  nil _ := .of_eq rfl (by simp)
  append h h' := by
    rw [typesOf_append]
    exact h.append h'

theorem declareComponents_close (hK : Covers K P doc) {schemas : KeyMap Schema}
    {components : KeyMap (List Declaration)} (hs : ∀ e ∈ schemas, e.2.Refers P)
    (h : Runs (declareComponents doc fuel schemas) s components s') :
    Closes K s.registry (typesOf (components.flatMap (·.2))) s'.registry :=
  (closes_gathers K).declareComponents (fun e he => declareComponent_closes hK (hs e he)) h

/-! ## Payloads -/

theorem declare_closes {d : Declaration} (hd : ∀ t ∈ d.types, t.In K) {o : Option Declaration}
    (h : Runs (declare d) s o s') : Closes K s.registry (.named d.name :: typesOf o.toList) s'.registry := by
  rcases runs_declare h with ⟨rfl, hn, rfl⟩ | ⟨rfl, htaken⟩
  · have : Closes K (claimed s d.name none).registry (d.types ++ []) (claimed s d.name none).registry :=
      .of_eq rfl (by simpa using hd)
    exact this.declared
  · have hr := htaken.registry_eq
    exact Closes.named (.of_eq hr (by simp)) (hr ▸ htaken.mem_keys)

theorem declare_mem_keys {d : Declaration} {o : Option Declaration} (h : Runs (declare d) s o s') :
    d.name ∈ s'.registry.keys := by
  rcases runs_declare h with ⟨rfl, hn, rfl⟩ | ⟨rfl, htaken⟩
  · rw [keys_recorded]
    exact mem_keys_claimed.mpr (.inl rfl)
  · rw [htaken.registry_eq]
    exact htaken.mem_keys

/-- The payload's name is known: it is that of its schema, or an alias in the registry. -/
theorem declareNamed_known (hK : Covers K P doc) {name : String} {sch : Schema} (hs : sch.Refers P)
    {ds : List Declaration} (h : Runs (declareNamed doc fuel name sch) s ds s')
    (hk : ∀ n ∈ s'.registry.keys, K n) : K name := by
  obtain ⟨r, t, hr, ⟨ht, -, rfl⟩ | ⟨-, o, ho, -⟩⟩ := runs_declareNamed h
  · rcases hr with ⟨target, hshape, rfl, -⟩ | hr
    · have := hK.reference hs hshape
      rw [show referenceType doc target = .named name from ht] at this
      exact TypeRef.in_named.mp this
    · rcases resolveAt_named hs hr ht with hmem | ⟨target, hsome, heq⟩
      · exact hk name hmem
      · have := hK.refs hsome
        rw [heq] at this
        exact TypeRef.in_named.mp this
  · exact hk name (declare_mem_keys ho)

theorem declareNamed_closes (hK : Covers K P doc) {name : String} {sch : Schema} (hs : sch.Refers P)
    {ds : List Declaration} (h : Runs (declareNamed doc fuel name sch) s ds s') :
    Closes K s.registry (.named name :: typesOf ds) s'.registry := by
  have htype {r : Resolution} {t : Session} (hr : (∃ target, sch.shape = .reference target ∧
        r = .of (referenceType doc target) ∧ t = s) ∨ Runs (resolve doc fuel sch (payloadName sch name)) s r t) :
      Closes K s.registry (r.type :: typesOf r.declarations) t.registry := by
    rcases hr with ⟨target, hshape, rfl, rfl⟩ | hr
    · exact .of_eq rfl (by simpa [Resolution.of] using hK.reference hs hshape)
    · exact resolveAt_closes hK fuel hs hr
  obtain ⟨r, t, hr, ⟨ht, rfl, rfl⟩ | ⟨-, o, ho, rfl⟩⟩ := runs_declareNamed h
  · exact ht ▸ htype hr
  · -- the alias stands for the type that was resolved, so both closures go through together
    have hr := htype hr
    refine ⟨fun n hn => ?_, fun hk ha => ?_⟩
    · exact (declare_emits rfl ho).mem_keys (hr.grows n hn)
    · have hk' : ∀ n ∈ t.registry.keys, K n := fun n hn => hk n ((declare_emits rfl ho).mem_keys hn)
      obtain ⟨ha', hts⟩ := hr.closes hk' ha
      have htarget : ∀ u ∈ (Declaration.type (.aliasOf name r.type sch.documentation)).types, u.In K := by
        intro u hu
        rw [List.mem_singleton.mp hu]
        exact hts _ List.mem_cons_self
      obtain ⟨ha'', hus⟩ := (declare_closes htarget ho).closes hk ha'
      refine ⟨ha'', fun u hu => ?_⟩
      rw [typesOf_append, ← List.cons_append] at hu
      rcases List.mem_append.mp hu with hu | hu
      · exact hus u hu
      · exact hts u (List.mem_cons_of_mem _ hu)

/-- `P` holds of the references in the schema of a response. -/
def ResponseRefers (P : String → Prop) (r : ResponseSpec) : Prop := ∀ sch, r.jsonSchema? = some sch → sch.Refers P

theorem declareResponseComponent_known (hK : Covers K P doc) {key : String} {r : ResponseSpec}
    (hr : ResponseRefers P r) {ds : List Declaration}
    (h : Runs (declareResponseComponent doc fuel key r) s ds s') (hk : ∀ n ∈ s'.registry.keys, K n) :
    K (responseComponentName key) := by
  rcases runs_declareResponseComponent h with ⟨sch, hsch, h⟩ | ⟨repr, o, -, ho, -⟩
  · exact declareNamed_known hK (hr sch hsch) h hk
  · exact hk _ (declare_mem_keys ho)

theorem declareResponseComponent_closes (hK : Covers K P doc) {key : String} {r : ResponseSpec}
    (hr : ResponseRefers P r) {ds : List Declaration}
    (h : Runs (declareResponseComponent doc fuel key r) s ds s') :
    Closes K s.registry (typesOf ds) s'.registry := by
  rcases runs_declareResponseComponent h with ⟨sch, hsch, h⟩ | ⟨repr, o, hrepr, ho, rfl⟩
  · exact (declareNamed_closes hK (hr sch hsch) h).mono fun u hu => List.mem_cons_of_mem _ hu
  · refine (declare_closes (fun t ht => ?_) ho).mono fun u hu => List.mem_cons_of_mem _ hu
    rcases hrepr with rfl | rfl <;> cases ht

theorem declareResponses_known (hK : Covers K P doc)
    (hr : ∀ {key r}, KeyMap.get? doc.components.responses key = some r → ResponseRefers P r) {keys : List String}
    {ds : List Declaration} (h : Runs (declareResponses doc fuel keys) s ds s') (hk : ∀ n ∈ s'.registry.keys, K n) :
    ∀ key ∈ keys, key ∈ doc.components.responses.keys → K (responseComponentName key) := by
  induction keys generalizing s ds with
  | nil => simp
  | cons k rest ih =>
    obtain ⟨own, t, more, hown, hrest, rfl⟩ := runs_declareResponses_cons h
    intro key hkey hin
    rcases List.mem_cons.mp hkey with rfl | hkey
    · rcases hown with ⟨hnone, -, -⟩ | ⟨r, hget, hown⟩
      · exact absurd hin (KeyMap.get?_eq_none_iff.mp hnone)
      · exact declareResponseComponent_known hK (hr hget) hown
          fun n hn => hk n ((declareResponses_emits hrest).mem_keys hn)
    · exact ih hrest key hkey hin

theorem declareResponses_close (hK : Covers K P doc)
    (hr : ∀ {key r}, KeyMap.get? doc.components.responses key = some r → ResponseRefers P r) {keys : List String}
    {ds : List Declaration} (h : Runs (declareResponses doc fuel keys) s ds s') :
    Closes K s.registry (typesOf ds) s'.registry :=
  (closes_gathers K).declareResponses (fun hget => declareResponseComponent_closes hK (hr hget)) h

/-! ## Operations -/

/-- `P` holds of the references in the schemas that an operation is mapped from, `Q` of the response components that it
    names. -/
structure OperationRefers (P Q : String → Prop) (doc : Document) (op : Operation) (ofPath : List (RefOr ParameterSpec)) :
    Prop where
  parameters : ∀ r ∈ op.parameters ++ ofPath, ∀ p, doc.parameter? r = some p → ∀ sch, p.schema = some sch →
    sch.Refers P
  body : ∀ sch, bodySchema? doc op = some sch → sch.Refers P
  responses : ∀ e ∈ op.responses, ∀ spec, e.2 = .item spec → ResponseRefers P spec
  targets : ∀ e ∈ op.responses, ∀ target, e.2 = .ref target →
    Q (Name.lastSegment target)

theorem parametersOf_refer {httpMethod : HttpMethod} {path : String} {op : Operation}
    {ofPath : List (RefOr ParameterSpec)} (hop : OperationRefers P Q doc op ofPath) :
    ∀ p ∈ parametersOf doc httpMethod path op ofPath, ∀ sch, p.schema = some sch → sch.Refers P := by
  intro p hp sch hsch
  obtain ⟨r, hr, hp⟩ := exists_parameter_of_mem_mergeParameters hp
  exact hop.parameters r hr p hp sch hsch

theorem type_in (hK : Covers K P doc) {p : ParameterSpec} (hp : ∀ sch, p.schema = some sch → sch.Refers P)
    (subject : String) : (p.type doc subject).1.In K := by
  unfold ParameterSpec.type
  split
  · exact mapType_in hK (hp _ ‹_›)
  · exact .of_names rfl

theorem pathArguments_in (hK : Covers K P doc) {operationId : String} {parameters : List ParameterSpec}
    (hp : ∀ p ∈ parameters, ∀ sch, p.schema = some sch → sch.Refers P) (taken placeholders : List String) :
    ∀ a ∈ (pathArguments doc operationId parameters taken placeholders).1, a.type.In K := by
  intro a ha
  obtain ⟨-, placeholder, -, htype⟩ := mem_pathArguments.mp ha
  rw [htype, placeholderType]
  split
  · exact type_in hK (hp _ (List.mem_of_find?_eq_some ‹_›)) _
  · exact .of_names rfl

theorem queryFields_in (hK : Covers K P doc) {operationId operationName : String} {parameters : List ParameterSpec}
    (hp : ∀ p ∈ parameters, ∀ sch, p.schema = some sch → sch.Refers P) :
    ∀ f ∈ (queryFields doc operationId operationName parameters).1, f.type.In K := by
  rw [queryFields_eq]
  intro f hf
  obtain ⟨p, hquery, rfl⟩ := List.mem_map.mp hf
  exact type_in hK (hp p (List.mem_filter.mp hquery).1) _

theorem queryParams_closes (hK : Covers K P doc) {operationId operationName : String} {parameters : List ParameterSpec}
    (hp : ∀ p ∈ parameters, ∀ sch, p.schema = some sch → sch.Refers P) {ds : List Declaration}
    {query : Option Argument} (h : Runs (queryParams doc operationId operationName parameters) s (ds, query) s') :
    Closes K s.registry (query.toList.map (·.type) ++ typesOf ds) s'.registry := by
  rcases runs_queryParams h with ⟨rfl, rfl, he⟩ | ⟨t, o, ht, rfl, ho, hds⟩
  · exact .of_eq he (by simp)
  have hfields : ∀ f ∈ sortedFields (queryFields doc operationId operationName parameters).1, f.type.In K :=
    fun f hf => queryFields_in hK hp f (mem_of_mem_sortedFields hf)
  generalize sortedFields (queryFields doc operationId operationName parameters).1 = fields at *
  have hstruct := declare_closes (K := K) (fun u hu => by
    obtain ⟨f, hf, rfl⟩ := List.mem_map.mp hu
    exact hfields f hf) ho
  rw [ht] at hstruct
  refine ⟨hstruct.grows, fun hk ha => ?_⟩
  obtain ⟨ha', hts⟩ := hstruct.closes hk ha
  refine ⟨ha', fun u hu => ?_⟩
  rcases List.mem_cons.mp hu with rfl | hu
  · exact hts _ List.mem_cons_self
  · replace hu : u ∈ typesOf ds := hu
    cases o with
    | none => rw [hds] at hu; cases hu
    | some d =>
      rw [hds, typesOf_cons] at hu
      rcases List.mem_append.mp hu with hu | hu
      · exact hts u (List.mem_cons_of_mem _ (List.mem_append_left _ hu))
      · -- a conversion follows the field's type along the aliases that are in the registry so far
        simp only [typesOf_cons, typesOf_nil, List.append_nil, Declaration.types, QueryEncoder.ofFields, List.map_map,
          List.mem_map] at hu
        obtain ⟨f, hf, rfl⟩ := hu
        exact ha.queryElement (hfields f hf)

theorem requestBody_closes (hK : Covers K P doc) {operationName : String} {op : Operation}
    (hb : ∀ sch, bodySchema? doc op = some sch → sch.Refers P) {ds : List Declaration} {body : Option Argument}
    (h : Runs (requestBody doc fuel operationName op) s (ds, body) s') :
    Closes K s.registry (body.toList.map (·.type) ++ typesOf ds) s'.registry := by
  rcases runs_requestBody h with ⟨-, rfl, rfl, rfl⟩ | ⟨sch, hsch, hrun, rfl⟩
  · exact .of_eq rfl (by simp)
  · exact declareNamed_closes hK (hb sch hsch) hrun

/-- The types of mapped responses. -/
def responseTypes (ms : List MappedResponse) : List TypeRef := ms.filterMap (·.response.type)

theorem responseType_closes (hK : Covers K P doc)
    (hR : ∀ key, Q key → K (responseComponentName key)) {operationName key : String}
    {r : RefOr ResponseSpec} (hitem : ∀ spec, r = .item spec → ResponseRefers P spec)
    (htarget : ∀ target, r = .ref target → Q (Name.lastSegment target))
    {type : Option TypeRef} {ds : List Declaration}
    (h : Runs (responseType doc fuel operationName key r) s (type, ds) s') :
    Closes K s.registry (type.toList ++ typesOf ds) s'.registry := by
  rcases runs_responseType h with ⟨target, hr, rfl, rfl, rfl⟩ | ⟨_, -, -, rfl, rfl, rfl⟩ |
    ⟨spec, sch, target, hr, hsch, hshape, rfl, rfl, rfl⟩ | ⟨spec, sch, hr, hsch, rfl, hrun⟩
  · exact .of_eq rfl (by simpa using hR _ (htarget target hr))
  · exact .of_eq rfl (by simp)
  · exact .of_eq rfl (by simpa using hK.reference (hitem spec hr sch hsch) hshape)
  · exact declareNamed_closes hK (hitem spec hr sch hsch) hrun

theorem responses_close (hK : Covers K P doc)
    (hR : ∀ key, Q key → K (responseComponentName key)) {operationId operationName : String}
    {rs : List (String × RefOr ResponseSpec)} (hitem : ∀ e ∈ rs, ∀ spec, e.2 = .item spec → ResponseRefers P spec)
    (htarget : ∀ e ∈ rs, ∀ target, e.2 = .ref target → Q (Name.lastSegment target))
    {ms : List MappedResponse} {ds : List Declaration}
    (h : Runs (responses doc fuel operationId operationName rs) s (ms, ds) s') :
    Closes K s.registry (responseTypes ms ++ typesOf ds) s'.registry := by
  induction rs generalizing s ms ds with
  | nil =>
    simp only [responses, runs_pure, Prod.mk.injEq] at h
    obtain ⟨⟨rfl, rfl⟩, rfl⟩ := h
    exact .of_eq rfl (by simp [responseTypes])
  | cons e rest ih =>
    obtain ⟨m, own, t, more, moreDs, hone, hrest, rfl, rfl⟩ := runs_responses_cons h
    obtain ⟨status, -, htype, -⟩ := runs_response hone
    have hone := responseType_closes hK hR (hitem e List.mem_cons_self) (htarget e List.mem_cons_self) htype
    have hrest := ih (fun x hx => hitem x (List.mem_cons_of_mem e hx)) (fun x hx => htarget x (List.mem_cons_of_mem e hx))
      hrest
    refine (hone.append hrest).mono fun u hu => ?_
    have hcons : responseTypes (m :: more) = m.response.type.toList ++ responseTypes more := by
      simp only [responseTypes, List.filterMap_cons]
      cases m.response.type <;> rfl
    rw [hcons, typesOf_append] at hu
    simp only [List.mem_append] at hu ⊢
    rcases hu with (hu | hu) | hu | hu <;> simp [hu]

/-- Arranging adds no type. -/
theorem mem_responseTypes_of_arrange {ms : List MappedResponse} {t : TypeRef}
    (h : t ∈ responseTypes (MappedResponse.arrange ms)) : t ∈ responseTypes ms := by
  have hsorted {u : TypeRef} (hu : u ∈ responseTypes (sortBy MappedResponse.le ms)) : u ∈ responseTypes ms :=
    ((sortBy_perm _ ms).filterMap _).mem_iff.mp hu
  simp only [MappedResponse.arrange] at h
  split at h
  · exact hsorted h
  · rw [responseTypes, List.filterMap_append] at h
    rcases List.mem_append.mp h with h | h
    · exact hsorted h
    · cases h

theorem mem_responseTypes_of_resultType? {ms : List MappedResponse} {t : TypeRef}
    (h : MappedResponse.resultType? ms = some t) : t ∈ responseTypes ms := by
  obtain ⟨m, hm, ht⟩ := Option.bind_eq_some_iff.mp h
  exact List.mem_filterMap.mpr ⟨m, List.mem_of_find?_eq_some hm, ht⟩

theorem mapOperation_closes (hK : Covers K P doc)
    (hR : ∀ key, Q key → K (responseComponentName key)) {httpMethod : HttpMethod}
    {path : String} {op : Operation} {ofPath : List (RefOr ParameterSpec)} (hop : OperationRefers P Q doc op ofPath)
    {m : MappedOperation} (h : Runs (mapOperation doc fuel httpMethod path op ofPath) s m s') :
    Closes K s.registry (m.method.types ++ typesOf m.declarations) s'.registry := by
  obtain ⟨t, t1, t2, mapped, ht, hq, hb, hr, hpath, hresponses, hresult, -⟩ := runs_mapOperation h
  have hquery := queryParams_closes hK (parametersOf_refer hop) hq
  have hbody := requestBody_closes hK hop.body hb
  have hrest := responses_close hK hR hop.responses hop.targets hr
  have hargs : Closes K s.registry (m.method.pathParams.map (·.type)) t.registry := by
    refine .of_eq ht fun u hu => ?_
    obtain ⟨a, ha, rfl⟩ := List.mem_map.mp hu
    rw [hpath] at ha
    exact pathArguments_in hK (parametersOf_refer hop) _ _ a ha
  refine (((hargs.append hquery).append hbody).append hrest).mono fun u hu => ?_
  have hmapped : u ∈ m.method.responseType.toList ∨ u ∈ m.method.responses.filterMap (·.type) → u ∈ responseTypes mapped := by
    rintro (hu | hu)
    · rw [hresult] at hu
      exact mem_responseTypes_of_arrange (mem_responseTypes_of_resultType? (Option.mem_toList.mp hu))
    · rw [hresponses, List.filterMap_map] at hu
      exact mem_responseTypes_of_arrange hu
  simp only [Method.types, MappedOperation.declarations, typesOf_append, List.mem_append] at hu ⊢
  rcases hu with ((((hu | hu) | hu) | hu) | hu) | (hu | hu) | hu
  · simp [hu]
  · simp [hu]
  · simp [hu]
  · simp [hmapped (.inl hu)]
  · simp [hmapped (.inr hu)]
  · simp [hu]
  · simp [hu]
  · simp [hu]

end Resolve

end ClientGen

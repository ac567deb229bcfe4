import ClientGen.Proofs.Run.Operation

/-
  ClientGen.Proofs.Names.Emission — every name that is claimed is emitted once.

  `Adds r ds r'`: from the registry `r` to `r'` exactly the declared names of `ds` were claimed,
  each of them once. A step of resolution emits what it claims, and running two steps emits
  both lists (`Adds.append`); a declaration counts when its name is claimed, before what is
  nested in it (`Emits.declared`). So:
  - `resolveAt_emits`: resolving a schema emits what it claims, whatever collides on the way.
  - `mapOperation_adds`: so does an operation; its only encoder stands behind its params struct.
-/

namespace ClientGen

namespace Declaration

/-- A query encoder has no name of its own. -/
def isEncoder : Declaration → Bool
  | .queryEncoder _ => true
  | _ => false

end Declaration

/-- The names of types, enums and sum types. -/
def declaredNames (ds : List Declaration) : List String := (ds.filter (!·.isEncoder)).map (·.name)

@[simp] theorem declaredNames_nil : declaredNames [] = [] := rfl

@[simp] theorem declaredNames_append (ds es : List Declaration) :
    declaredNames (ds ++ es) = declaredNames ds ++ declaredNames es := by
  simp [declaredNames]

theorem declaredNames_cons {d : Declaration} (h : d.isEncoder = false) (ds : List Declaration) :
    declaredNames (d :: ds) = d.name :: declaredNames ds := by
  simp [declaredNames, h]

@[simp] theorem declaredNames_encoder (e : QueryEncoder) : declaredNames [.queryEncoder e] = [] := rfl

theorem declaredNames_perm {ds es : List Declaration} (h : ds.Perm es) :
    (declaredNames ds).Perm (declaredNames es) := (h.filter _).map _

theorem mem_declaredNames {ds : List Declaration} {name : String} (h : name ∈ declaredNames ds) :
    ∃ d ∈ ds, d.name = name := by
  obtain ⟨d, hd, hname⟩ := List.mem_map.mp h
  exact ⟨d, (List.mem_filter.mp hd).1, hname⟩

/-- The declarations of an operation. -/
def MappedOperation.declarations (m : MappedOperation) : List Declaration :=
  m.bodyTypes ++ m.paramTypes ++ m.responseTypes

/-! ## Claims and emissions -/

structure Adds (r : Registry) (ds : List Declaration) (r' : Registry) : Prop where
  names : r'.keys.Perm (declaredNames ds ++ r.keys)
  nodup : r.keys.Nodup → r'.keys.Nodup

namespace Adds

variable {r r' r'' : Registry} {ds es : List Declaration}

theorem refl (r : Registry) : Adds r [] r := ⟨.refl _, id⟩

theorem append (h : Adds r ds r') (h' : Adds r' es r'') : Adds r (ds ++ es) r'' := by
  refine ⟨h'.names.trans ?_, fun hr => h'.nodup (h.nodup hr)⟩
  rw [declaredNames_append]
  calc declaredNames es ++ r'.keys
      |>.Perm (declaredNames es ++ (declaredNames ds ++ r.keys)) := h.names.append_left _
    _ |>.Perm (declaredNames ds ++ declaredNames es ++ r.keys) := by
      rw [← List.append_assoc]
      exact List.perm_append_comm.append_right _

theorem perm (h : Adds r ds r') (hp : ds.Perm es) : Adds r es r' :=
  ⟨h.names.trans ((declaredNames_perm hp).append_right _), h.nodup⟩

/-- A claim and what is emitted for it and inside it. -/
theorem declared {name : String} {e : RegistryEntry} {d : Declaration} {nested : List Declaration}
    (hn : name ∉ r.keys) (h : Adds (KeyMap.insert name e r) nested r') (hd : d.name = name)
    (hp : d.isEncoder = false) : Adds r (d :: nested) (r'.record d) := by
  have hkeys := KeyMap.keys_insert_perm hn e
  refine ⟨?_, fun hr => ?_⟩
  · simp only [Registry.record, KeyMap.keys_modify, declaredNames_cons hp, hd]
    exact (h.names.trans (hkeys.append_left _)).trans List.perm_middle
  · simp only [Registry.record, KeyMap.keys_modify]
    exact h.nodup (hkeys.nodup_iff.mpr (List.nodup_cons.mpr ⟨hn, hr⟩))

theorem mem_keys (h : Adds r ds r') {n : String} (hn : n ∈ r.keys) : n ∈ r'.keys :=
  h.names.mem_iff.mpr (List.mem_append_right _ hn)

end Adds

/-- Names were claimed and emitted without any encoder. -/
structure Emits (r : Registry) (ds : List Declaration) (r' : Registry) : Prop extends Adds r ds r' where
  plain : ∀ d ∈ ds, d.isEncoder = false

namespace Emits

variable {r r' r'' : Registry} {ds es : List Declaration}

theorem of_eq (h : r' = r) : Emits r [] r' := by
  subst h
  exact ⟨.refl _, by simp⟩

theorem append (h : Emits r ds r') (h' : Emits r' es r'') : Emits r (ds ++ es) r'' := by
  refine ⟨h.toAdds.append h'.toAdds, fun d hd => ?_⟩
  rcases List.mem_append.mp hd with hd | hd
  · exact h.plain d hd
  · exact h'.plain d hd

theorem declared {name : String} {e : RegistryEntry} {d : Declaration} {nested : List Declaration}
    (hn : name ∉ r.keys) (h : Emits (KeyMap.insert name e r) nested r') (hd : d.name = name)
    (hp : d.isEncoder = false) : Emits r (d :: nested) (r'.record d) := by
  refine ⟨h.toAdds.declared hn hd hp, fun x hx => ?_⟩
  rcases List.mem_cons.mp hx with rfl | hx
  · exact hp
  · exact h.plain x hx

end Emits

namespace Resolve

variable {doc : Document} {resolve : Resolver} {fuel : Nat} {s s' : Session}

/-- A resolver that emits what it claims. -/
def EmitsAll (resolve : Resolver) : Prop :=
  ∀ {sch name position s r s'}, Runs (resolve sch name position) s r s' → Emits s.registry r.declarations s'.registry

/-! ## Inside a schema -/

theorem structFields_emits (hr : EmitsAll resolve) {isRequired : String → Bool} {parent : String} {position : Position}
    {properties : List (String × Schema)} {fields : List Field} {ds : List Declaration}
    (h : Runs (structFields resolve isRequired parent position properties) s (fields, ds) s') :
    Emits s.registry ds s'.registry := by
  induction properties generalizing s fields ds with
  | nil =>
    simp only [structFields, runs_pure, Prod.mk.injEq] at h
    obtain ⟨⟨rfl, rfl⟩, rfl⟩ := h
    exact .of_eq rfl
  | cons e rest ih =>
    obtain ⟨r, t, more, moreDs, hone, hrest, rfl, rfl⟩ := runs_structFields_cons h
    exact (hr hone).append (ih hrest)

theorem sumVariants_emits (hr : EmitsAll resolve) {name : String} {number : Nat} {labels : NameSet}
    {branches : List Schema} {variants : List SumVariant} {ds : List Declaration}
    (h : Runs (sumVariants resolve name number labels branches) s (variants, ds) s') :
    Emits s.registry ds s'.registry := by
  induction branches generalizing s number labels variants ds with
  | nil =>
    simp only [sumVariants, runs_pure, Prod.mk.injEq] at h
    obtain ⟨⟨rfl, rfl⟩, rfl⟩ := h
    exact .of_eq rfl
  | cons branch rest ih =>
    obtain ⟨r, t, more, moreDs, hone, hrest, rfl, rfl⟩ := runs_sumVariants_cons h
    exact (hr hone).append (ih hrest)

theorem partFields_emits (hr : EmitsAll resolve) {sch : Schema} {name : String} {number : Nat} {seen : List String}
    {parts : List Part} {fields : List Field} {ds : List Declaration}
    (h : Runs (partFields resolve sch name number seen parts) s (fields, ds) s') :
    Emits s.registry ds s'.registry := by
  induction parts generalizing s number seen fields ds with
  | nil =>
    simp only [partFields, runs_pure, Prod.mk.injEq] at h
    obtain ⟨⟨rfl, rfl⟩, rfl⟩ := h
    exact .of_eq rfl
  | cons part rest ih =>
    rcases runs_partFields_cons h with ⟨t, ht, -, hrest⟩ | ⟨branch, t, own, ownDs, more, moreDs, -, hown, hrest, rfl, rfl⟩
    · exact ht ▸ ih hrest
    · exact (structFields_emits hr hown).append (ih hrest)

/-- What is built has the claimed name, and its nested declarations were claimed after it. -/
theorem built_emits (hr : EmitsAll resolve) {sch : Schema} {name : String} {d : Declaration}
    {nested : List Declaration} (h : Built doc resolve sch name s d nested s') :
    d.name = name ∧ d.isEncoder = false ∧ Emits s.registry nested s'.registry := by
  cases h with
  | enumeration _ he => exact ⟨rfl, rfl, .of_eq he⟩
  | opaqueEnum _ he => exact ⟨rfl, rfl, .of_eq he⟩
  | opaqueMap => exact ⟨rfl, rfl, .of_eq rfl⟩
  | map _ hv => exact ⟨rfl, rfl, hr hv⟩
  | struct hf => exact ⟨rfl, rfl, structFields_emits hr hf⟩
  | sum _ hv => exact ⟨rfl, rfl, sumVariants_emits hr hv⟩
  | merged _ hf => exact ⟨rfl, rfl, partFields_emits hr hf⟩

theorem declared_emits (hr : EmitsAll resolve) {sch : Schema} {name : String} {r : Resolution}
    (h : Declared doc resolve sch name s r s') : Emits s.registry r.declarations s'.registry := by
  cases h with
  | fresh hn hb =>
    obtain ⟨hname, hplain, hnested⟩ := built_emits hr hb
    exact hnested.declared hn hname hplain
  | taken htaken => exact .of_eq htaken.registry_eq

theorem step_emits (hr : EmitsAll resolve) : EmitsAll (step doc resolve) := by
  intro sch name position s r s' h
  cases runs_step h with
  | reference _ => exact .of_eq rfl
  | builtin _ _ hs => exact .of_eq hs
  | array _ hi =>
    have := hr hi
    exact this
  | only _ _ hb => exact hr hb
  | declared _ _ hd => exact declared_emits hr hd

theorem resolveAt_emits (doc : Document) (fuel : Nat) : EmitsAll (resolveAt doc fuel) := by
  induction fuel with
  | zero => intro sch name position s r s' h; cases h
  | succ fuel ih => exact step_emits ih

/-! ## Components and payloads -/

theorem declare_emits {d : Declaration} (hp : d.isEncoder = false) {o : Option Declaration}
    (h : Runs (declare d) s o s') : Emits s.registry o.toList s'.registry := by
  rcases runs_declare h with ⟨rfl, hn, rfl⟩ | ⟨rfl, htaken⟩
  · exact .declared hn (.of_eq rfl) rfl hp
  · exact .of_eq htaken.registry_eq

theorem declareComponent_emits {key : String} {sch : Schema} {ds : List Declaration}
    (h : Runs (declareComponent doc fuel key sch) s ds s') : Emits s.registry ds s'.registry := by
  rcases runs_declareComponent h with ⟨-, r, hr, rfl⟩ | ⟨-, hn, r, t, hr, rfl, rfl⟩ | ⟨-, htaken, rfl⟩
  · exact resolveAt_emits doc fuel hr
  · exact .declared hn (resolveAt_emits doc fuel hr) rfl rfl
  · exact .of_eq htaken.registry_eq

theorem declareNamed_emits {name : String} {sch : Schema} {ds : List Declaration}
    (h : Runs (declareNamed doc fuel name sch) s ds s') : Emits s.registry ds s'.registry := by
  obtain ⟨r, t, hr, hrest⟩ := runs_declareNamed h
  have hresolved : Emits s.registry r.declarations t.registry := by
    rcases hr with ⟨target, -, rfl, rfl⟩ | hr
    · exact .of_eq rfl
    · exact resolveAt_emits doc fuel hr
  rcases hrest with ⟨-, rfl, rfl⟩ | ⟨-, o, ho, rfl⟩
  · exact hresolved
  · -- the alias is declared after its schema, and stands before it
    have h := hresolved.append (declare_emits rfl ho)
    exact ⟨h.toAdds.perm List.perm_append_comm, fun d hd => h.plain d (List.perm_append_comm.mem_iff.mpr hd)⟩

theorem declareResponseComponent_emits {key : String} {r : ResponseSpec} {ds : List Declaration}
    (h : Runs (declareResponseComponent doc fuel key r) s ds s') : Emits s.registry ds s'.registry := by
  rcases runs_declareResponseComponent h with ⟨sch, -, h⟩ | ⟨repr, o, -, ho, rfl⟩
  · exact declareNamed_emits h
  · exact declare_emits rfl ho

/-! ## Operations -/

theorem requestBody_emits {operationName : String} {op : Operation} {ds : List Declaration} {body : Option Argument}
    (h : Runs (requestBody doc fuel operationName op) s (ds, body) s') : Emits s.registry ds s'.registry := by
  rcases runs_requestBody h with ⟨-, rfl, -, rfl⟩ | ⟨sch, -, h, -⟩
  · exact .of_eq rfl
  · exact declareNamed_emits h

theorem responseType_emits {operationName key : String} {r : RefOr ResponseSpec} {type : Option TypeRef}
    {ds : List Declaration} (h : Runs (responseType doc fuel operationName key r) s (type, ds) s') :
    Emits s.registry ds s'.registry := by
  rcases runs_responseType h with ⟨_, -, -, rfl, rfl⟩ | ⟨_, -, -, -, rfl, rfl⟩ | ⟨_, _, _, -, -, -, -, rfl, rfl⟩ |
    ⟨_, _, -, -, -, h⟩
  · exact .of_eq rfl
  · exact .of_eq rfl
  · exact .of_eq rfl
  · exact declareNamed_emits h

theorem responses_emits {operationId operationName : String} {rs : List (String × RefOr ResponseSpec)}
    {ms : List MappedResponse} {ds : List Declaration}
    (h : Runs (responses doc fuel operationId operationName rs) s (ms, ds) s') : Emits s.registry ds s'.registry := by
  induction rs generalizing s ms ds with
  | nil =>
    simp only [responses, runs_pure, Prod.mk.injEq] at h
    obtain ⟨⟨rfl, rfl⟩, rfl⟩ := h
    exact .of_eq rfl
  | cons e rest ih =>
    obtain ⟨m, own, t, more, moreDs, hone, hrest, rfl, rfl⟩ := runs_responses_cons h
    obtain ⟨status, -, htype, -⟩ := runs_response hone
    exact (responseType_emits htype).append (ih hrest)

/-- Every encoder directly follows the struct that it encodes. -/
def EncodersFollow (ds : List Declaration) : Prop :=
  ∀ before e after, ds = before ++ .queryEncoder e :: after →
    ∃ front fields documentation isError,
      before = front ++ [.type ⟨e.typeName, .struct fields, documentation, isError⟩]

theorem encodersFollow_of_plain {ds : List Declaration} (h : ∀ d ∈ ds, d.isEncoder = false) : EncodersFollow ds := by
  intro before e after hds
  have := h (.queryEncoder e) (by rw [hds]; simp)
  cases this

theorem EncodersFollow.append {ds es : List Declaration} (hd : EncodersFollow ds) (he : EncodersFollow es) :
    EncodersFollow (ds ++ es) := by
  intro before e after h
  rcases List.append_eq_append_iff.mp h with ⟨mid, rfl, hes⟩ | ⟨mid, hds, htail⟩
  · obtain ⟨front, fields, documentation, isError, rfl⟩ := he mid e after hes
    exact ⟨ds ++ front, fields, documentation, isError, by rw [List.append_assoc]⟩
  · cases mid with
    | nil =>
      obtain ⟨front, fields, documentation, isError, hf⟩ := he [] e after htail.symm
      simp at hf
    | cons x rest =>
      rw [List.cons_append, List.cons.injEq] at htail
      obtain ⟨rfl, -⟩ := htail
      exact hd before e rest hds

theorem queryParams_adds {operationId operationName : String} {parameters : List ParameterSpec}
    {ds : List Declaration} {query : Option Argument}
    (h : Runs (queryParams doc operationId operationName parameters) s (ds, query) s') :
    Adds s.registry ds s'.registry ∧ EncodersFollow ds := by
  rcases runs_queryParams h with ⟨rfl, -, hs⟩ | ⟨t, o, ht, -, ho, rfl⟩
  · exact ⟨hs ▸ .refl _, encodersFollow_of_plain (by simp)⟩
  · rw [← ht]
    have hadds := (declare_emits rfl ho).toAdds
    rcases runs_declare ho with ⟨rfl, -, -⟩ | ⟨rfl, -⟩
    · refine ⟨⟨hadds.names, hadds.nodup⟩, ?_⟩
      intro before e after hds
      match before, hds with
      | [d], hds =>
        simp only [List.cons_append, List.nil_append, List.cons.injEq, Declaration.queryEncoder.injEq] at hds
        obtain ⟨rfl, rfl, -⟩ := hds
        exact ⟨[], _, _, _, rfl⟩
      | _ :: _ :: _, hds => simp at hds
    · exact ⟨hadds, encodersFollow_of_plain (by simp)⟩

theorem mapOperation_adds {httpMethod : HttpMethod} {path : String} {op : Operation}
    {ofPath : List (RefOr ParameterSpec)} {m : MappedOperation}
    (h : Runs (mapOperation doc fuel httpMethod path op ofPath) s m s') :
    Adds s.registry m.declarations s'.registry ∧ EncodersFollow m.bodyTypes ∧
      EncodersFollow m.paramTypes ∧ EncodersFollow m.responseTypes := by
  obtain ⟨t, t1, t2, mapped, ht, hq, hb, hr, -⟩ := runs_mapOperation h
  obtain ⟨hparams, hfollow⟩ := queryParams_adds hq
  have hbody := requestBody_emits hb
  have hresponses := responses_emits hr
  refine ⟨?_, encodersFollow_of_plain hbody.plain, hfollow, encodersFollow_of_plain hresponses.plain⟩
  rw [ht] at hparams
  exact ((hparams.append hbody.toAdds).append hresponses.toAdds).perm (List.perm_append_comm.append_right _)

end Resolve

end ClientGen

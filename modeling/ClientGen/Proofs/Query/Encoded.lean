import Mathlib
import ClientGen.Proofs.Errors.Marked
import ClientGen.Proofs.Merge.First
import ClientGen.Proofs.Query.Statement
import ClientGen.Proofs.Run.Growing

/-
  ClientGen.Proofs.Query.Encoded — every query parameter is encoded.

  The struct of an operation's query parameters and its encoder are made together, from the same
  fields, when the name of the struct is free; a name that is taken is reported (`params_of_run`).
  An encoder stands right behind its struct, so there are as few encoders of one name as there are
  structs (`EncodersFollow.encoderNames_sublist`), and looking up the name of an encoder leads to
  its struct (`declaration?_of_mem`). The fields of a struct differ in their names, so looking up
  the field of a conversion leads to the one that it was made of (`encoded_eq_zip`).
  Together: unless the name collided, each field has its conversion and each conversion its
  statement, in order (`queryParams_encoded`), and that puts a value under the key of the field
  (`queryParams_put`).
-/

namespace ClientGen

/-! ## Structs and encoders -/

namespace Declaration

def struct? : Declaration → Option TypeDecl
  | .type ⟨name, .struct fields, documentation, isError⟩ => some ⟨name, .struct fields, documentation, isError⟩
  | _ => none

def encoder? : Declaration → Option QueryEncoder
  | .queryEncoder e => some e
  | _ => none

theorem of_struct? {d : Declaration} {t : TypeDecl} (h : d.struct? = some t) : d = .type t := by
  unfold struct? at h
  split at h
  · cases h
    rfl
  · cases h

end Declaration

namespace ApiModel

/-- The structs of a name. -/
def structs (m : ApiModel) (name : String) : List TypeDecl :=
  (m.declarations.filterMap Declaration.struct?).filter (·.name = name)

/-- The query encoders of a name. -/
def encoders (m : ApiModel) (name : String) : List QueryEncoder :=
  (m.declarations.filterMap Declaration.encoder?).filter (·.typeName = name)

end ApiModel

/-- A conversion is made for a field: it reads that field, writes its key, and can be left out
    exactly where the field can. -/
structure Conversion.IsFor (c : Conversion) (f : Field) : Prop where
  field : c.field = f.name
  key : c.key = f.key
  required : c.required = !f.optional

theorem Conversion.isFor_ofField (r : Registry) (fields : List Field) :
    List.Forall₂ IsFor (fields.map (ofField r)) fields := by
  rw [List.forall₂_map_left_iff, List.forall₂_same]
  intro f _
  exact ⟨rfl, rfl, rfl⟩

/-! ## Names -/

/-- Where keys differ, a key picks out one element. -/
theorem filter_key_eq_singleton {α : Type} {key : α → String} {items : List α} (h : (items.map key).Nodup) {a : α}
    (ha : a ∈ items) : items.filter (key · = key a) = [a] := by
  induction items with
  | nil => cases ha
  | cons b rest ih =>
    obtain ⟨hb, hrest⟩ := List.nodup_cons.mp h
    rcases List.mem_cons.mp ha with rfl | ha
    · rw [List.filter_cons_of_pos (by simp), List.filter_eq_nil_iff.mpr]
      intro c hc hkey
      exact hb (of_decide_eq_true hkey ▸ List.mem_map_of_mem hc)
    · have hne : key b ≠ key a := fun heq => hb (heq ▸ List.mem_map_of_mem ha)
      rw [List.filter_cons_of_neg (by simpa using hne)]
      exact ih hrest ha

theorem structNames_sublist (ds : List Declaration) :
    ((ds.filterMap Declaration.struct?).map (·.name)).Sublist (declaredNames ds) := by
  induction ds with
  | nil => exact .slnil
  | cons d rest ih =>
    cases hstruct : d.struct? with
    | none =>
      rw [List.filterMap_cons_none hstruct, show d :: rest = [d] ++ rest from rfl, declaredNames_append]
      exact ih.trans (List.sublist_append_right _ _)
    | some t =>
      obtain rfl := Declaration.of_struct? hstruct
      rw [List.filterMap_cons_some hstruct, declaredNames_cons rfl]
      exact ih.cons_cons t.name

def encoderNames (ds : List Declaration) : List String := (ds.filterMap Declaration.encoder?).map (·.typeName)

theorem encoderNames_append (ds es : List Declaration) :
    encoderNames (ds ++ es) = encoderNames ds ++ encoderNames es := by
  rw [encoderNames, List.filterMap_append, List.map_append]
  rfl

theorem encoderNames_singleton {d : Declaration} (h : d.isEncoder = false) : encoderNames [d] = [] := by
  cases d with
  | queryEncoder e => cases h
  | _ => rfl

namespace Resolve

theorem EncodersFollow.of_append {ds es : List Declaration} (h : EncodersFollow (ds ++ es)) : EncodersFollow ds := by
  intro before e after hds
  refine h before e (after ++ es) ?_
  rw [hds, List.append_assoc, List.cons_append]

/-- An encoder can be told by the struct before it. -/
theorem EncodersFollow.encoderNames_sublist {ds : List Declaration} (h : EncodersFollow ds) :
    (encoderNames ds).Sublist (declaredNames ds) := by
  induction hn : ds.length using Nat.strongRecOn generalizing ds with
  | ind n ih =>
    rcases List.eq_nil_or_concat' ds with rfl | ⟨front, last, rfl⟩
    · exact List.nil_sublist _
    · rw [List.length_append, List.length_singleton] at hn
      rw [encoderNames_append, declaredNames_append]
      cases hlast : last.isEncoder with
      | false =>
        have hfront := ih front.length (by omega) h.of_append rfl
        rw [encoderNames_singleton hlast, List.append_nil]
        exact hfront.trans (List.sublist_append_left _ _)
      | true =>
        cases last with
        | queryEncoder e =>
          -- the struct goes with its encoder, so what is before both is left
          obtain ⟨front, fields, documentation, isError, rfl⟩ := h front e [] rfl
          rw [List.length_append, List.length_singleton] at hn
          have hfront := ih front.length (by omega) h.of_append.of_append rfl
          rw [encoderNames_append, declaredNames_append, encoderNames_singleton rfl, declaredNames_encoder,
            List.append_nil, List.append_nil]
          exact hfront.append (List.Sublist.refl [e.typeName])
        | _ => cases hlast

end Resolve

/-! ## Looking up -/

section Lookup

variable {m : ApiModel} (hnodup : (declaredNames m.declarations).Nodup)
  (hfollow : Resolve.EncodersFollow m.declarations)
include hnodup

theorem structs_eq_singleton {d : TypeDecl} {fields : List Field} (hd : .type d ∈ m.declarations)
    (hfields : d.repr = .struct fields) : m.structs d.name = [d] := by
  refine filter_key_eq_singleton ((structNames_sublist _).nodup hnodup) (List.mem_filterMap.mpr ⟨_, hd, ?_⟩)
  obtain ⟨name, repr, documentation, isError⟩ := d
  cases hfields
  rfl

/-- Of two declarations with one name, one is an encoder. -/
theorem eq_of_declared_name {x d : Declaration} (hx : x ∈ m.declarations) (hd : d ∈ m.declarations)
    (hplain : x.isEncoder = false) (hplain' : d.isEncoder = false) (hname : x.name = d.name) : x = d :=
  List.inj_on_of_nodup_map hnodup (List.mem_filter.mpr ⟨hx, by rw [hplain]; rfl⟩)
    (List.mem_filter.mpr ⟨hd, by rw [hplain']; rfl⟩) hname

include hfollow

theorem encoders_eq_singleton {e : QueryEncoder} (he : .queryEncoder e ∈ m.declarations) :
    m.encoders e.typeName = [e] :=
  filter_key_eq_singleton (hfollow.encoderNames_sublist.nodup hnodup) (List.mem_filterMap.mpr ⟨_, he, rfl⟩)

/-- An encoder carries the name of its struct, but the struct comes first. -/
theorem declaration?_of_mem {d : TypeDecl} (hd : .type d ∈ m.declarations) :
    m.declaration? d.name = some (.type d) := by
  cases hfind : m.declaration? d.name with
  | none => exact absurd (decide_eq_true rfl) (List.find?_eq_none.mp hfind _ hd)
  | some x =>
    obtain ⟨hname, before, after, hsplit, hbefore⟩ := List.find?_eq_some_iff_append.mp hfind
    have hname : x.name = d.name := of_decide_eq_true hname
    have hplain : x.isEncoder = false := by
      cases x with
      | queryEncoder e =>
        obtain ⟨front, fields, documentation, isError, rfl⟩ := hfollow before e after hsplit
        have hother := hbefore (.type ⟨e.typeName, .struct fields, documentation, isError⟩) (by simp)
        rw [Bool.not_eq_true', decide_eq_false_iff_not] at hother
        exact absurd hname hother
      | _ => rfl
    have hx : x ∈ m.declarations := hsplit ▸ List.mem_append_right _ List.mem_cons_self
    rw [eq_of_declared_name hnodup hx hd hplain rfl hname]

end Lookup

namespace Go

/-- Every conversion finds the field that it is made for. -/
theorem encoded_eq_zip {m : ApiModel} {e : QueryEncoder} {d : TypeDecl}
    (hdecl : m.declaration? e.typeName = some (.type d)) (hnames : (d.fields.map (·.name)).Nodup)
    (h : List.Forall₂ Conversion.IsFor e.conversions d.fields) : encoded m e = e.conversions.zip d.fields := by
  have hparams : paramsFields m e.typeName = d.fields := by
    rw [paramsFields, hdecl]
  have hfind : ∀ f ∈ d.fields, d.fields.find? (·.name = f.name) = some f := by
    intro f hf
    rw [← List.head?_filter, filter_key_eq_singleton hnames hf, List.head?_cons]
  have hzip : ∀ {cs : List Conversion} {fs : List Field}, List.Forall₂ Conversion.IsFor cs fs →
      (∀ f ∈ fs, d.fields.find? (·.name = f.name) = some f) →
      cs.filterMap (fun c => (d.fields.find? (·.name = c.field)).map (c, ·)) = cs.zip fs := by
    intro cs fs hcs hfs
    induction hcs with
    | nil => rfl
    | @cons c f cs fs hc _ ih =>
      obtain ⟨hf, hrest⟩ := List.forall_mem_cons.mp hfs
      rw [List.filterMap_cons, hc.field, hf, Option.map_some, ih hrest, List.zip_cons_cons]
  show e.conversions.filterMap (fun c => ((paramsFields m e.typeName).find? (·.name = c.field)).map (c, ·)) = _
  rw [hparams]
  exact hzip h hfind

end Go

/-! ## Runs -/

namespace Resolve

variable {doc : Document} {fuel : Nat} {s s' : Session}

theorem Mapping.grows {es : List Endpoint} {operations : List TaggedOperation}
    (h : Mapping doc fuel es s operations s') : s.Grows s' := by
  induction h with
  | done => exact .refl _
  | passed d _ ih => exact (Session.Step.report [d]).grows.trans ih
  | mapped hone _ ih => exact (growing_compositional.mapOperation refusal_growing _ _ _ _ hone).trans ih

/-- What one operation reports and declares is still there when all of them are mapped. -/
theorem Mapping.run_grows {es : List Endpoint} {operations : List TaggedOperation}
    (h : Mapping doc fuel es s operations s') :
    ∀ o ∈ operations, ∃ e t t', Runs (Endpoint.mapped doc fuel e) t o.mapped t' ∧ t'.Grows s' := by
  induction h with
  | done => exact List.forall_mem_nil _
  | passed _ _ ih => exact ih
  | mapped hone hrest ih => exact List.forall_mem_cons.mpr ⟨⟨_, _, _, hone, hrest.grows⟩, ih⟩

/-- The struct is made with its encoder, or else its name was taken and that is reported. -/
theorem params_of_run {e : Endpoint} {m : MappedOperation} (h : Runs (e.mapped doc fuel) s m s') {a : Argument}
    (hquery : m.method.queryParams = some a) {name : String} (hname : a.type = .named name) :
    .nameCollision name ∈ s'.diagnostics ∨
      ∃ r fields documentation, m.paramTypes = [.type ⟨name, .struct (sortedFields fields), documentation, false⟩,
        .queryEncoder (.ofFields r name (sortedFields fields))] := by
  obtain ⟨t, t1, t2, mapped, -, hq, hb, hr, -⟩ := runs_mapOperation h
  rcases runs_queryParams hq with ⟨-, hnone, -⟩ | ⟨t0, o, -, hsome, ho, hparams⟩
  · rw [hquery] at hnone
    cases hnone
  · rw [hquery, Option.some.injEq] at hsome
    subst hsome
    cases hname
    rcases runs_declare ho with ⟨rfl, -, -⟩ | ⟨-, htaken⟩
    · exact .inr ⟨_, _, _, hparams⟩
    · left
      have hgrows : t1.Grows s' := (growing_compositional.requestBody _ _ hb).trans
        (growing_compositional.responses refusal_growing _ _ _ hr)
      refine hgrows.diagnostics.subset ?_
      cases htaken with
      | reuse _ hsame =>
        -- what stands for no schema is no schema's again
        unfold Registry.sameOrigin at hsame
        split at hsame
        · cases ‹none = some _›
        · cases hsame
      | collision _ _ => exact List.mem_append_right _ List.mem_cons_self

theorem Phases.afterOperations_grows (p : Phases doc fuel) : p.afterOperations.Grows p.final :=
  (growing_compositional.groupings _ _ _ p.runsGroups).trans (growing_compositional.declareResponses _ p.runsResponses)

theorem type_mem_markErrors {errors : List String} {ds : List Declaration} {d : TypeDecl} (h : .type d ∈ ds) :
    ∃ isError, .type { d with isError := isError } ∈ markErrors errors ds := by
  by_cases hname : errors.contains d.name = true
  · exact ⟨true, List.mem_map.mpr ⟨_, h, if_pos hname⟩⟩
  · exact ⟨d.isError, List.mem_map.mpr ⟨_, h, if_neg hname⟩⟩

/-- In the model the struct and its encoder are made of the same fields, unless their name collided. -/
theorem params_of_build {config : Config} {model : ApiModel} {ds : List Diagnostic}
    (h : build fuel doc config = .ok (model, ds)) {m : Method} (hm : m ∈ model.methods) {a : Argument}
    (hquery : m.queryParams = some a) {name : String} (hname : a.type = .named name) :
    .nameCollision name ∈ ds ∨
      ∃ r d, model.structs name = [d] ∧ model.encoders name = [.ofFields r name d.fields] ∧
        Go.queryEncoder model (.ofFields r name d.fields) =
          .queryEncoder name (d.fields.map fun f => Go.queryStatement (.ofField r f) f) := by
  obtain ⟨s', hrun, rfl⟩ := runs_of_build h
  obtain ⟨-, hnodup⟩ := declaredNames_model hrun
  obtain ⟨hgroups, hshared⟩ := model_follows hrun
  have hfollow : EncodersFollow model.declarations := (EncodersFollow.flatMap hgroups).append hshared
  obtain ⟨p, rfl, hgroupings, hsharedEq, -⟩ := runs_buildModel hrun
  have hmethods : m ∈ p.operations.map (·.mapped.method) := by
    rw [ApiModel.methods, hgroupings, List.flatMap_map] at hm
    exact p.methods_perm.mem_iff.mp hm
  obtain ⟨o, ho, rfl⟩ := List.mem_map.mp hmethods
  obtain ⟨endpoint, t, t', hmapped, hgrows⟩ := p.mapping.run_grows o ho
  rcases params_of_run hmapped hquery hname with hcollision | ⟨r, fields, documentation, hparams⟩
  · exact .inl ((hgrows.trans p.afterOperations_grows).diagnostics.subset hcollision)
  · right
    have hmem : ∀ d ∈ o.mapped.paramTypes, d ∈ p.sortedGroups.flatMap (·.declarations) ++ p.shared := fun d hd =>
      p.mem_of_operation ho (List.mem_append_left _ (List.mem_append_right _ hd))
    rw [hparams] at hmem
    have hmarked := p.marked hgroupings hsharedEq
    have hencoder : .queryEncoder (.ofFields r name (sortedFields fields)) ∈ model.declarations := by
      rw [hmarked]
      exact encoder_mem_markErrors (hmem _ (by simp))
    obtain ⟨isError, hstruct⟩ : ∃ isError,
        .type ⟨name, .struct (sortedFields fields), documentation, isError⟩ ∈ model.declarations := by
      rw [hmarked]
      exact type_mem_markErrors (hmem _ List.mem_cons_self)
    have hdistinct : ((sortedFields fields).map (·.name)).Nodup :=
      List.pairwise_map.mpr ((sortedFields_increasing fields).imp String.ne_of_lt)
    have hlookup := declaration?_of_mem hnodup hfollow hstruct
    have hzip : Go.encoded model (.ofFields r name (sortedFields fields)) =
        (QueryEncoder.ofFields r name (sortedFields fields)).conversions.zip (sortedFields fields) :=
      @Go.encoded_eq_zip model (.ofFields r name (sortedFields fields)) _ hlookup hdistinct
        (Conversion.isFor_ofField r _)
    refine ⟨r, _, structs_eq_singleton hnodup hstruct rfl, encoders_eq_singleton hnodup hfollow hencoder, ?_⟩
    show Go.GoDeclaration.queryEncoder name
      ((Go.encoded model (.ofFields r name (sortedFields fields))).map (Function.uncurry Go.queryStatement)) = _
    rw [hzip, List.map_uncurry_zip_eq_zipWith, QueryEncoder.ofFields, List.zipWith_map_left, List.zipWith_self]
    rfl

end Resolve

/-- A method whose query parameters have the type `name`: unless that name collided, it is the name
    of one struct and of one encoder, which has a conversion for every field, in order, and the
    generated encoder has a statement for every conversion, made with its field. -/
theorem queryParams_encoded {doc : Document} {fuel : Nat} {config : Config} {model : ApiModel} {ds : List Diagnostic}
    (h : build fuel doc config = .ok (model, ds)) {m : Method} (hm : m ∈ model.methods) {a : Argument}
    (hquery : m.queryParams = some a) {name : String} (hname : a.type = .named name) :
    .nameCollision name ∈ ds ∨
      ∃ d e, model.structs name = [d] ∧ model.encoders name = [e] ∧
        List.Forall₂ Conversion.IsFor e.conversions d.fields ∧
        Go.queryEncoder model e = .queryEncoder name (List.zipWith Go.queryStatement e.conversions d.fields) := by
  refine (Resolve.params_of_build h hm hquery hname).imp_right ?_
  rintro ⟨r, d, hstruct, hencoder, htext⟩
  refine ⟨d, _, hstruct, hencoder, Conversion.isFor_ofField r d.fields, ?_⟩
  rw [htext, QueryEncoder.ofFields, List.zipWith_map_left, List.zipWith_self]

/-- One operation with a number that it needs and texts that it can do without. -/
def twoParameters : Document :=
  { openapi := "3.0.0", info := ⟨"t", "1", none⟩, servers := [], tags := []
    paths := [("/a", ⟨none, none, none, [(.get, ⟨[], none, none, some "list",
      [.item ⟨"limit", .query, true, none, some { Schema.blank with type := some (.single "integer") }⟩,
        .item ⟨"tag", .query, false, none, some { Schema.blank with
          type := some (.single "array"), items := some { Schema.blank with type := some (.single "string") } }⟩],
      none, [], false, []⟩)], []⟩)]
    components := ⟨[], [], [], []⟩ }

theorem queryParams_encoded_twoParameters :
    ∃ model m, build 4 twoParameters ⟨"p", "P"⟩ = .ok (model, []) ∧ m ∈ model.methods ∧
      m.queryParams = some ⟨"params", .named "ListParams"⟩ ∧
      ∃ d e, model.structs "ListParams" = [d] ∧ model.encoders "ListParams" = [e] ∧
        List.Forall₂ Conversion.IsFor e.conversions d.fields ∧
        Go.queryEncoder model e =
          .queryEncoder "ListParams" (List.zipWith Go.queryStatement e.conversions d.fields) := by
  obtain ⟨model, ds, hbuild, htest⟩ := @Resolve.exists_build_of_passes twoParameters 4 ⟨"p", "P"⟩
    (fun model ds => ds.isEmpty && model.methods.map (·.queryParams) = [some ⟨"params", .named "ListParams"⟩])
    (by decide +kernel)
  simp only [Bool.and_eq_true, List.isEmpty_iff, decide_eq_true_eq, List.map_eq_singleton_iff] at htest
  obtain ⟨rfl, m, hmethods, hquery⟩ := htest
  have hm : m ∈ model.methods := by
    rw [hmethods]
    exact List.mem_singleton.mpr rfl
  exact ⟨model, m, hbuild, hm, hquery, (queryParams_encoded hbuild hm hquery rfl).resolve_left List.not_mem_nil⟩

/-- Every field of the struct has a statement that puts a value under its key, in the order of the fields. -/
theorem queryParams_put {doc : Document} {fuel : Nat} {config : Config} {model : ApiModel} {ds : List Diagnostic}
    (h : build fuel doc config = .ok (model, ds)) {m : Method} (hm : m ∈ model.methods) {a : Argument}
    (hquery : m.queryParams = some a) {name : String} (hname : a.type = .named name) :
    .nameCollision name ∈ ds ∨
      ∃ d e statements, model.structs name = [d] ∧ model.encoders name = [e] ∧
        Go.queryEncoder model e = .queryEncoder name statements ∧
        List.Forall₂ (fun f source => Go.Puts f.key source) d.fields statements := by
  refine (Resolve.params_of_build h hm hquery hname).imp_right ?_
  rintro ⟨r, d, hstruct, hencoder, htext⟩
  refine ⟨d, _, _, hstruct, hencoder, htext, ?_⟩
  rw [List.forall₂_map_right_iff, List.forall₂_same]
  exact fun f _ => Go.queryStatement_puts (.ofField r f) f

end ClientGen

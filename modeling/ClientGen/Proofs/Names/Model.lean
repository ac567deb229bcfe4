import Mathlib
import ClientGen.Proofs.Grouping.Endpoint
import ClientGen.Proofs.Names.Emission

/-
  ClientGen.Proofs.Names.Model — the declarations of a model are the names of its registry.

  Each phase of a build emits what it claims (`ClientGen.Proofs.Names.Emission`). The groupings
  only move declarations about: what the groupings hold, with what is left, is a permutation
  of what the phases before emitted and the response components added meanwhile
  (`runs_groupings_perm`). So:
  - `phases_add`: the registry at the end lists the declared names of the model, each once.
  - `declares_registry`: the same for a whole build, with every encoder behind the struct that
    it encodes.
-/

namespace ClientGen

/-- What no grouping has taken. -/
def Unclaimed.declarations (left : Unclaimed) : List Declaration := left.schemas.flatMap (·.2)

namespace Resolve

variable {doc : Document} {fuel : Nat} {s s' : Session}

/-! ## What the phases emit -/

theorem emits_gathers : Gathers Emits := ⟨fun _ => .of_eq rfl, .append⟩

theorem declareAll_emits {types : List TypeDecl} {ds : List Declaration} (h : Runs (declareAll types) s ds s') :
    Emits s.registry ds s'.registry :=
  emits_gathers.declareAll (fun _ _ => declare_emits rfl) h

theorem declareComponents_emits {schemas : KeyMap Schema} {components : KeyMap (List Declaration)}
    (h : Runs (declareComponents doc fuel schemas) s components s') :
    Emits s.registry (components.flatMap (·.2)) s'.registry :=
  emits_gathers.declareComponents (fun _ _ => declareComponent_emits) h

theorem declareResponses_emits {keys : List String} {ds : List Declaration}
    (h : Runs (declareResponses doc fuel keys) s ds s') : Emits s.registry ds s'.registry :=
  emits_gathers.declareResponses (fun _ => declareResponseComponent_emits) h

/-- In each list of an operation every encoder follows its struct. -/
structure EncodersFollowIn (m : MappedOperation) : Prop where
  body : EncodersFollow m.bodyTypes
  params : EncodersFollow m.paramTypes
  responses : EncodersFollow m.responseTypes

theorem EncodersFollow.flatMap {α : Type} {f : α → List Declaration} {items : List α}
    (h : ∀ a ∈ items, EncodersFollow (f a)) : EncodersFollow (items.flatMap f) := by
  induction items with
  | nil => exact encodersFollow_of_plain (by simp)
  | cons a rest ih =>
    rw [List.flatMap_cons]
    exact (h a List.mem_cons_self).append (ih fun b hb => h b (List.mem_cons_of_mem a hb))

theorem Mapping.adds {es : List Endpoint} {operations : List TaggedOperation}
    (h : Mapping doc fuel es s operations s') :
    Adds s.registry (operations.flatMap (·.mapped.declarations)) s'.registry := by
  induction h with
  | done => exact .refl _
  | passed _ _ ih => exact ih
  | mapped hone _ ih => exact (mapOperation_adds hone).1.append ih

theorem Mapping.encodersFollow {es : List Endpoint} {operations : List TaggedOperation}
    (h : Mapping doc fuel es s operations s') : ∀ o ∈ operations, EncodersFollowIn o.mapped := by
  induction h with
  | done => exact List.forall_mem_nil _
  | passed _ _ ih => exact ih
  | mapped hone _ ih =>
    obtain ⟨-, hbody, hparams, hresponses⟩ := mapOperation_adds hone
    exact List.forall_mem_cons.mpr ⟨⟨hbody, hparams, hresponses⟩, ih⟩

/-! ## Moving declarations into groupings -/

theorem operations_perm (operations : List TaggedOperation) :
    (operations.flatMap (·.mapped.bodyTypes) ++ operations.flatMap (·.mapped.paramTypes) ++
      operations.flatMap (·.mapped.responseTypes)).Perm (operations.flatMap (·.mapped.declarations)) := by
  refine ((List.flatMap_append_perm operations _ _).append_right _).trans ?_
  exact List.flatMap_append_perm operations _ _

/-- A grouping moves what it takes and declares the response components that it is the first to use. -/
theorem runs_grouping_perm {left left' : Unclaimed} {tag : String} {operations : List TaggedOperation} {g : Grouping}
    (h : Runs (grouping doc fuel left tag operations) s (g, left') s') :
    ∃ keys added, Runs (declareResponses doc fuel keys) s added s' ∧
      (∀ key ∈ left.responses, key ∈ keys ∨ key ∈ left'.responses) ∧
      (g.declarations ++ left'.declarations).Perm
        (left.declarations ++ operations.flatMap (·.mapped.declarations) ++ added) := by
  obtain ⟨added, hadded, hg, -, -, -, rfl⟩ := runs_grouping h
  refine ⟨_, added, hadded, fun key hkey => ?_, ?_⟩
  · by_cases hused : (usedBy operations).contains key
    · exact .inl (List.mem_filter.mpr ⟨List.contains_iff_mem.mp hused, List.contains_iff_mem.mpr hkey⟩)
    · exact .inr (List.mem_filter.mpr ⟨hkey, by simpa using hused⟩)
  rw [hg]
  generalize hown : List.flatMap _ (left.schemas.filter _) = own
  generalize hrest : Unclaimed.declarations _ = rest
  have hsplit : (own ++ rest).Perm left.declarations := by
    rw [← hown, ← hrest, Unclaimed.declarations, ← List.flatMap_append]
    exact (List.filter_append_perm _ left.schemas).flatMap_right _
  calc own ++ operations.flatMap (·.mapped.bodyTypes) ++ operations.flatMap (·.mapped.paramTypes) ++
        operations.flatMap (·.mapped.responseTypes) ++ added ++ rest
      |>.Perm (own ++ operations.flatMap (·.mapped.declarations) ++ added ++ rest) := by
        have := (operations_perm operations).append_left own
        simp only [← List.append_assoc] at this
        exact (this.append_right added).append_right rest
    _ |>.Perm (rest ++ (own ++ operations.flatMap (·.mapped.declarations) ++ added)) := List.perm_append_comm
    _ |>.Perm (own ++ rest ++ operations.flatMap (·.mapped.declarations) ++ added) := by
        simp only [← List.append_assoc]
        exact (List.perm_append_comm.append_right _).append_right _
    _ |>.Perm (left.declarations ++ operations.flatMap (·.mapped.declarations) ++ added) :=
        (hsplit.append_right _).append_right _

theorem grouping_follows {left left' : Unclaimed} {tag : String} {operations : List TaggedOperation} {g : Grouping}
    (h : Runs (grouping doc fuel left tag operations) s (g, left') s')
    (hplain : ∀ d ∈ left.declarations, d.isEncoder = false) (hops : ∀ o ∈ operations, EncodersFollowIn o.mapped) :
    EncodersFollow g.declarations ∧ ∀ d ∈ left'.declarations, d.isEncoder = false := by
  obtain ⟨added, hadded, hg, -, -, -, rfl⟩ := runs_grouping h
  have hsub {keep : String × List Declaration → Bool} {d : Declaration}
      (hd : d ∈ (left.schemas.filter keep).flatMap (·.2)) : d.isEncoder = false := by
    obtain ⟨e, he, hd⟩ := List.mem_flatMap.mp hd
    exact hplain d (List.mem_flatMap.mpr ⟨e, (List.mem_filter.mp he).1, hd⟩)
  refine ⟨?_, fun d hd => hsub hd⟩
  rw [hg]
  refine ((((encodersFollow_of_plain fun d hd => hsub hd).append ?_).append ?_).append ?_).append
    (encodersFollow_of_plain (declareResponses_emits hadded).plain)
  · exact .flatMap fun o ho => (hops o ho).body
  · exact .flatMap fun o ho => (hops o ho).params
  · exact .flatMap fun o ho => (hops o ho).responses

/-- The operations of the groupings of `tags`. -/
def groupedBy (tags : List String) (operations : List TaggedOperation) : List TaggedOperation :=
  tags.flatMap fun tag => operations.filter (·.tag = tag)

theorem runs_groupings_perm {operations : List TaggedOperation} {tags : List String} {left left' : Unclaimed}
    {gs : List Grouping} (h : Runs (groupings doc fuel operations left tags) s (gs, left') s') :
    ∃ keys added, Runs (declareResponses doc fuel keys) s added s' ∧
      (∀ key ∈ left.responses, key ∈ keys ∨ key ∈ left'.responses) ∧
      (gs.flatMap (·.declarations) ++ left'.declarations).Perm
        (left.declarations ++ (groupedBy tags operations).flatMap (·.mapped.declarations) ++ added) := by
  induction tags generalizing s left gs with
  | nil =>
    simp only [groupings, runs_pure, Prod.mk.injEq] at h
    obtain ⟨⟨rfl, rfl⟩, rfl⟩ := h
    exact ⟨[], [], runs_pure.mpr ⟨rfl, rfl⟩, fun key hkey => .inr hkey, by simp [groupedBy]⟩
  | cons tag rest ih =>
    obtain ⟨g, mid, t, more, hg, hrest, rfl⟩ := runs_groupings_cons h
    obtain ⟨keys, own, hown, hkeys, hp⟩ := runs_grouping_perm hg
    obtain ⟨moreKeys, added, hadded, hmoreKeys, hps⟩ := ih hrest
    refine ⟨keys ++ moreKeys, own ++ added, runs_declareResponses_append hown hadded, fun key hkey => ?_, ?_⟩
    · rcases hkeys key hkey with hin | hleft
      · exact .inl (List.mem_append_left _ hin)
      · exact (hmoreKeys key hleft).imp_left (List.mem_append_right _)
    have hgrouped : groupedBy (tag :: rest) operations = operations.filter (·.tag = tag) ++ groupedBy rest operations := rfl
    rw [hgrouped, List.flatMap_append, List.flatMap_cons, List.append_assoc]
    generalize (operations.filter (·.tag = tag)).flatMap (·.mapped.declarations) = here at hp ⊢
    generalize (groupedBy rest operations).flatMap (·.mapped.declarations) = later at hps ⊢
    calc g.declarations ++ (more.flatMap (·.declarations) ++ left'.declarations)
        |>.Perm (g.declarations ++ (mid.declarations ++ later ++ added)) := hps.append_left _
      _ |>.Perm (left.declarations ++ here ++ own ++ (later ++ added)) := by
        simp only [List.append_assoc]
        rw [← List.append_assoc]
        exact (hp.append_right _).trans (.of_eq (by simp only [List.append_assoc]))
      _ |>.Perm (left.declarations ++ (here ++ later) ++ (own ++ added)) := by
        simp only [List.append_assoc]
        refine .append_left _ (.append_left _ ?_)
        rw [← List.append_assoc, ← List.append_assoc]
        exact List.perm_append_comm.append_right _

theorem groupings_follow {operations : List TaggedOperation} {tags : List String} {left left' : Unclaimed}
    {gs : List Grouping} (h : Runs (groupings doc fuel operations left tags) s (gs, left') s')
    (hplain : ∀ d ∈ left.declarations, d.isEncoder = false) (hops : ∀ o ∈ operations, EncodersFollowIn o.mapped) :
    (∀ g ∈ gs, EncodersFollow g.declarations) ∧ ∀ d ∈ left'.declarations, d.isEncoder = false := by
  induction tags generalizing s left gs with
  | nil =>
    simp only [groupings, runs_pure, Prod.mk.injEq] at h
    obtain ⟨⟨rfl, rfl⟩, rfl⟩ := h
    exact ⟨by simp, hplain⟩
  | cons tag rest ih =>
    obtain ⟨g, mid, t, more, hg, hrest, rfl⟩ := runs_groupings_cons h
    obtain ⟨hfollow, hmid⟩ := grouping_follows hg hplain fun o ho => hops o (List.mem_of_mem_filter ho)
    obtain ⟨hmore, hleft⟩ := ih hrest hmid
    refine ⟨fun x hx => ?_, hleft⟩
    rcases List.mem_cons.mp hx with rfl | hx
    · exact hfollow
    · exact hmore x hx

/-- Distinct tags share out the operations that have one of them. -/
theorem groupedBy_perm_filter {tags : List String} (h : tags.Nodup) (operations : List TaggedOperation) :
    (groupedBy tags operations).Perm (operations.filter (·.tag ∈ tags)) := by
  induction tags with
  | nil => simp [groupedBy]
  | cons tag rest ih =>
    obtain ⟨hn, hrest⟩ := List.nodup_cons.mp h
    have hhere : (operations.filter (·.tag ∈ tag :: rest)).filter (·.tag = tag) = operations.filter (·.tag = tag) := by
      rw [List.filter_filter]
      exact List.filter_congr fun o _ => by grind
    have hlater : (operations.filter (·.tag ∈ tag :: rest)).filter (fun o => !decide (o.tag = tag)) =
        operations.filter (·.tag ∈ rest) := by
      rw [List.filter_filter]
      exact List.filter_congr fun o _ => by grind
    have hsplit := List.filter_append_perm (·.tag = tag) (operations.filter (·.tag ∈ tag :: rest))
    rw [hhere, hlater] at hsplit
    exact ((ih hrest).append_left _).trans hsplit

/-- Every operation is in the grouping of its tag. -/
theorem groupedBy_tagsOf_perm (operations : List TaggedOperation) :
    (groupedBy (tagsOf operations) operations).Perm operations := by
  refine (groupedBy_perm_filter (KeyMap.sorted_ofList _).nodup_keys operations).trans (.of_eq ?_)
  refine List.filter_eq_self.mpr fun o ho => decide_eq_true ?_
  rw [KeyMap.mem_keys_ofList]
  simp only [KeyMap.keys, List.map_map]
  exact List.mem_map_of_mem (f := fun o : TaggedOperation => o.tag) ho

/-! ## Marking errors -/

@[simp] theorem name_markError (d : Declaration) : d.markError.name = d.name := by cases d <;> rfl

@[simp] theorem isEncoder_markError (d : Declaration) : d.markError.isEncoder = d.isEncoder := by cases d <;> rfl

@[simp] theorem declaredNames_markErrors (errors : List String) (ds : List Declaration) :
    declaredNames (markErrors errors ds) = declaredNames ds := by
  induction ds with
  | nil => rfl
  | cons d rest ih =>
    have hd : declaredNames (markErrors errors [d]) = declaredNames [d] := by
      simp only [markErrors, List.map_cons, List.map_nil]
      cases d <;> split <;> rfl
    rw [show markErrors errors (d :: rest) = markErrors errors [d] ++ markErrors errors rest from rfl,
      declaredNames_append, hd, ih, ← declaredNames_append, List.singleton_append]

theorem EncodersFollow.markErrors {ds : List Declaration} (h : EncodersFollow ds) (errors : List String) :
    EncodersFollow (markErrors errors ds) := by
  intro before e after hds
  obtain ⟨front, back, rfl, rfl, hback⟩ := List.map_eq_append_iff.mp hds
  obtain ⟨d, rest, rfl, hd, rfl⟩ := List.map_eq_cons_iff.mp hback
  -- marking leaves an encoder alone and makes none
  have hd' : d = .queryEncoder e := by
    cases d <;> split at hd <;> cases hd <;> rfl
  subst hd'
  obtain ⟨front, fields, documentation, isError, rfl⟩ := h _ e rest rfl
  rw [List.map_append, List.map_cons, List.map_nil]
  split
  · exact ⟨_, fields, documentation, true, rfl⟩
  · exact ⟨_, fields, documentation, isError, rfl⟩

theorem markErrors_append (errors : List String) (ds es : List Declaration) :
    markErrors errors (ds ++ es) = markErrors errors ds ++ markErrors errors es := List.map_append

theorem encoder_mem_markErrors {errors : List String} {ds : List Declaration} {e : QueryEncoder}
    (h : .queryEncoder e ∈ ds) : .queryEncoder e ∈ markErrors errors ds := by
  refine List.mem_map.mpr ⟨_, h, ?_⟩
  split
  · rfl
  · rfl

/-- Marking is the last thing done to the declarations of a model. -/
theorem Phases.marked (p : Phases doc fuel) {m : ApiModel}
    (hgroupings : m.groupings = p.sortedGroups.map fun g =>
      { g with declarations := markErrors p.errors g.declarations })
    (hshared : m.shared = markErrors p.errors p.shared) :
    m.declarations = markErrors p.errors (p.sortedGroups.flatMap (·.declarations) ++ p.shared) := by
  rw [ApiModel.declarations, hgroupings, hshared, markErrors_append, List.flatMap_map, markErrors, markErrors,
    List.map_flatMap]
  rfl

/-! ## The whole build -/

/-- What the phases declare is in a grouping or shared. Every response component was declared by a
    grouping or is left. -/
theorem Phases.perm (p : Phases doc fuel) :
    ∃ keys added, Runs (declareResponses doc fuel keys) p.afterOperations added p.afterGroups ∧
      (∀ key ∈ doc.components.responses.keys, key ∈ keys ∨ key ∈ p.left.responses) ∧
      (p.helpers ++ p.components.flatMap (·.2) ++ p.operations.flatMap (·.mapped.declarations) ++ added ++
        p.responseTypes).Perm (p.sortedGroups.flatMap (·.declarations) ++ p.shared) := by
  obtain ⟨keys, added, hadded, hkeys, hp⟩ := runs_groupings_perm p.runsGroups
  refine ⟨keys, added, hadded, hkeys, ?_⟩
  have hops := (groupedBy_tagsOf_perm p.operations).flatMap_right (·.mapped.declarations)
  have hsorted : (p.sortedGroups.flatMap (·.declarations)).Perm (p.groups.flatMap (·.declarations)) :=
    (sortBy_perm _ _).flatMap_right _
  rw [Phases.shared, show Unclaimed.declarations ⟨p.components, _⟩ = p.components.flatMap (·.2) from rfl] at *
  generalize p.components.flatMap (·.2) = components at *
  generalize p.operations.flatMap (·.mapped.declarations) = operations at *
  calc p.helpers ++ components ++ operations ++ added ++ p.responseTypes
      |>.Perm (p.helpers ++ (p.groups.flatMap (·.declarations) ++ p.left.declarations) ++ p.responseTypes) := by
        refine .append_right _ ?_
        simp only [List.append_assoc] at hp ⊢
        exact .append_left _ (((hops.append_right added).append_left components).symm.trans hp.symm)
    _ |>.Perm (p.groups.flatMap (·.declarations) ++ (p.helpers ++ p.left.declarations ++ p.responseTypes)) := by
        simp only [← List.append_assoc]
        exact (List.perm_append_comm.append_right _).append_right _
    _ |>.Perm _ := hsorted.symm.append_right _

/-- A declaration of an operation is in the model, marked or not. -/
theorem Phases.mem_of_operation (p : Phases doc fuel) {o : TaggedOperation} (ho : o ∈ p.operations) {d : Declaration}
    (hd : d ∈ o.mapped.declarations) : d ∈ p.sortedGroups.flatMap (·.declarations) ++ p.shared := by
  obtain ⟨keys, added, -, -, hperm⟩ := p.perm
  refine hperm.mem_iff.mp (List.mem_append_left _ (List.mem_append_left _ (List.mem_append_right _ ?_)))
  exact List.mem_flatMap_of_mem ho hd

theorem phases_add (p : Phases doc fuel) :
    Adds [] (p.sortedGroups.flatMap (·.declarations) ++ p.shared) p.final.registry := by
  obtain ⟨keys, added, hadded, -, hp⟩ := p.perm
  have hall := ((((declareAll_emits p.runsHelpers).toAdds.append (declareComponents_emits p.runsComponents).toAdds).append
    p.mapping.adds).append (declareResponses_emits hadded).toAdds).append
    (declareResponses_emits p.runsResponses).toAdds
  exact hall.perm hp

theorem phases_follow (p : Phases doc fuel) :
    (∀ g ∈ p.sortedGroups, EncodersFollow g.declarations) ∧ EncodersFollow p.shared := by
  obtain ⟨hgroups, hleft⟩ := groupings_follow p.runsGroups (declareComponents_emits p.runsComponents).plain
    p.mapping.encodersFollow
  refine ⟨fun g hg => hgroups g ((sortBy_perm _ _).mem_iff.mp hg), ?_⟩
  exact ((encodersFollow_of_plain (declareAll_emits p.runsHelpers).plain).append (encodersFollow_of_plain hleft)).append
    (encodersFollow_of_plain (declareResponses_emits p.runsResponses).plain)

theorem declaredNames_model {config : Config} {m : ApiModel} (h : Runs (buildModel doc config fuel) .start m s') :
    (declaredNames m.declarations).Perm s'.registry.keys ∧ (declaredNames m.declarations).Nodup := by
  obtain ⟨p, rfl, hgroups, hshared, -⟩ := runs_buildModel h
  have hnames : declaredNames m.declarations = declaredNames (p.sortedGroups.flatMap (·.declarations) ++ p.shared) := by
    rw [p.marked hgroups hshared, declaredNames_markErrors]
  have hadds := phases_add p
  have hperm := hadds.names
  rw [show KeyMap.keys ([] : Registry) = [] from rfl, List.append_nil, ← hnames] at hperm
  exact ⟨hperm.symm, hperm.nodup_iff.mp (hadds.nodup List.nodup_nil)⟩

theorem model_follows {config : Config} {m : ApiModel} (h : Runs (buildModel doc config fuel) .start m s') :
    (∀ g ∈ m.groupings, EncodersFollow g.declarations) ∧ EncodersFollow m.shared := by
  obtain ⟨p, -, hgroups, hshared, -⟩ := runs_buildModel h
  obtain ⟨hfollow, hrest⟩ := phases_follow p
  refine ⟨fun g hg => ?_, hshared ▸ hrest.markErrors p.errors⟩
  rw [hgroups] at hg
  obtain ⟨g, hin, rfl⟩ := List.mem_map.mp hg
  exact (hfollow g hin).markErrors p.errors

end Resolve

open Resolve

/-- The declared names of a model are distinct, and they are the names in the registry when the
    build ends: each of them was claimed, and each claim was emitted. -/
theorem declares_registry {doc : Document} {fuel : Nat} {config : Config} {model : ApiModel} {ds : List Diagnostic}
    (h : build fuel doc config = .ok (model, ds)) :
    ∃ s', Runs (buildModel doc config fuel) .start model s' ∧ s'.diagnostics = ds ∧
      (declaredNames model.declarations).Nodup ∧ (declaredNames model.declarations).Perm s'.registry.keys ∧
      (∀ g ∈ model.groupings, EncodersFollow g.declarations) ∧ EncodersFollow model.shared := by
  obtain ⟨s', hrun, rfl⟩ := runs_of_build h
  obtain ⟨hperm, hnodup⟩ := declaredNames_model hrun
  obtain ⟨hgroups, hshared⟩ := model_follows hrun
  exact ⟨s', hrun, rfl, hnodup, hperm, hgroups, hshared⟩

/-- One component with one property, and one operation with a query parameter. -/
def oneOperation : Document :=
  { openapi := "3.0.0", info := ⟨"t", "1", none⟩, servers := [], tags := []
    paths :=
      [("/a", ⟨none, none, none,
        [(.get, ⟨[], none, none, some "f", [.item ⟨"q", .query, false, none, none⟩], none, [], false, []⟩)], []⟩)]
    components :=
      ⟨[("N", { Schema.blank with properties := some [("v", { Schema.blank with type := some (.single "string") })] })],
        [], [], []⟩ }

/-- The encoder of its parameters. -/
def oneEncoder : QueryEncoder := ⟨"FParams", [⟨"q", "Q", false, false, .scalar .string, .text⟩]⟩

theorem oneEncoder_declared {model : ApiModel} {config : Config} {s' : Session}
    (h : Runs (buildModel oneOperation config 4) .start model s') : .queryEncoder oneEncoder ∈ model.declarations := by
  obtain ⟨p, -, hgroups, hshared, -⟩ := runs_buildModel h
  have htest : passes (declareAll calendarHelpers >>= fun _ =>
      declareComponents oneOperation 4 oneOperation.components.schemas >>= fun _ =>
      mapPaths oneOperation 4 oneOperation.paths) .start
      (fun operations _ => operations.any fun o => o.mapped.paramTypes.contains (.queryEncoder oneEncoder)) = true := by
    decide +kernel
  obtain ⟨operations, t, hruns, hpass⟩ := exists_runs_of_passes htest
  have hphases : Runs (declareAll calendarHelpers >>= fun _ =>
      declareComponents oneOperation 4 oneOperation.components.schemas >>= fun _ =>
      mapPaths oneOperation 4 oneOperation.paths) .start p.operations p.afterOperations :=
    runs_bind.mpr ⟨_, _, p.runsHelpers, runs_bind.mpr ⟨_, _, p.runsComponents, p.runsOperations⟩⟩
  cases hruns.symm.trans hphases
  obtain ⟨o, ho, hencoder⟩ := List.any_eq_true.mp hpass
  rw [p.marked hgroups hshared]
  refine encoder_mem_markErrors (p.mem_of_operation ho ?_)
  exact List.mem_append_left _ (List.mem_append_right _ (List.contains_iff_mem.mp hencoder))

theorem declares_registry_oneOperation :
    ∃ model s', build 4 oneOperation ⟨"p", "P"⟩ = .ok (model, []) ∧
      Runs (buildModel oneOperation ⟨"p", "P"⟩ 4) .start model s' ∧ s'.diagnostics = [] ∧
      (declaredNames model.declarations).Nodup ∧
      (declaredNames model.declarations).Perm ["Date", "FParams", "N", "Time"] ∧
      s'.registry.keys = ["Date", "FParams", "N", "Time"] ∧ .queryEncoder oneEncoder ∈ model.declarations ∧
      (∀ g ∈ model.groupings, EncodersFollow g.declarations) ∧ EncodersFollow model.shared := by
  have htest : passes (buildModel oneOperation ⟨"p", "P"⟩ 4) .start (fun _ s' =>
      decide (s'.registry.keys = ["Date", "FParams", "N", "Time"] ∧ s'.diagnostics = [])) = true := by
    decide +kernel
  obtain ⟨model, t, hbuild, hpass⟩ := exists_runs_of_passes htest
  obtain ⟨hkeys, hnone⟩ := of_decide_eq_true hpass
  have h : build 4 oneOperation ⟨"p", "P"⟩ = .ok (model, []) := by
    rw [build, EStateM.run, show _ = EStateM.Result.ok model t from hbuild, ← hnone]
  obtain ⟨s', hrun, hreports, hnodup, hperm, hgroups, hshared⟩ := declares_registry h
  cases hbuild.symm.trans hrun
  rw [hkeys] at hperm
  exact ⟨model, t, h, hrun, hreports, hnodup, hperm, hkeys, oneEncoder_declared hrun, hgroups, hshared⟩

end ClientGen

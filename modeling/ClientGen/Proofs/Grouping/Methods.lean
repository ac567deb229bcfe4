import ClientGen.Proofs.Grouping.Endpoint
import ClientGen.Proofs.Names.Model

/-
  ClientGen.Proofs.Grouping.Methods — every operation is in one grouping, that of its tag.

  A build maps the endpoints of its document one after the other and then shares them out by tag.
  Each tag in use has one grouping, and the methods of that are the endpoints with the tag, in the
  order of the document (`Grouped.methods`). So over all groupings every endpoint has its method
  once (`Grouped.complete`). Groupings are sorted by name, and by tag where names are the same:
  two tags may have one name, but no two groupings have one tag (`Grouped.ordered`).
-/

namespace ClientGen

/-! ## Tags -/

theorem tagsOf_nodup (operations : List TaggedOperation) : (tagsOf operations).Nodup :=
  (KeyMap.sorted_ofList _).nodup_keys

theorem mem_tagsOf {operations : List TaggedOperation} {tag : String} :
    tag ∈ tagsOf operations ↔ ∃ o ∈ operations, o.tag = tag := by
  rw [tagsOf, KeyMap.mem_keys_ofList, KeyMap.keys, List.map_map, List.mem_map]
  rfl

/-! ## Order -/

namespace Grouping

/-- By name, and by tag under one name. -/
def Before (a b : Grouping) : Prop := a.name < b.name ∨ a.name = b.name ∧ a.tag < b.tag

theorem le_iff {a b : Grouping} : Grouping.le a b = true ↔ a.name < b.name ∨ a.name = b.name ∧ a.tag ≤ b.tag := by
  unfold Grouping.le
  split
  · rename_i heq
    simp only [Bool.not_eq_true', decide_eq_false_iff_not, String.not_lt, heq, String.lt_irrefl, true_and, false_or]
  · rename_i hne
    simp only [decide_eq_true_eq, hne, false_and, or_false]

theorem le_total (a b : Grouping) : Grouping.le a b = true ∨ Grouping.le b a = true := by
  rw [le_iff, le_iff]
  by_cases hname : a.name = b.name
  · rcases String.le_total a.tag b.tag with htag | htag
    · exact .inl (.inr ⟨hname, htag⟩)
    · exact .inr (.inr ⟨hname.symm, htag⟩)
  · rcases String.le_total a.name b.name with hle | hle
    · exact .inl (.inl (Std.lt_of_le_of_ne hle hname))
    · exact .inr (.inl (Std.lt_of_le_of_ne hle (Ne.symm hname)))

theorem le_trans (a b c : Grouping) (h : Grouping.le a b = true) (h' : Grouping.le b c = true) :
    Grouping.le a c = true := by
  rw [le_iff] at *
  rcases h with hab | ⟨hab, htag⟩
  · rcases h' with hbc | ⟨hbc, -⟩
    · exact .inl (String.lt_trans hab hbc)
    · exact .inl (hbc ▸ hab)
  · rcases h' with hbc | ⟨hbc, htag'⟩
    · exact .inl (hab ▸ hbc)
    · exact .inr ⟨hab.trans hbc, String.le_trans htag htag'⟩

/-- Groupings of different tags are sorted strictly. -/
theorem sortBy_before {gs : List Grouping} (h : (gs.map (·.tag)).Nodup) :
    (sortBy Grouping.le gs).Pairwise Before := by
  have hperm : ((sortBy Grouping.le gs).map (·.tag)).Perm (gs.map (·.tag)) := (sortBy_perm _ _).map _
  have htags := List.pairwise_map.mp (hperm.nodup_iff.mpr h)
  have hle : (sortBy Grouping.le gs).Pairwise fun a b => Grouping.le a b = true := by
    have hany : gs.Pairwise fun _ _ => True := List.pairwise_of_forall fun _ _ => trivial
    exact (sortBy_stable le_total le_trans hany).imp fun hab => hab.1
  refine (hle.and htags).imp ?_
  intro a b ⟨hab, hne⟩
  rcases le_iff.mp hab with hlt | ⟨hname, htag⟩
  · exact .inl hlt
  · exact .inr ⟨hname, Std.lt_of_le_of_ne htag hne⟩

end Grouping

/-! ## Groupings -/

theorem Grouping.names_eq {gs : List Grouping} (h : ∀ g ∈ gs, g.name = Name.proper g.tag) :
    gs.map (·.name) = (gs.map (·.tag)).map Name.proper := by
  rw [List.map_map]
  exact List.map_congr_left h

/-- The groupings of a model share out the endpoints of the document by their tags. -/
structure Grouped (doc : Document) (fuel : Nat) (model : ApiModel) : Prop where
  /-- A grouping has the methods of the endpoints with its tag, in their order. -/
  methods : ∀ g ∈ model.groupings,
    List.Forall₂ (Endpoint.MapsTo doc fuel) (doc.endpoints.filter (·.operation.tag = g.tag)) g.methods
  /-- No endpoint is lost, and none is there twice. -/
  complete : ∃ methods, List.Forall₂ (Endpoint.MapsTo doc fuel) doc.endpoints methods ∧
    (model.groupings.flatMap (·.methods)).Perm methods
  tags_nodup : (model.groupings.map (·.tag)).Nodup
  mem_tags : ∀ tag, tag ∈ model.groupings.map (·.tag) ↔ ∃ e ∈ doc.endpoints, e.operation.tag = tag
  ordered : model.groupings.Pairwise Grouping.Before
  names : model.groupingNames = model.groupings.map (·.name)
  /-- The order of the endpoints is that of paths and methods. -/
  endpoints : doc.Ordered → doc.endpoints.Pairwise Endpoint.Before

namespace Grouped

variable {doc : Document} {fuel : Nat} {model : ApiModel} {β : Type}

/-- A method of a model was mapped from an endpoint of the document. -/
theorem exists_endpoint (h : Grouped doc fuel model) {m : Method} (hm : m ∈ model.methods) :
    ∃ e ∈ doc.endpoints, e.MapsTo doc fuel m := by
  obtain ⟨methods, hmaps, hperm⟩ := h.complete
  exact exists_of_forall₂ hmaps (hperm.mem_iff.mp hm)

/-- What is made of the tags of groupings is made of those in use. -/
theorem mem_map_tags (h : Grouped doc fuel model) (f : String → β) {b : β} :
    b ∈ (model.groupings.map (·.tag)).map f ↔ ∃ e ∈ doc.endpoints, f e.operation.tag = b := by
  rw [List.mem_map]
  constructor
  · rintro ⟨tag, htag, rfl⟩
    obtain ⟨e, he, rfl⟩ := (h.mem_tags tag).mp htag
    exact ⟨e, he, rfl⟩
  · rintro ⟨e, he, rfl⟩
    exact ⟨_, (h.mem_tags _).mpr ⟨e, he, rfl⟩, rfl⟩

theorem nodup_map_tags_iff (h : Grouped doc fuel model) (f : String → β) :
    ((model.groupings.map (·.tag)).map f).Nodup ↔ ∀ e ∈ doc.endpoints, ∀ e' ∈ doc.endpoints,
      f e.operation.tag = f e'.operation.tag → e.operation.tag = e'.operation.tag := by
  rw [List.nodup_map_iff_inj_on h.tags_nodup]
  simp only [h.mem_tags]
  constructor
  · intro hinj e he e' he'
    exact hinj _ ⟨e, he, rfl⟩ _ ⟨e', he', rfl⟩
  · rintro hapart _ ⟨e, he, rfl⟩ _ ⟨e', he', rfl⟩
    exact hapart e he e' he'

end Grouped

namespace Resolve

variable {doc : Document} {fuel : Nat} {s s' : Session}

/-- Endpoints and what they were mapped to have the same tags. -/
theorem mappedFrom_filter {endpoints : List Endpoint} {operations : List TaggedOperation}
    (h : List.Forall₂ (MappedFrom doc fuel) endpoints operations) (tag : String) :
    List.Forall₂ (Endpoint.MapsTo doc fuel) (endpoints.filter (·.operation.tag = tag))
      ((operations.filter (·.tag = tag)).map (·.mapped.method)) := by
  have hfiltered : List.Forall₂ (MappedFrom doc fuel) (endpoints.filter (·.operation.tag = tag))
      (operations.filter (·.tag = tag)) := by
    refine List.rel_filter ?_ h
    intro e o heo
    simp only [decide_eq_true_eq, heo.tag]
  rw [List.forall₂_map_right_iff]
  exact hfiltered.imp fun _ _ heo => heo.mapsTo

theorem mem_tags_of_mappedFrom {endpoints : List Endpoint} {operations : List TaggedOperation}
    (h : List.Forall₂ (MappedFrom doc fuel) endpoints operations) (tag : String) :
    (∃ o ∈ operations, o.tag = tag) ↔ ∃ e ∈ endpoints, e.operation.tag = tag := by
  constructor
  · rintro ⟨o, ho, htag⟩
    obtain ⟨e, he, heo⟩ := exists_of_forall₂ h ho
    exact ⟨e, he, heo.tag.symm.trans htag⟩
  · rintro ⟨e, he, htag⟩
    obtain ⟨o, ho, heo⟩ := exists_of_forall₂ h.flip he
    exact ⟨o, ho, heo.tag.trans htag⟩

/-- The methods of groupings that have one tag each. -/
theorem flatMap_methods {gs : List Grouping} {operations : List TaggedOperation}
    (h : ∀ g ∈ gs, g.methods = (operations.filter (·.tag = g.tag)).map (·.mapped.method)) :
    gs.flatMap (·.methods) = (groupedBy (gs.map (·.tag)) operations).map (·.mapped.method) := by
  induction gs with
  | nil => rfl
  | cons g rest ih =>
    rw [List.flatMap_cons, h g List.mem_cons_self, ih fun x hx => h x (List.mem_cons_of_mem g hx), List.map_cons,
      groupedBy, groupedBy, List.flatMap_cons, List.map_append]

/-- Every operation has its method in one of the groupings. -/
theorem Phases.methods_perm (p : Phases doc fuel) :
    (p.sortedGroups.flatMap (·.methods)).Perm (p.operations.map (·.mapped.method)) := by
  obtain ⟨htags, hgroups⟩ := groupings_methods p.runsGroups
  have hshare : groupedBy (p.groups.map (·.tag)) p.operations = groupedBy (tagsOf p.operations) p.operations := by
    rw [htags]
  refine ((sortBy_perm _ _).flatMap_right _).trans ?_
  rw [flatMap_methods fun g hg => (hgroups g hg).2, hshare]
  exact (groupedBy_tagsOf_perm p.operations).map _

/-- What the phases of a build group, sorted. Marking errors changes declarations only. -/
theorem Phases.grouped (p : Phases doc fuel) {model : ApiModel}
    (hgroupings : model.groupings = p.sortedGroups.map fun g =>
      { g with declarations := markErrors p.errors g.declarations })
    (hnames : model.groupingNames = p.sortedGroups.map (·.name)) : Grouped doc fuel model := by
  obtain ⟨htags, hgroups⟩ := groupings_methods p.runsGroups
  have hendpoints := p.mapping.endpoints
  have hperm : p.sortedGroups.Perm p.groups := sortBy_perm _ _
  have hmethods : ∀ g ∈ p.sortedGroups, g.methods = (p.operations.filter (·.tag = g.tag)).map (·.mapped.method) :=
    fun g hg => (hgroups g (hperm.mem_iff.mp hg)).2
  have hsortedTags : (p.sortedGroups.map (·.tag)).Perm (tagsOf p.operations) := htags ▸ hperm.map _
  have hmodelTags : model.groupings.map (·.tag) = p.sortedGroups.map (·.tag) := by
    rw [hgroupings, List.map_map]
    rfl
  constructor
  case methods =>
    intro g hg
    rw [hgroupings] at hg
    obtain ⟨g, hin, rfl⟩ := List.mem_map.mp hg
    simp only [hmethods g hin]
    exact mappedFrom_filter hendpoints g.tag
  case complete =>
    refine ⟨p.operations.map (·.mapped.method), ?_, ?_⟩
    · exact List.forall₂_map_right_iff.mpr (hendpoints.imp fun _ _ heo => heo.mapsTo)
    · have hflat : model.groupings.flatMap (·.methods) = p.sortedGroups.flatMap (·.methods) := by
        rw [hgroupings, List.flatMap_map]
      exact hflat ▸ p.methods_perm
  case tags_nodup =>
    rw [hmodelTags]
    exact hsortedTags.nodup_iff.mpr (tagsOf_nodup p.operations)
  case mem_tags =>
    intro tag
    rw [hmodelTags, hsortedTags.mem_iff, mem_tagsOf]
    exact mem_tags_of_mappedFrom hendpoints tag
  case ordered =>
    rw [hgroupings]
    refine List.pairwise_map.mpr ?_
    exact Grouping.sortBy_before (htags ▸ tagsOf_nodup p.operations)
  case names =>
    rw [hnames, hgroupings, List.map_map]
    rfl
  case endpoints => exact Document.Ordered.endpoints

/-- A grouping is named after its tag. -/
theorem Phases.name_eq (p : Phases doc fuel) {model : ApiModel}
    (hgroupings : model.groupings = p.sortedGroups.map fun g =>
      { g with declarations := markErrors p.errors g.declarations }) :
    ∀ g ∈ model.groupings, g.name = Name.proper g.tag := by
  intro g hg
  rw [hgroupings] at hg
  obtain ⟨g, hin, rfl⟩ := List.mem_map.mp hg
  obtain ⟨-, hgroups⟩ := groupings_methods p.runsGroups
  exact (hgroups g ((sortBy_perm _ _).mem_iff.mp hin)).1

/-- The groupings of a model are those of the tags in use, and named after them. -/
theorem groupings_of_build {config : Config} {model : ApiModel} {ds : List Diagnostic}
    (h : build fuel doc config = .ok (model, ds)) :
    Grouped doc fuel model ∧ ∀ g ∈ model.groupings, g.name = Name.proper g.tag := by
  obtain ⟨s', hrun, -⟩ := runs_of_build h
  obtain ⟨p, -, hgroupings, -, hnames⟩ := runs_buildModel hrun
  exact ⟨p.grouped hgroupings hnames, p.name_eq hgroupings⟩

end Resolve

open Resolve in
/-- A build shares out the operations of its document: each is mapped once, into the grouping of its tag. -/
theorem build_grouped {doc : Document} {fuel : Nat} {config : Config} {model : ApiModel} {ds : List Diagnostic}
    (h : build fuel doc config = .ok (model, ds)) : Grouped doc fuel model := by
  obtain ⟨s', hrun, -⟩ := runs_of_build h
  obtain ⟨p, -, hgroupings, -, hnames⟩ := runs_buildModel hrun
  exact p.grouped hgroupings hnames

/-- Operations on two paths under one tag, one without a tag, and a path that is a reference. -/
def sharedTag : Document :=
  { openapi := "3.0.0", info := ⟨"t", "1", none⟩, servers := [], tags := []
    paths :=
      [("/a", ⟨none, none, none, [(.get, ⟨["pets"], none, none, some "f", [], none, [], false, []⟩),
          (.put, ⟨[], none, none, some "g", [], none, [], false, []⟩)], []⟩),
        ("/b", ⟨some "#/paths/a", none, none, [(.get, ⟨[], none, none, some "h", [], none, [], false, []⟩)], []⟩),
        ("/c", ⟨none, none, none, [(.delete, ⟨["pets", "other"], none, none, some "k", [], none, [], false, []⟩)], []⟩)]
    components := ⟨[], [], [], []⟩ }

theorem sharedTag_ordered : sharedTag.Ordered where
  paths := by
    unfold KeyMap.Sorted
    decide
  methods := by decide

theorem build_grouped_sharedTag : sharedTag.Ordered ∧ ∃ model ds, build 1 sharedTag ⟨"p", "P"⟩ = .ok (model, ds) ∧
    model.groupings.map (·.methods.map (·.name)) = [["G"], ["F", "K"]] ∧ Grouped sharedTag 1 model := by
  obtain ⟨model, ds, h, htest⟩ := @Resolve.exists_build_of_passes sharedTag 1 ⟨"p", "P"⟩
    (fun m _ => m.groupings.map (·.methods.map (·.name)) = [["G"], ["F", "K"]]) (by decide +kernel)
  exact ⟨sharedTag_ordered, model, ds, h, of_decide_eq_true htest, build_grouped h⟩

end ClientGen

import ClientGen.Proofs.Grouping.Methods

/-
  ClientGen.Proofs.Grouping.MethodNames — when two operations of one grouping become one method.

  A method takes its name from the extension of its operation, or else from the id, given or made
  of verb and path; nothing looks at the names already given. So the methods of a grouping are
  named apart exactly if the endpoints with its tag are (`Grouped.methodNames`,
  `methodNames_nodup_iff`). Ids that differ may still spell one name, as two ids of one document
  do in `twoSpellings`.
-/

namespace ClientGen

/-- What the method of an endpoint is called: as its extension asks, or else by its id. -/
def Endpoint.methodName (e : Endpoint) : String :=
  e.operation.methodNameOverride?.getD (Name.proper (e.operation.idOr e.method e.path))

theorem Endpoint.MapsTo.name_eq {doc : Document} {fuel : Nat} {e : Endpoint} {m : Method} (h : e.MapsTo doc fuel m) :
    m.name = e.methodName := by
  obtain ⟨s, mapped, s', hruns⟩ := h.runs
  rw [← h.method_eq hruns]
  exact Resolve.name_of_mapOperation hruns

/-- Elements that share a key are apart as soon as they are so among those that have it. -/
theorem pairwise_sameKey_iff {α κ : Type} [DecidableEq κ] {key : α → κ} {R : α → α → Prop} {as : List α} :
    (as.Pairwise fun a b => key a = key b → R a b) ↔ ∀ k ∈ as.map key, (as.filter (key · = k)).Pairwise R := by
  simp only [List.pairwise_filter, decide_eq_true_eq]
  constructor
  · intro h k _
    exact h.imp fun hab ha hb => hab (ha.trans hb.symm)
  · intro h
    refine List.pairwise_iff_forall_sublist.mpr fun {a b} hsub hkey => ?_
    have ha : a ∈ as := hsub.subset List.mem_cons_self
    exact List.pairwise_iff_forall_sublist.mp (h (key a) (List.mem_map_of_mem ha)) hsub rfl hkey.symm

namespace Grouped

variable {doc : Document} {fuel : Nat} {model : ApiModel}

/-- The methods of a grouping are named as the endpoints with its tag. -/
theorem methodNames (h : Grouped doc fuel model) {g : Grouping} (hg : g ∈ model.groupings) :
    g.methods.map (·.name) = (doc.endpoints.filter (·.operation.tag = g.tag)).map Endpoint.methodName := by
  have hnames : List.Forall₂ (fun e m => m.name = e.methodName)
      (doc.endpoints.filter (·.operation.tag = g.tag)) g.methods :=
    (h.methods g hg).imp fun _ _ hm => hm.name_eq
  have hmapped : List.Forall₂ (· = ·) (g.methods.map (·.name))
      ((doc.endpoints.filter (·.operation.tag = g.tag)).map Endpoint.methodName) :=
    List.forall₂_map_left_iff.mpr (List.forall₂_map_right_iff.mpr hnames.flip)
  rwa [List.forall₂_eq_eq_eq] at hmapped

end Grouped

/-- No two operations of one tag have one method name. -/
def Document.MethodsApart (doc : Document) : Prop :=
  doc.endpoints.Pairwise fun a b => a.operation.tag = b.operation.tag → a.methodName ≠ b.methodName

open Resolve in
/-- The methods of every grouping have different names exactly if no two operations of one tag get one. -/
theorem methodNames_nodup_iff {doc : Document} {fuel : Nat} {config : Config} {model : ApiModel} {ds : List Diagnostic}
    (h : build fuel doc config = .ok (model, ds)) :
    (∀ g ∈ model.groupings, (g.methods.map (·.name)).Nodup) ↔ doc.MethodsApart := by
  obtain ⟨hgrouped, -⟩ := groupings_of_build h
  rw [Document.MethodsApart, pairwise_sameKey_iff]
  constructor
  · intro hnodup tag htag
    obtain ⟨e, he, rfl⟩ := List.mem_map.mp htag
    obtain ⟨g, hg, hkey⟩ := List.mem_map.mp ((hgrouped.mem_tags e.operation.tag).mpr ⟨e, he, rfl⟩)
    have hg' := hnodup g hg
    rw [hgrouped.methodNames hg, hkey] at hg'
    exact List.pairwise_map.mp hg'
  · intro hapart g hg
    obtain ⟨e, he, htag⟩ := (hgrouped.mem_tags g.tag).mp (List.mem_map_of_mem hg)
    rw [hgrouped.methodNames hg]
    exact List.pairwise_map.mpr (hapart g.tag (htag ▸ List.mem_map_of_mem he))

theorem methodNames_nodup_iff_sharedTag : ∃ model ds, build 1 sharedTag ⟨"p", "P"⟩ = .ok (model, ds) ∧
    model.groupings.map (·.methods.map (·.name)) = [["G"], ["F", "K"]] ∧ sharedTag.MethodsApart ∧ ∀ g ∈ model.groupings, (g.methods.map (·.name)).Nodup := by
  have hapart : sharedTag.MethodsApart := by
    unfold Document.MethodsApart
    decide +kernel
  obtain ⟨model, ds, h, htest⟩ := @Resolve.exists_build_of_passes sharedTag 1 ⟨"p", "P"⟩
    (fun m _ => m.groupings.map (·.methods.map (·.name)) = [["G"], ["F", "K"]]) (by decide +kernel)
  exact ⟨model, ds, h, of_decide_eq_true htest, hapart, (methodNames_nodup_iff h).mpr hapart⟩

/-- Two ids that differ, under one tag. -/
def twoSpellings : Document :=
  { openapi := "3.0.3", info := ⟨"t", "1", none⟩, servers := [], tags := []
    paths :=
      [("/a", ⟨none, none, none, [(.get, ⟨["pets"], none, none, some "list_pets", [], none, [], false, []⟩)], []⟩),
        ("/b", ⟨none, none, none, [(.get, ⟨["pets"], none, none, some "listPets", [], none, [], false, []⟩)], []⟩)]
    components := ⟨[], [], [], []⟩ }

/-- Both operations become the method `ListPets` of their grouping. -/
theorem two_ids_one_method : ∃ model ds, build 1 twoSpellings ⟨"p", "P"⟩ = .ok (model, ds) ∧
    ∃ g ∈ model.groupings, g.methods.map (·.name) = ["ListPets", "ListPets"] ∧ ¬ (g.methods.map (·.name)).Nodup := by
  obtain ⟨model, ds, h, hpasses⟩ := @Resolve.exists_build_of_passes twoSpellings 1 ⟨"p", "P"⟩
    (fun m _ => m.groupings.any fun g => g.methods.map (·.name) = ["ListPets", "ListPets"]) (by decide +kernel)
  obtain ⟨g, hg, hpasses⟩ := List.any_eq_true.mp hpasses
  have hnames := of_decide_eq_true hpasses
  refine ⟨model, ds, h, g, hg, hnames, ?_⟩
  rw [hnames]
  decide

end ClientGen

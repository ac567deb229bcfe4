import Mathlib.Data.List.Nodup
import ClientGen.Proofs.Parameters.Mapped
import ClientGen.Proofs.Run.Operation
import ClientGen.Proofs.Run.Reordered

/-
  ClientGen.Proofs.Parameters.Permuted — the parameters of an operation in another order.

  If no two of its parameters have one place, the merged parameters are the same in another order
  (`firstByKey_perm`). Nothing that is made of them sees the order:
  - a placeholder is looked up by its place (`find?_eq_of_perm`),
  - the fields of query parameters are sorted by names, which must be different
    (`sortedFields_eq_of_perm`).
  So the operation is mapped to the same method and the same declarations, and leaves the same
  registry behind (`mapOperation_permuted`).
-/

namespace ClientGen

variable {doc : Document} {operationId operationName : String}

/-! ## Lists in another order -/

section Lists

variable {α κ : Type} [BEq κ] [LawfulBEq κ] {key : α → κ} {items items' : List α}

theorem firstByKey_perm (h : items.Perm items') (hdistinct : items.Pairwise (key · ≠ key ·)) (more : List α) :
    (firstByKey key (items ++ more)).Perm (firstByKey key (items' ++ more)) := by
  have hdistinct' : items'.Pairwise (key · ≠ key ·) := (h.pairwise_iff Ne.symm).mp hdistinct
  have hseen : ∀ k, k ∈ items.map key ++ [] ↔ k ∈ items'.map key ++ [] := fun k => by
    rw [List.append_nil, List.append_nil, (h.map key).mem_iff]
  rw [firstByKey, firstByKey, firstByKeyFrom_append, firstByKeyFrom_append,
    firstByKeyFrom_of_distinct hdistinct fun _ _ => List.not_mem_nil,
    firstByKeyFrom_of_distinct hdistinct' fun _ _ => List.not_mem_nil, firstByKeyFrom_congr hseen]
  exact h.append_right _

/-- What only one element can be is found in any order. -/
theorem find?_eq_of_perm {test : α → Bool} (h : items.Perm items')
    (hunique : ∀ a ∈ items, ∀ b ∈ items, test a = true → test b = true → a = b) : items.find? test = items'.find? test := by
  cases hfound : items.find? test with
  | none =>
    have hnone := List.find?_eq_none.mp hfound
    exact (List.find?_eq_none.mpr fun a ha => hnone a (h.mem_iff.mpr ha)).symm
  | some a =>
    have hmem := List.mem_of_find?_eq_some hfound
    have htest := List.find?_some hfound
    obtain ⟨b, hb⟩ := Option.isSome_iff_exists.mp (List.find?_isSome.mpr ⟨a, h.mem_iff.mp hmem, htest⟩)
    have hother := h.mem_iff.mpr (List.mem_of_find?_eq_some hb)
    rw [hb, hunique a hmem b hother htest (List.find?_some hb)]

end Lists

open Resolve in
theorem sortedFields_eq_of_perm {fields fields' : List Field} (h : fields.Perm fields')
    (hdistinct : (fields.map (·.name)).Nodup) : sortedFields fields = sortedFields fields' := by
  have hnames : fields.Pairwise (·.name ≠ ·.name) := List.pairwise_map.mp hdistinct
  have hnames' : fields'.Pairwise (·.name ≠ ·.name) := (h.pairwise_iff Ne.symm).mp hnames
  have hperm : (sortedFields fields).Perm (sortedFields fields') := by
    have hsorted := sortedFields_perm fields
    have hsorted' := sortedFields_perm fields'
    rw [firstByKey, firstByKeyFrom_of_distinct hnames fun _ _ => List.not_mem_nil] at hsorted
    rw [firstByKey, firstByKeyFrom_of_distinct hnames' fun _ _ => List.not_mem_nil] at hsorted'
    exact hsorted.trans (h.trans hsorted'.symm)
  refine List.Perm.eq_of_pairwise ?_ (sortedFields_increasing fields) (sortedFields_increasing fields') hperm
  intro f g _ _ hlt hgt
  exact absurd hgt (String.lt_asymm hlt)

theorem mergeParameters_permuted (operationId : String) {own own' : List (RefOr ParameterSpec)} (h : own.Perm own')
    (hdistinct : (doc.parametersIn own).Pairwise (·.place ≠ ·.place)) (ofPath : List (RefOr ParameterSpec)) :
    (mergeParameters doc operationId own ofPath).1.Pairwise (·.place ≠ ·.place) ∧
      (mergeParameters doc operationId own ofPath).1.Perm (mergeParameters doc operationId own' ofPath).1 ∧
      (mergeParameters doc operationId own ofPath).2.Perm (mergeParameters doc operationId own' ofPath).2 := by
  rw [mergeParameters_eq, mergeParameters_eq]
  exact ⟨pairwise_firstByKeyFrom, firstByKey_perm (h.filterMap _) hdistinct _,
    ((h.append_right ofPath).filterMap _).map _⟩

/-! ## Arguments -/

theorem placeholderType_perm {ps ps' : List ParameterSpec} (h : ps.Perm ps')
    (hdistinct : ps.Pairwise (·.place ≠ ·.place)) (placeholder argument : String) :
    placeholderType doc operationId ps placeholder argument =
      placeholderType doc operationId ps' placeholder argument := by
  have hplace {p : ParameterSpec} (hp : (p.location == .path && p.name == placeholder) = true) :
      p.place = (placeholder, .path) := by
    simp only [Bool.and_eq_true, beq_iff_eq] at hp
    exact Prod.ext hp.2 hp.1
  rw [placeholderType, placeholderType, find?_eq_of_perm h]
  intro p hp q hq htest htest'
  exact List.inj_on_of_nodup_map (List.pairwise_map.mpr hdistinct) hp hq ((hplace htest).trans (hplace htest').symm)

theorem pathArguments_perm {ps ps' : List ParameterSpec} (h : ps.Perm ps')
    (hdistinct : ps.Pairwise (·.place ≠ ·.place)) (taken placeholders : List String) :
    pathArguments doc operationId ps taken placeholders = pathArguments doc operationId ps' taken placeholders := by
  induction placeholders generalizing taken with
  | nil => rfl
  | cons placeholder rest ih => simp only [pathArguments, placeholderType_perm h hdistinct, ih]

/-! ## Fields -/

namespace Resolve

theorem queryParams_permuted {ps ps' : List ParameterSpec} (h : ps.Perm ps')
    (hdistinct : ((ps.filter (·.isQuery)).map fun p => Name.identifier p.name).Nodup) :
    Blind (queryParams doc operationId operationName ps) (queryParams doc operationId operationName ps') := by
  have hfields := (h.filter (·.isQuery)).map (·.field doc operationName)
  have hsorted := sortedFields_eq_of_perm hfields (by rwa [List.map_map])
  simp only [queryParams, queryFields_eq, hsorted, hfields.isEmpty_eq]
  refine .bind (.reportAll (h.flatMap_right _)) fun _ => ?_
  split
  · exact stepwise_blind.answer _
  · refine .get fun s t hregistry => ?_
    rw [hregistry]
    exact .bind (stepwise_blind.declare _) fun _ => stepwise_blind.answer _

/-! ## The operation -/

/-- The parameters of an operation may stand in any order, if no two of them have one name and
    location and the fields of the query parameters have different names. -/
theorem mapOperation_permuted {fuel : Nat} {httpMethod : HttpMethod} {path : String} {op : Operation}
    {ofPath ps : List (RefOr ParameterSpec)} (h : op.parameters.Perm ps)
    (hplaces : (doc.parametersIn op.parameters).Pairwise fun p q => ¬ (p.name = q.name ∧ p.location = q.location))
    (hfields : (((parametersOf doc httpMethod path op ofPath).filter (·.isQuery)).map fun p =>
      Name.identifier p.name).Nodup) (s : Session) :
    SameOutcome (mapOperation doc fuel httpMethod path op ofPath s)
      (mapOperation doc fuel httpMethod path { op with parameters := ps } ofPath s) := by
  have hid : Operation.idOr { op with parameters := ps } httpMethod path = op.idOr httpMethod path := rfl
  have hdistinct : (doc.parametersIn op.parameters).Pairwise (·.place ≠ ·.place) :=
    hplaces.imp fun hne he => hne (ParameterSpec.place_eq_iff.mp he)
  obtain ⟨hunique, hmerged, hreports⟩ := mergeParameters_permuted (op.idOr httpMethod path) h hdistinct ofPath
  suffices hblind : Blind (mapOperation doc fuel httpMethod path op ofPath)
      (mapOperation doc fuel httpMethod path { op with parameters := ps } ofPath) from hblind ⟨rfl, .refl _⟩
  unfold parametersOf at hfields
  simp only [mapOperation, hid]
  generalize mergeParameters doc (op.idOr httpMethod path) op.parameters ofPath = merged at *
  generalize mergeParameters doc (op.idOr httpMethod path) ps ofPath = merged' at *
  obtain ⟨parameters, reports⟩ := merged
  obtain ⟨parameters', reports'⟩ := merged'
  simp only [pathArguments_perm hmerged hunique]
  refine .bind (.reportAll hreports) fun _ => .bind (.reportAll (.refl _)) fun _ => ?_
  refine .bind (queryParams_permuted hmerged hfields) fun _ => .bind (stepwise_blind.requestBody _ _) fun _ => ?_
  exact .bind (stepwise_blind.responses refusal_blind _ _ _) fun _ => stepwise_blind.answer _

theorem SameOutcome.exists_runs {α : Type} {x y : Resolve α} {s s' t : Session} {a : α}
    (h : SameOutcome (x s) (y t)) (hx : Runs x s a s') : ∃ t', Runs y t a t' ∧ s'.Reordered t' := by
  rw [show x s = .ok a s' from hx] at h
  generalize hy : y t = outcome at h
  cases h with
  | answer _ hst => exact ⟨_, hy, hst⟩

/-- A document with one parameter to refer to. -/
def limitDocument : Document :=
  { openapi := "3.0.0", info := ⟨"t", "1", none⟩, servers := [], tags := [], paths := []
    components := ⟨[], [], [("Limit", ⟨"limit", .query, false, none, none⟩)], []⟩ }

/-- Two references, of which one leads nowhere, between parameters of all other kinds. -/
def listedParameters : List (RefOr ParameterSpec) :=
  [.ref "#/components/parameters/Limit", .item ⟨"X-Trace", .header, false, none, none⟩,
    .item ⟨"id", .path, true, none, none⟩, .ref "#/components/parameters/Gone", .item ⟨"after", .query, true, none, none⟩]

def listing : Operation := ⟨[], none, none, some "list", listedParameters, none, [], false, []⟩

/-- The path has a parameter that is hidden, and one that is not. -/
def listingPath : List (RefOr ParameterSpec) :=
  [.item ⟨"limit", .query, true, none, none⟩, .item ⟨"before", .query, false, none, none⟩]

theorem mapOperation_permuted_reversed :
    listing.parameters.Perm listedParameters.reverse ∧
      ((limitDocument.parametersIn listing.parameters).Pairwise fun p q => ¬ (p.name = q.name ∧ p.location = q.location)) ∧
      (((parametersOf limitDocument .get "/items/\x7bid\x7d" listing listingPath).filter (·.isQuery)).map fun p =>
        Name.identifier p.name).Nodup ∧
      ∃ m s t, Runs (mapOperation limitDocument 1 .get "/items/\x7bid\x7d" listing listingPath) .start m s ∧
        m.method.pathParams = [⟨"id", .scalar .string⟩] ∧ m.method.queryParams = some ⟨"params", .named "ListParams"⟩ ∧
        s.registry.keys = ["ListParams"] ∧
        Runs (mapOperation limitDocument 1 .get "/items/\x7bid\x7d" { listing with parameters := listedParameters.reverse }
          listingPath) .start m t ∧ s.registry = t.registry ∧ s.diagnostics.Perm t.diagnostics := by
  have hperm : listing.parameters.Perm listedParameters.reverse := (List.reverse_perm _).symm
  have hplaces : (limitDocument.parametersIn listing.parameters).Pairwise fun p q =>
      ¬ (p.name = q.name ∧ p.location = q.location) := by decide +kernel
  have hfields : (((parametersOf limitDocument .get "/items/\x7bid\x7d" listing listingPath).filter (·.isQuery)).map fun p =>
      Name.identifier p.name).Nodup := by decide +kernel
  have hpasses : passes (mapOperation limitDocument 1 .get "/items/\x7bid\x7d" listing listingPath) .start
      (fun m s => decide (m.method.pathParams = [⟨"id", .scalar .string⟩] ∧
        m.method.queryParams = some ⟨"params", .named "ListParams"⟩ ∧ s.registry.keys = ["ListParams"])) = true := by
    decide +kernel
  obtain ⟨m, s, h, hpass⟩ := exists_runs_of_passes hpasses
  obtain ⟨hpath, hquery, hkeys⟩ := of_decide_eq_true hpass
  obtain ⟨t, ht, hregistry, hdiagnostics⟩ := (mapOperation_permuted hperm hplaces hfields .start).exists_runs h
  exact ⟨hperm, hplaces, hfields, m, s, t, h, hpath, hquery, hkeys, ht, hregistry, hdiagnostics⟩

end Resolve

end ClientGen

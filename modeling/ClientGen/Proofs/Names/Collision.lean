import ClientGen.Proofs.Document.Same
import ClientGen.Proofs.Names.Origin
import ClientGen.Proofs.Run.Build

/-
  ClientGen.Proofs.Names.Collision — without a reported collision every name belongs to its schema.

  A claim of a taken name is silent when the name was claimed for the same schema, and reported
  when it was claimed for another one. So where a run reports no collision on a name
  (`Uncollided`), and all the more where it reports none at all (`Quiet`), a name that it gives
  for a schema belongs to that schema (`BelongsTo`):
  - the type of a schema that is named comes from a reference, or the name belongs to the schema
    that it resolves as (`named_belongs`);
  - every component owns the name that it is declared under, after the claim (`component_belongs`)
    and, as no name changes hands, at the end of the build (`components_belong`).
  Two schemas that own one name are the same, so components that differ are declared apart.
-/

namespace ClientGen

/-- The name was first claimed for this schema, or for one that is the same. -/
def BelongsTo (r : Registry) (name : String) (sch : Schema) : Prop :=
  ∃ origin, r.origin? name = some origin ∧ origin.same sch = true

theorem BelongsTo.of_origin {r : Registry} {name : String} {sch : Schema} (h : r.origin? name = some sch) :
    BelongsTo r name sch := ⟨sch, h, Schema.same_refl sch⟩

/-- Two schemas that own one name are the same. -/
theorem BelongsTo.same {r : Registry} {name : String} {sch other : Schema} (h : BelongsTo r name sch)
    (h' : BelongsTo r name other) : sch.same other = true := by
  obtain ⟨origin, horigin, hsame⟩ := h
  obtain ⟨origin', horigin', hsame'⟩ := h'
  rw [horigin] at horigin'
  cases horigin'
  exact Schema.same_of_common hsame hsame'

theorem BelongsTo.mem_keys {r : Registry} {name : String} {sch : Schema} (h : BelongsTo r name sch) :
    name ∈ r.keys := by
  obtain ⟨origin, horigin, -⟩ := h
  cases hentry : KeyMap.get? r name with
  | none => rw [Registry.origin?, hentry] at horigin; cases horigin
  | some entry => exact KeyMap.mem_keys_of_get? hentry

/-- No name changes hands. -/
theorem BelongsTo.grows {s s' : Session} {name : String} {sch : Schema} (h : BelongsTo s.registry name sch)
    (hgrows : s.Grows s') : BelongsTo s'.registry name sch := by
  have hmem := h.mem_keys
  obtain ⟨origin, horigin, hsame⟩ := h
  exact ⟨origin, (hgrows.origin_eq hmem).trans horigin, hsame⟩

/-- No collision was reported on the way from one session to the other. -/
def Quiet (s s' : Session) : Prop :=
  ∃ ds, s'.diagnostics = s.diagnostics ++ ds ∧ ∀ d ∈ ds, d.kind ≠ .nameCollision

theorem Quiet.of_grows {s s' : Session} (h : s.Grows s') (hquiet : ∀ d ∈ s'.diagnostics, d.kind ≠ .nameCollision) :
    Quiet s s' := by
  obtain ⟨ds, hds⟩ := h.diagnostics
  refine ⟨ds, hds.symm, ?_⟩
  intro d hd
  exact hquiet d (hds ▸ List.mem_append_right _ hd)

/-- No collision on this name was reported on the way from one session to the other. -/
def Uncollided (name : String) (s s' : Session) : Prop :=
  ∃ ds, s'.diagnostics = s.diagnostics ++ ds ∧ Diagnostic.nameCollision name ∉ ds

theorem Quiet.uncollided {s s' : Session} (h : Quiet s s') (name : String) : Uncollided name s s' := by
  obtain ⟨ds, hds, hquiet⟩ := h
  exact ⟨ds, hds, fun hmem => hquiet _ hmem rfl⟩

theorem not_uncollided_collision (s : Session) (name : String) :
    ¬ Uncollided name s { s with diagnostics := s.diagnostics ++ [.nameCollision name] } := by
  rintro ⟨ds, hds, hnone⟩
  obtain rfl := List.append_cancel_left hds
  exact hnone List.mem_cons_self

/-- The schema that a schema resolves as: outside a component an `allOf` with one branch is that
    branch. -/
def unwrapped (sch : Schema) (position : Position) : Schema :=
  match h : sch.shape with
  | .allOf [branch] =>
    have : sizeOf branch < sizeOf sch := Schema.sizeOf_lt_of_allOf (Schema.allOf_of_shape h) (by simp)
    if position = .component then sch else unwrapped branch position
  | _ => sch
termination_by sizeOf sch

theorem unwrapped_only {sch branch : Schema} {position : Position} (h : sch.shape = .allOf [branch])
    (hposition : position ≠ .component) : unwrapped sch position = unwrapped branch position := by
  rw [unwrapped]
  split
  · rename_i other hother
    rw [h] at hother
    cases hother
    rw [if_neg hposition]
  · rename_i hnone
    exact absurd h (hnone branch)

theorem unwrapped_eq_self {sch : Schema} {position : Position}
    (h : ∀ branch, sch.shape = .allOf [branch] → position = .component) : unwrapped sch position = sch := by
  rw [unwrapped]
  split
  · rename_i branch hshape
    rw [if_pos (h branch hshape)]
  · rfl

namespace Resolve

variable {doc : Document} {resolve : Resolver} {fuel : Nat} {s s' : Session} {sch : Schema} {name : String}

/-- A taken name is given silently only to the schema that it belongs to. -/
theorem Reclaimed.belongs (h : Reclaimed name (some sch) s s') (hnone : Uncollided name s s') :
    BelongsTo s'.registry name sch := by
  cases h with
  | @reuse entry hentry hsame =>
    unfold Registry.sameOrigin at hsame
    split at hsame
    · rename_i origin _ horigin hsome
      cases hsome
      exact ⟨origin, by rw [Registry.origin?, hentry]; exact horigin, hsame⟩
    · cases hsame
  | collision _ _ => exact absurd hnone (not_uncollided_collision s name)

/-- The schema that owns a name is given it silently. -/
theorem runs_claim_of_belongs (h : BelongsTo s.registry name sch) : Runs (claim name (some sch)) s false s := by
  obtain ⟨fresh, s', hclaim⟩ := exists_runs_claim name (some sch) s
  rcases runs_claim hclaim with ⟨-, hfree, -⟩ | ⟨rfl, htaken⟩
  · exact absurd h.mem_keys hfree
  · cases htaken with
    | reuse _ _ => exact hclaim
    | collision hentry hdiffers =>
      obtain ⟨origin, horigin, hsame⟩ := h
      rw [Registry.origin?, hentry, Option.bind_some] at horigin
      simp [Registry.sameOrigin, horigin, hsame] at hdiffers

theorem declared_belongs (hr : GrowingAll resolve) {r : Resolution} (h : Declared doc resolve sch name s r s')
    (hnone : Uncollided name s s') : r.type = .named name ∧ BelongsTo s'.registry name sch := by
  cases h with
  | fresh _ hb => exact ⟨rfl, .of_origin (declared_origin hr hb)⟩
  | taken htaken => exact ⟨rfl, htaken.belongs hnone⟩

/-- A named type comes from a reference, or the name belongs to the schema. -/
theorem named_belongs {position : Position} {r : Resolution} {n : String}
    (h : Runs (resolveAt doc fuel sch name position) s r s') (hquiet : Quiet s s') (ht : r.type = .named n) :
    (∃ target, (unwrapped sch position).shape = .reference target ∧ referenceType doc target = .named n) ∨
      BelongsTo s'.registry n (unwrapped sch position) := by
  -- a single branch is resolved in place of the schema, with less fuel but from the same session
  induction fuel generalizing sch with
  | zero => cases h
  | succ fuel ih =>
    cases runs_step h with
    | @reference target hshape =>
      have hself : unwrapped sch position = sch := unwrapped_eq_self (by simp [hshape])
      rw [hself]
      exact .inl ⟨target, hshape, ht⟩
    | builtin _ hnames _ =>
      simp only [Resolution.of] at ht
      subst ht
      cases hnames
    | array _ _ => cases ht
    | only hshape hposition hb =>
      rw [unwrapped_only hshape hposition]
      exact ih hb
    | declared _ hself hd =>
      rw [unwrapped_eq_self hself]
      obtain ⟨htype, hbelongs⟩ := declared_belongs (resolveAt_growing doc fuel) hd (hquiet.uncollided _)
      rw [htype] at ht
      cases ht
      exact .inr hbelongs

/-! ## Components -/

/-- A component owns the name that it is declared under. -/
theorem component_belongs {key : String} {ds : List Declaration} (h : Runs (declareComponent doc fuel key sch) s ds s')
    (hnone : Uncollided (ownName sch (Name.identifier key)) s s') :
    BelongsTo s'.registry (ownName sch (Name.identifier key)) sch := by
  rcases runs_declareComponent h with ⟨hself, r, hr, rfl⟩ | ⟨hself, hn, r, t, hr, rfl, rfl⟩ | ⟨hself, htaken, -⟩
  · cases fuel with
    | zero => cases hr
    | succ fuel => exact (declared_belongs (resolveAt_growing doc fuel) (runs_component hself hr) hnone).2
  · rw [ownName_of_not_self hself]
    have hgrows := resolveAt_growing doc fuel _ _ _ hr
    refine .of_origin ?_
    rw [recorded, Registry.origin_record, hgrows.origin_eq (mem_keys_claimed.mpr (.inl rfl))]
    exact Registry.origin_claim _ _ _
  · rw [ownName_of_not_self hself] at hnone ⊢
    exact htaken.belongs hnone

theorem components_belong {schemas : KeyMap Schema} {components : KeyMap (List Declaration)}
    (h : Runs (declareComponents doc fuel schemas) s components s')
    (hquiet : ∀ d ∈ s'.diagnostics, d.kind ≠ .nameCollision) :
    ∀ e ∈ schemas, BelongsTo s'.registry (ownName e.2 (Name.identifier e.1)) e.2 := by
  induction schemas generalizing s components with
  | nil =>
    intro e he
    cases he
  | cons c rest ih =>
    obtain ⟨ds, t, more, hd, hrest, rfl⟩ := runs_declareComponents_cons h
    have hgrows := growing_compositional.declareComponents rest hrest
    intro e he
    rcases List.mem_cons.mp he with rfl | he
    · have hquietHere : ∀ d ∈ t.diagnostics, d.kind ≠ .nameCollision :=
        fun d hd => hquiet d (hgrows.diagnostics.subset hd)
      have hnone := (Quiet.of_grows (growing_compositional.declareComponent _ _ hd) hquietHere).uncollided
      exact (component_belongs hd (hnone _)).grows hgrows
    · exact ih hrest e he

/-- What is left of a build once the components are declared. -/
theorem Phases.grows (p : Phases doc fuel) : p.afterComponents.Grows p.final :=
  (growing_compositional.mapPaths refusal_growing _ p.runsOperations).trans
    ((growing_compositional.groupings _ _ _ p.runsGroups).trans (growing_compositional.declareResponses _ p.runsResponses))

end Resolve

open Resolve

/-- Without a reported collision, a name that a schema is given belongs to it: the name of a type
    wherever one is resolved, and the names of all components at the end of a build. So components
    that share a name are the same. -/
theorem quiet_runs_belong (doc : Document) (fuel : Nat) :
    (∀ sch name position s r s' n, Runs (resolveAt doc fuel sch name position) s r s' → Quiet s s' →
        r.type = .named n →
        (∃ target, (unwrapped sch position).shape = .reference target ∧ referenceType doc target = .named n) ∨
          BelongsTo s'.registry n (unwrapped sch position)) ∧
      ∀ config model ds, build fuel doc config = .ok (model, ds) → (∀ d ∈ ds, d.kind ≠ .nameCollision) →
        ∃ s', Runs (buildModel doc config fuel) .start model s' ∧ s'.diagnostics = ds ∧
          (∀ e ∈ doc.components.schemas, BelongsTo s'.registry (ownName e.2 (Name.identifier e.1)) e.2) ∧
          ∀ e ∈ doc.components.schemas, ∀ f ∈ doc.components.schemas,
            ownName e.2 (Name.identifier e.1) = ownName f.2 (Name.identifier f.1) → e.2.same f.2 = true := by
  constructor
  · intro sch name position s r s' n h hquiet ht
    exact named_belongs h hquiet ht
  · intro config model ds h hquiet
    obtain ⟨s', hrun, rfl⟩ := runs_of_build h
    obtain ⟨p, rfl, -⟩ := runs_buildModel hrun
    have hdeclared : ∀ d ∈ p.afterComponents.diagnostics, d.kind ≠ .nameCollision :=
      fun d hd => hquiet d (p.grows.diagnostics.subset hd)
    have hbelong : ∀ e ∈ doc.components.schemas,
        BelongsTo p.final.registry (ownName e.2 (Name.identifier e.1)) e.2 :=
      fun e he => (components_belong p.runsComponents hdeclared e he).grows p.grows
    refine ⟨p.final, hrun, rfl, hbelong, ?_⟩
    intro e he f hf hname
    exact (hbelong e he).same (hname ▸ hbelong f hf)

def pet : Schema :=
  { Schema.blank with properties := some [("name", { Schema.blank with type := some (.single "string") })] }

/-- Resolves as `pet` outside a component. -/
def onlyPet : Schema := { Schema.blank with allOf := some [pet] }

/-- One schema under two keys that have the same identifier. -/
def twins : Document :=
  { openapi := "3.0.0", info := ⟨"t", "1", none⟩, servers := [], tags := [], paths := []
    components := ⟨[("Pet", pet), ("pet", pet)], [], [], []⟩ }

theorem onlyPet_runs : ∃ s', Runs (resolveAt twins 3 onlyPet "Pet" .nested) (claimed .start "Pet" (some pet))
    (.of (.named "Pet")) s' ∧ s'.diagnostics = [] := by
  have htest : passes (resolveAt twins 3 onlyPet "Pet" .nested) (claimed .start "Pet" (some pet))
      (fun r s' => decide (r = .of (.named "Pet")) && s'.diagnostics.isEmpty) = true := by decide +kernel
  obtain ⟨r, s', hruns, hpass⟩ := exists_runs_of_passes htest
  rw [Bool.and_eq_true, decide_eq_true_eq, List.isEmpty_iff] at hpass
  obtain ⟨rfl, hdiagnostics⟩ := hpass
  exact ⟨s', hruns, hdiagnostics⟩

theorem quiet_runs_belong_twins :
    (∃ s', Runs (resolveAt twins 3 onlyPet "Pet" .nested) (claimed .start "Pet" (some pet)) (.of (.named "Pet")) s' ∧
        Quiet (claimed .start "Pet" (some pet)) s' ∧
        ((∃ target, (unwrapped onlyPet .nested).shape = .reference target ∧
            referenceType twins target = .named "Pet") ∨
          BelongsTo s'.registry "Pet" (unwrapped onlyPet .nested))) ∧
      ∃ model ds, build 4 twins ⟨"p", "P"⟩ = .ok (model, ds) ∧ (∀ d ∈ ds, d.kind ≠ .nameCollision) ∧
        ∃ s', Runs (buildModel twins ⟨"p", "P"⟩ 4) .start model s' ∧ s'.diagnostics = ds ∧
          (∀ e ∈ twins.components.schemas, BelongsTo s'.registry (ownName e.2 (Name.identifier e.1)) e.2) ∧
          ∀ e ∈ twins.components.schemas, ∀ f ∈ twins.components.schemas,
            ownName e.2 (Name.identifier e.1) = ownName f.2 (Name.identifier f.1) → e.2.same f.2 = true := by
  constructor
  · obtain ⟨s', hruns, hdiagnostics⟩ := onlyPet_runs
    have hquiet : Quiet (claimed .start "Pet" (some pet)) s' := ⟨[], hdiagnostics, by simp⟩
    exact ⟨s', hruns, hquiet, (quiet_runs_belong twins 3).1 _ _ _ _ _ _ _ hruns hquiet rfl⟩
  · obtain ⟨model, ds, h, htest⟩ := @Resolve.exists_build_of_passes twins 4 ⟨"p", "P"⟩
      (fun _ ds => ds.all (·.kind ≠ .nameCollision)) (by decide +kernel)
    have hquiet : ∀ d ∈ ds, d.kind ≠ .nameCollision := by
      intro d hd
      exact of_decide_eq_true (List.all_eq_true.mp htest d hd)
    exact ⟨model, ds, h, hquiet, (quiet_runs_belong twins 4).2 _ _ _ h hquiet⟩

end ClientGen

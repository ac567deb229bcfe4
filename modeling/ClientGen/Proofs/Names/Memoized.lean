import ClientGen.Proofs.Fuel.Extend
import ClientGen.Proofs.Names.Collision
import ClientGen.Proofs.Names.Component

/-
  ClientGen.Proofs.Names.Memoized — what was resolved once declares nothing again.

  A schema that declares itself stops at the claim of its name when the name is taken. An array
  or a single branch claims nothing itself and leads to the next schema inside, so a second run
  stops where the first one declared its first type. By then that name is taken, whether the
  first run found it free, reused it or collided (`resolveAt_again`). What the first run declared
  further inside is not reached.
  - So resolving again gives the same type, in the session that the first run left and in every
    later one, and the registry stays as it is. What an opaque type reports is reported again.
  - A component claims one name before anything else, and a component that owns that name is
    given it silently (`declareComponent_owned`): then not even a diagnostic is added.
-/

namespace ClientGen

namespace Resolve

variable {doc : Document} {resolve : Resolver} {fuel more : Nat} {s s' t : Session} {sch : Schema} {name key : String}
  {position : Position} {r : Resolution}

/-! ## Schemas -/

/-- A schema that was declared under a name is found under it wherever that name is taken. -/
theorem declared_again {x : Resolve Resolution} (hx : ∃ build, x = declaring name sch build)
    (h : Declared doc (resolveAt doc fuel) sch name s r s') (hkeys : s'.registry.keys ⊆ t.registry.keys) :
    ∃ t', Runs x t (.of r.type) t' ∧ t'.registry = t.registry := by
  obtain ⟨htype, hmem⟩ := declared_mem_keys (resolveAt_emits doc fuel) h
  obtain ⟨build, rfl⟩ := hx
  rw [htype]
  exact runs_declaring_of_mem sch build (hkeys hmem)

/-- Where all names of the first run are taken, resolving again gives the type of the first run
    and declares nothing. -/
theorem resolveAt_again (h : Runs (resolveAt doc fuel sch name position) s r s')
    (hkeys : s'.registry.keys ⊆ t.registry.keys) :
    ∃ t', Runs (resolveAt doc fuel sch name position) t (.of r.type) t' ∧ t'.registry = t.registry := by
  -- the fuel counts the arrays and single branches down to the schema that claims
  induction fuel generalizing sch name position r s with
  | zero => cases h
  | succ fuel ih =>
    rw [resolveAt] at h ⊢
    unfold step at h ⊢
    cases hshape : sch.shape with
    | reference target =>
      simp only [hshape, runs_pure] at h ⊢
      obtain ⟨rfl, -⟩ := h
      exact ⟨t, ⟨rfl, rfl⟩, rfl⟩
    | enumeration values =>
      simp only [hshape] at h ⊢
      have hdeclared : Declared doc (resolveAt doc fuel) sch (Name.singular name) s r s' := runs_enumeration h
      exact declared_again ⟨_, rfl⟩ hdeclared hkeys
    | primitive p =>
      simp only [hshape, runs_pure] at h ⊢
      obtain ⟨rfl, -⟩ := h
      exact ⟨t, ⟨rfl, rfl⟩, rfl⟩
    | array items =>
      cases items with
      | none =>
        simp only [hshape, runs_pure] at h ⊢
        obtain ⟨rfl, -⟩ := h
        exact ⟨t, ⟨rfl, rfl⟩, rfl⟩
      | some items =>
        simp only [hshape, runs_bind, runs_pure] at h ⊢
        obtain ⟨inner, _, hinner, rfl, rfl⟩ := h
        obtain ⟨t', hagain, hregistry⟩ := ih hinner
        exact ⟨t', ⟨_, _, hagain, rfl, rfl⟩, hregistry⟩
    | object =>
      simp only [hshape] at h ⊢
      exact declared_again (object_eq_declaring _ sch name) (runs_object h) hkeys
    | oneOf branches =>
      simp only [hshape] at h ⊢
      exact declared_again ⟨_, rfl⟩ (runs_sumType (Schema.eq_of_shape.2.2.1 _ hshape) h) hkeys
    | anyOf branches =>
      simp only [hshape, runs_bind, runs_report, runs_pure] at h ⊢
      obtain ⟨_, _, -, rfl, -⟩ := h
      exact ⟨_, ⟨⟨⟩, _, rfl, rfl, rfl⟩, rfl⟩
    | allOf branches =>
      have hmerge (h : Runs (mergeAllOf doc (resolveAt doc fuel) sch branches name) s r s') :
          ∃ t', Runs (mergeAllOf doc (resolveAt doc fuel) sch branches name) t (.of r.type) t' ∧
            t'.registry = t.registry :=
        declared_again ⟨_, rfl⟩ (runs_mergeAllOf (Schema.allOf_of_shape hshape) h) hkeys
      simp only [hshape] at h ⊢
      split at h
      · exact hmerge h
      · exact ih h
      · exact hmerge h
      · simp only [runs_bind, runs_report, runs_pure] at h ⊢
        obtain ⟨_, _, -, rfl, -⟩ := h
        exact ⟨_, ⟨⟨⟩, _, rfl, rfl, rfl⟩, rfl⟩
    | unknown =>
      simp only [hshape, runs_bind, runs_report, runs_pure] at h ⊢
      obtain ⟨_, _, -, rfl, -⟩ := h
      exact ⟨_, ⟨⟨⟩, _, rfl, rfl, rfl⟩, rfl⟩

/-! ## Components -/

/-- A component that owns its name declares nothing and reports nothing. -/
theorem declareComponent_owned (hb : BelongsTo s.registry (ownName sch (Name.identifier key)) sch)
    (hfuel : declaresItself sch.shape = true → 0 < fuel) : Runs (declareComponent doc fuel key sch) s [] s := by
  obtain ⟨rest, hclaims⟩ := declareComponent_claims doc key hfuel
  rw [hclaims]
  exact runs_bind.mpr ⟨false, s, runs_claim_of_belongs hb, runs_pure.mpr ⟨rfl, rfl⟩⟩

/-- Only with fuel a component that declares itself answers. -/
theorem declareComponent_fuel {ds : List Declaration} (h : Runs (declareComponent doc fuel key sch) s ds s')
    (hself : declaresItself sch.shape = true) : 0 < fuel := by
  rcases runs_declareComponent h with ⟨-, r, hr, -⟩ | ⟨hnot, -⟩ | ⟨hnot, -⟩
  · cases fuel with
    | zero => cases hr
    | succ fuel => exact fuel.succ_pos
  · rw [hself] at hnot
    cases hnot
  · rw [hself] at hnot
    cases hnot

end Resolve

open Resolve

/-- What was resolved once is resolved to the same type again, and declares nothing the second
    time. A component that was declared without a collision on its own name is not even reported. -/
theorem resolve_memoized (doc : Document) :
    (∀ fuel sch name s r s', Runs (resolve doc fuel sch name) s r s' →
        ∃ s'', s''.registry = s'.registry ∧
          ∀ more, fuel ≤ more → Runs (resolve doc more sch name) s' (.of r.type) s'') ∧
      ∀ fuel key sch s ds s', Runs (declareComponent doc fuel key sch) s ds s' →
        Uncollided (ownName sch (Name.identifier key)) s s' →
          ∀ more, fuel ≤ more → Runs (declareComponent doc more key sch) s' [] s' := by
  constructor
  · intro fuel sch name s r s' h
    obtain ⟨s'', hagain, hregistry⟩ := resolveAt_again h (List.Subset.refl _)
    refine ⟨s'', hregistry, ?_⟩
    intro more hmore
    exact (resolveAt_extends doc hmore _ _ _).runs hagain
  · intro fuel key sch s ds s' h hnone more hmore
    have hfuel (hself : declaresItself sch.shape = true) : 0 < more :=
      (declareComponent_fuel h hself).trans_le hmore
    exact declareComponent_owned (component_belongs h hnone) hfuel

/-- A pet inside an object. -/
def order : Schema := { Schema.blank with properties := some [("item", pet)] }

def orders : Schema := { Schema.blank with type := some (.single "array"), items := some order }

/-- Somebody else has the name of the object inside. -/
def itemTaken : Session := claimed .start "OrderItem" none

theorem orders_runs : ∃ r s', Runs (resolve twins 4 orders "Orders") .start r s' ∧
    r.type = .array (.named "Order") ∧ r.declarations.map (·.name) = ["Order", "OrderItem"] := by
  have htest : passes (resolve twins 4 orders "Orders") .start (fun r _ =>
      decide (r.type = .array (.named "Order") ∧ r.declarations.map (·.name) = ["Order", "OrderItem"])) = true := by
    decide +kernel
  obtain ⟨r, s', hruns, hpass⟩ := exists_runs_of_passes htest
  exact ⟨r, s', hruns, of_decide_eq_true hpass⟩

theorem order_runs : ∃ ds s', Runs (declareComponent twins 3 "order" order) itemTaken ds s' ∧
    ds.map (·.name) = ["Order"] ∧ s'.diagnostics = [.nameCollision "OrderItem"] := by
  have htest : passes (declareComponent twins 3 "order" order) itemTaken (fun ds s' =>
      decide (ds.map (·.name) = ["Order"] ∧ s'.diagnostics = [.nameCollision "OrderItem"])) = true := by
    decide +kernel
  obtain ⟨ds, s', hruns, hpass⟩ := exists_runs_of_passes htest
  exact ⟨ds, s', hruns, of_decide_eq_true hpass⟩

theorem resolve_memoized_orders :
    (∃ r s' s'', Runs (resolve twins 4 orders "Orders") .start r s' ∧
        r.declarations.map (·.name) = ["Order", "OrderItem"] ∧ s''.registry = s'.registry ∧
        Runs (resolve twins 4 orders "Orders") s' (.of (.array (.named "Order"))) s'') ∧
      ∃ ds s', Runs (declareComponent twins 3 "order" order) itemTaken ds s' ∧ ds.map (·.name) = ["Order"] ∧
        Uncollided (ownName order (Name.identifier "order")) itemTaken s' ∧
        Runs (declareComponent twins 3 "order" order) s' [] s' := by
  constructor
  · obtain ⟨r, s', hruns, htype, hnames⟩ := orders_runs
    obtain ⟨s'', hregistry, hagain⟩ := (resolve_memoized twins).1 _ _ _ _ _ _ hruns
    exact ⟨r, s', s'', hruns, hnames, hregistry, htype ▸ hagain 4 le_rfl⟩
  · obtain ⟨ds, s', hruns, hnames, hdiagnostics⟩ := order_runs
    have hown : ownName order (Name.identifier "order") = "Order" := by cbv
    have hnone : Uncollided (ownName order (Name.identifier "order")) itemTaken s' := by
      rw [hown]
      exact ⟨_, hdiagnostics, by decide⟩
    exact ⟨ds, s', hruns, hnames, hnone, (resolve_memoized twins).2 _ _ _ _ _ _ hruns hnone 3 le_rfl⟩

end ClientGen

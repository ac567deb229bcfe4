import ClientGen.Proofs.Names.Component
import ClientGen.Proofs.Names.Origin

/-
  ClientGen.Proofs.Names.Items — the items of a component that is an array.

  Such a component is an alias under its own name, and items that declare themselves are
  declared under the singular of it. The alias claims its name first. So
  - where the name has a singular of its own, the items are declared under that, and the alias
    is an array of what was built for them;
  - where the name is its own singular (`Status`, `Address`, `Sheep`), the items find it taken by
    the alias: they are not declared at all, and the alias is an array of itself
    (`declareComponent_items`). `plainPlural` is such a component.
-/

namespace ClientGen

namespace Resolve

variable {doc : Document} {fuel : Nat} {s s' : Session} {sch items : Schema} {key name : String}

/-- The shapes that declare a type wherever they stand. -/
def DeclaresAnywhere (sch : Schema) : Prop :=
  (∃ values, sch.shape = .enumeration values) ∨ sch.shape = .object ∨ ∃ branches, sch.shape = .oneOf branches

/-- An array under `name` stands for an array of what was built for its items, under another name. -/
def KeepsItems (name : String) (sch items : Schema) (ds : List Declaration) (s' : Session) : Prop :=
  ∃ d nested, ds = .type (.aliasOf name (.array (.named d.name)) sch.documentation) :: d :: nested ∧
    d.name ≠ name ∧ s'.registry.origin? d.name = some items

theorem DeclaresAnywhere.declaresItself (h : DeclaresAnywhere items) : declaresItself items.shape = true := by
  rcases h with ⟨values, h⟩ | h | ⟨branches, h⟩ <;> rw [h] <;> rfl

theorem DeclaresAnywhere.ne_allOf (h : DeclaresAnywhere items) (branches : List Schema) :
    items.shape ≠ .allOf branches := by
  rcases h with ⟨values, h⟩ | h | ⟨branches, h⟩ <;> rw [h] <;> exact Shape.noConfusion

/-- Enums take the singular, which the name of an item is already. -/
theorem ownName_singular (sch : Schema) (name : String) : ownName sch (Name.singular name) = Name.singular name := by
  unfold ownName
  split
  · exact Name.singular_singular name
  · rfl

/-- An array takes what its items give. -/
theorem runs_array {position : Position} {r : Resolution} (hshape : sch.shape = .array (some items)) :
    Runs (resolveAt doc (fuel + 1) sch name position) s r s' ↔
      ∃ inner, Runs (resolveAt doc fuel items (Name.singular name) (itemPosition position)) s inner s' ∧
        ⟨.array inner.type, inner.declarations⟩ = r := by
  simp only [resolveAt, step, hshape, runs_bind, runs_pure]
  constructor
  · rintro ⟨inner, t, hinner, hr, rfl⟩
    exact ⟨inner, hinner, hr⟩
  · rintro ⟨inner, hinner, hr⟩
    exact ⟨inner, s', hinner, hr, rfl⟩

/-- What items that declare themselves give under a name that is singular. -/
theorem runs_items {r : Resolution} (hitems : DeclaresAnywhere items)
    (h : Runs (resolveAt doc fuel items (Name.singular name) .nested) s r s') :
    (Name.singular name ∉ s.registry.keys ∧ ∃ d nested, r = ⟨.named (Name.singular name), d :: nested⟩ ∧
        d.name = Name.singular name ∧ s'.registry.origin? (Name.singular name) = some items) ∨
      (Name.singular name ∈ s.registry.keys ∧ r = .of (.named (Name.singular name))) := by
  cases fuel with
  | zero => cases h
  | succ fuel =>
    have hdeclared : Declared doc (resolveAt doc fuel) items (ownName items (Name.singular name)) s r s' := by
      rcases hitems with ⟨values, hshape⟩ | hshape | ⟨branches, hshape⟩ <;>
        simp only [resolveAt, step, ownName, hshape] at h ⊢
      · exact runs_enumeration h
      · exact runs_object h
      · exact runs_sumType (Schema.eq_of_shape.2.2.1 _ hshape) h
    rw [ownName_singular] at hdeclared
    cases hdeclared with
    | @fresh d nested t hn hb =>
      obtain ⟨hname, -⟩ := built_emits (resolveAt_emits doc fuel) hb
      exact .inl ⟨hn, d, nested, rfl, hname, declared_origin (resolveAt_growing doc fuel) hb⟩
    | taken htaken => exact .inr ⟨htaken.mem_keys, rfl⟩

/-- A component that is an array resolves its items once the alias has claimed its name. -/
theorem runs_declareComponent_array (hshape : sch.shape = .array (some items)) {ds : List Declaration} :
    Runs (declareComponent doc (fuel + 1) key sch) .start ds s' ↔
      ∃ inner t, Runs (resolveAt doc fuel items (Name.singular (Name.identifier key)) .nested)
          (claimed .start (Name.identifier key) (some sch)) inner t ∧
        ds = .type (.aliasOf (Name.identifier key) (.array inner.type) sch.documentation) :: inner.declarations ∧
        s' = recorded t (.type (.aliasOf (Name.identifier key) (.array inner.type) sch.documentation)) := by
  have hself : declaresItself sch.shape = false := by rw [hshape]; rfl
  constructor
  · intro h
    rcases runs_declareComponent h with ⟨hself', -⟩ | ⟨-, -, r, t, hr, hds, hs⟩ | ⟨-, htaken, -⟩
    · rw [hself] at hself'
      cases hself'
    · obtain ⟨inner, hinner, rfl⟩ := (runs_array hshape).mp hr
      exact ⟨inner, t, hinner, hds, hs⟩
    · cases htaken.mem_keys
  · rintro ⟨inner, t, hinner, rfl, rfl⟩
    simp only [declareComponent, hself, Bool.false_eq_true, if_false]
    have hfree : Name.identifier key ∉ Session.start.registry.keys := List.not_mem_nil
    refine runs_bind.mpr ⟨true, _, runs_claim_of_not_mem hfree, runs_bind.mpr ⟨_, t, (runs_array hshape).mpr
      ⟨inner, hinner, rfl⟩, runs_bind.mpr ⟨_, _, runs_finish.mpr ⟨rfl, rfl⟩, runs_pure.mpr ⟨rfl, rfl⟩⟩⟩⟩

theorem not_keepsItems_singleton (d : Declaration) : ¬ KeepsItems name sch items [d] s' := by
  rintro ⟨own, nested, hds, -⟩
  have hlength := congrArg List.length hds
  simp only [List.length_cons, List.length_nil] at hlength
  omega

/-- Under a name that is its own singular the items find the name of the array taken. -/
theorem runs_declareComponent_of_singular (hshape : sch.shape = .array (some items)) (hitems : DeclaresAnywhere items)
    (hname : Name.singular (Name.identifier key) = Name.identifier key) (doc : Document) (fuel : Nat) :
    ∃ s', Runs (declareComponent doc (fuel + 2) key sch) .start
        [.type (.aliasOf (Name.identifier key) (.array (.named (Name.identifier key))) sch.documentation)] s' ∧
      s'.registry.keys = [Name.identifier key] := by
  obtain ⟨build, hstep⟩ := step_eq_declaring doc (resolveAt doc fuel) (Name.identifier key) .nested
    hitems.declaresItself (.inr hitems.ne_allOf)
  have hown : ownName items (Name.identifier key) = Name.identifier key := by
    rw [← hname, ownName_singular]
  have htaken : Name.identifier key ∈ (claimed .start (Name.identifier key) (some sch)).registry.keys :=
    mem_keys_claimed.mpr (.inl rfl)
  obtain ⟨t, hrun, hregistry⟩ := runs_declaring_of_mem items build htaken
  refine ⟨_, (runs_declareComponent_array hshape).mpr ⟨.of (.named (Name.identifier key)), t, ?_, rfl, rfl⟩, ?_⟩
  · rw [hname, resolveAt, hstep, hown]
    exact hrun
  · rw [keys_recorded, hregistry]
    rfl

theorem mem_keys_claimed_start {k : String} {origin : Option Schema} :
    k ∈ (claimed .start name origin).registry.keys ↔ k = name :=
  mem_keys_claimed.trans (or_iff_left List.not_mem_nil)

/-- Under a name that has a singular the items are declared under that. -/
theorem keepsItems_of_singular_ne (hshape : sch.shape = .array (some items)) (hitems : DeclaresAnywhere items)
    (hne : Name.singular (Name.identifier key) ≠ Name.identifier key) {ds : List Declaration}
    (h : Runs (declareComponent doc (fuel + 1) key sch) .start ds s') :
    KeepsItems (Name.identifier key) sch items ds s' := by
  obtain ⟨inner, t, hinner, rfl, rfl⟩ := (runs_declareComponent_array hshape).mp h
  rcases runs_items hitems hinner with ⟨-, d, nested, rfl, hname, horigin⟩ | ⟨htaken, -⟩
  · refine ⟨d, nested, ?_, ?_, ?_⟩
    · rw [hname]
    · rw [hname]
      exact hne
    · rw [recorded, Registry.origin_record, hname]
      exact horigin
  · exact absurd (mem_keys_claimed_start.mp htaken) hne

/-- Under a name that is its own singular nothing but the alias is declared. -/
theorem declarations_of_singular_eq (hshape : sch.shape = .array (some items)) (hitems : DeclaresAnywhere items)
    (heq : Name.singular (Name.identifier key) = Name.identifier key) {ds : List Declaration}
    (h : Runs (declareComponent doc (fuel + 1) key sch) .start ds s') :
    ds = [.type (.aliasOf (Name.identifier key) (.array (.named (Name.identifier key))) sch.documentation)] := by
  obtain ⟨inner, t, hinner, rfl, rfl⟩ := (runs_declareComponent_array hshape).mp h
  rcases runs_items hitems hinner with ⟨hfree, -⟩ | ⟨-, rfl⟩
  · exact absurd (mem_keys_claimed_start.mpr heq) hfree
  · rw [heq]
    rfl

end Resolve

open Resolve

/-- On a fresh session an array component keeps its items exactly when its name has a singular of
    its own. Otherwise it becomes an array of itself, and nothing else is declared. It is
    declared whenever its items can be resolved. -/
theorem declareComponent_items {sch items : Schema} (hshape : sch.shape = .array (some items))
    (hitems : DeclaresAnywhere items) (doc : Document) (fuel : Nat) (key : String) :
    ((∃ ds s', Runs (declareComponent doc (fuel + 1) key sch) .start ds s') ↔
      ∃ inner t, Runs (resolveAt doc fuel items (Name.singular (Name.identifier key)) .nested)
        (claimed .start (Name.identifier key) (some sch)) inner t) ∧
    ∀ ds s', Runs (declareComponent doc (fuel + 1) key sch) .start ds s' →
      (KeepsItems (Name.identifier key) sch items ds s' ↔
        Name.singular (Name.identifier key) ≠ Name.identifier key) ∧
      (Name.singular (Name.identifier key) = Name.identifier key →
        ds = [.type (.aliasOf (Name.identifier key) (.array (.named (Name.identifier key))) sch.documentation)]) := by
  refine ⟨⟨?_, ?_⟩, fun ds s' h => ?_⟩
  · rintro ⟨ds, s', h⟩
    obtain ⟨inner, t, hinner, -, -⟩ := (runs_declareComponent_array hshape).mp h
    exact ⟨inner, t, hinner⟩
  · rintro ⟨inner, t, hinner⟩
    exact ⟨_, _, (runs_declareComponent_array hshape).mpr ⟨inner, t, hinner, rfl, rfl⟩⟩
  · have hlost := fun heq => declarations_of_singular_eq hshape hitems heq h
    refine ⟨⟨fun hkeeps heq => ?_, fun hne => keepsItems_of_singular_ne hshape hitems hne h⟩, hlost⟩
    rw [hlost heq] at hkeeps
    exact not_keepsItems_singleton _ hkeeps

def entry : Schema := { Schema.blank with properties := some [("text", { Schema.blank with type := some (.single "string") })] }

def entries : Schema := { Schema.blank with type := some (.single "array"), items := some entry }

/-- Two arrays of objects; the name of one is its own singular. -/
def plainPlural : Document :=
  { openapi := "3.0.0", info := ⟨"t", "1", none⟩, servers := [], tags := [], paths := []
    components := ⟨[("Status", entries), ("Tags", entries)], [], [], []⟩ }

theorem declareComponent_items_tags :
    entries.shape = .array (some entry) ∧ DeclaresAnywhere entry ∧
      ∃ ds s', Runs (declareComponent plainPlural 3 "Tags" entries) .start ds s' ∧
        KeepsItems (Name.identifier "Tags") entries entry ds s' := by
  have hshape : entries.shape = .array (some entry) := rfl
  have hitems : DeclaresAnywhere entry := .inr (.inl rfl)
  have hsingular : Name.singular (Name.identifier "Tags") ≠ Name.identifier "Tags" := by
    have htags : Name.identifier "Tags" = "Tags" := by cbv
    rw [htags]
    decide
  obtain ⟨ds, s', hrun⟩ : ∃ ds s', Runs (declareComponent plainPlural 3 "Tags" entries) .start ds s' := ⟨_, _, rfl⟩
  exact ⟨hshape, hitems, ds, s', hrun,
    (((declareComponent_items hshape hitems plainPlural 2 "Tags").2 ds s' hrun).1).mpr hsingular⟩

/-- The items of `Status` are lost: the name that they ask for is that of the array itself. -/
theorem status_array_of_itself :
    entries.shape = .array (some entry) ∧ DeclaresAnywhere entry ∧ Name.identifier "Status" = "Status" ∧
      ∃ s', Runs (declareComponent plainPlural 2 "Status" entries) .start
          [.type (.aliasOf "Status" (.array (.named "Status")) none)] s' ∧
        s'.registry.keys = ["Status"] ∧
        ¬ KeepsItems "Status" entries entry [.type (.aliasOf "Status" (.array (.named "Status")) none)] s' := by
  have hname : Name.identifier "Status" = "Status" := by cbv
  have hsingular : Name.singular (Name.identifier "Status") = Name.identifier "Status" := by
    rw [hname]
    decide
  have hshape : entries.shape = .array (some entry) := rfl
  obtain ⟨s', hrun, hkeys⟩ := runs_declareComponent_of_singular hshape (.inr (.inl rfl)) hsingular plainPlural 0
  rw [hname] at hrun hkeys
  exact ⟨hshape, .inr (.inl rfl), hname, s', hrun, hkeys, not_keepsItems_singleton _⟩

end ClientGen

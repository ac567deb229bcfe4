import ClientGen.Proofs.Names.Payloads

/-
  ClientGen.Proofs.Names.Component — the name that references use for a component, and the name
  that the component claims.

  References look at the enum keyword: an enum takes the singular. Declaring looks at the shape,
  where a reference comes before an enum (`ownName`).
  - Declaring a component begins with one claim, whatever the schema says, and what it declares
    first has the claimed name (`declareComponent_claimsFirst`).
  - So the two names differ exactly for a component that is a reference and an enum at once, and
    whose name has a singular of its own (`reference_claims_iff`). `referringEnum` is one.
-/

namespace ClientGen

namespace Resolve

variable {doc : Document} {fuel : Nat} {s s' : Session} {sch : Schema} {key name other : String}

/-! ## Claiming first -/

/-- The program claims `name` for a schema before anything else, and declares nothing when the
    name is taken. Otherwise what it declares first has that name. -/
structure ClaimsFirst (x : Resolve (List Declaration)) (name : String) (sch : Schema) : Prop where
  claims : ∃ build, x = (do if ← claim name (some sch) then build else return [])
  heads : ∀ {s ds s'}, name ∉ s.registry.keys → Runs x s ds s' → ∃ d nested, ds = d :: nested ∧ d.name = name

theorem ClaimsFirst.runs_of_mem {x : Resolve (List Declaration)} (h : ClaimsFirst x name sch)
    (hn : name ∈ s.registry.keys) : ∃ s', Runs x s [] s' := by
  obtain ⟨build, rfl⟩ := h.claims
  obtain ⟨s', hclaim, -⟩ := runs_claim_of_mem (some sch) hn
  exact ⟨s', runs_bind.mpr ⟨false, s', hclaim, runs_pure.mpr ⟨rfl, rfl⟩⟩⟩

/-- A program claims one name first. -/
theorem ClaimsFirst.unique {x : Resolve (List Declaration)} (h : ClaimsFirst x name sch)
    (h' : ClaimsFirst x other sch) : other = name := by
  -- where only `name` is taken, nothing is declared
  obtain ⟨s', hrun⟩ := h.runs_of_mem (s := claimed .start name none) (mem_keys_claimed.mpr (.inl rfl))
  by_cases hmem : other ∈ (claimed .start name none).registry.keys
  · exact (mem_keys_claimed.mp hmem).resolve_right (by intro hn; cases hn)
  · obtain ⟨d, nested, hds, -⟩ := h'.heads hmem hrun
    cases hds

/-! ## What a component claims -/

theorem declaring_claims (name : String) (sch : Schema) (build : Resolve (Declaration × List Declaration)) :
    ∃ rest, (do return (← declaring name sch build).declarations) =
      (do if ← claim name (some sch) then rest else return []) := by
  refine ⟨do let r ← build; return (← finish r.1) :: r.2, ?_⟩
  simp only [declaring, bind_assoc]
  congr 1
  funext fresh
  cases fresh with
  | true => simp only [if_true, bind_assoc, pure_bind]
  | false => simp [Resolution.of]

theorem object_eq_declaring (resolve : Resolver) (sch : Schema) (name : String) :
    ∃ build, object resolve sch name = declaring name sch build := by
  unfold object freeFormMap
  split <;> exact ⟨_, rfl⟩

/-- A schema that declares itself does so under its own name. Only an `allOf` looks at the position. -/
theorem step_eq_declaring (doc : Document) (resolve : Resolver) (name : String) (position : Position)
    (hself : declaresItself sch.shape = true)
    (hposition : position = .component ∨ ∀ branches, sch.shape ≠ .allOf branches) :
    ∃ build, step doc resolve sch name position = declaring (ownName sch name) sch build := by
  unfold step ownName
  cases hshape : sch.shape with
  | enumeration values => exact ⟨_, rfl⟩
  | object => exact object_eq_declaring resolve sch name
  | oneOf branches => exact ⟨_, rfl⟩
  | allOf branches =>
    obtain rfl := hposition.resolve_right fun hne => hne branches hshape
    exact ⟨_, rfl⟩
  | _ =>
    rw [hshape] at hself
    cases hself

/-- Declaring a component is a claim of its own name and what follows. Without fuel only a schema
    that declares no type of its own gets as far as the claim. -/
theorem declareComponent_claims (doc : Document) (key : String) (hfuel : declaresItself sch.shape = true → 0 < fuel) :
    ∃ rest, declareComponent doc fuel key sch =
      (do if ← claim (ownName sch (Name.identifier key)) (some sch) then rest else return []) := by
  simp only [declareComponent]
  split
  · rename_i hself
    obtain ⟨less, rfl⟩ := Nat.exists_eq_add_one.mpr (hfuel hself)
    obtain ⟨build, hstep⟩ := step_eq_declaring doc (resolveAt doc less) (Name.identifier key) .component hself (.inl rfl)
    rw [resolveAt, hstep]
    exact declaring_claims _ sch build
  · rename_i hself
    rw [ownName_of_not_self (by simpa using hself)]
    exact ⟨_, rfl⟩

theorem declareComponent_heads {ds : List Declaration} (hn : ownName sch (Name.identifier key) ∉ s.registry.keys)
    (h : Runs (declareComponent doc (fuel + 1) key sch) s ds s') :
    ∃ d nested, ds = d :: nested ∧ d.name = ownName sch (Name.identifier key) := by
  rcases runs_declareComponent h with ⟨hself, r, hr, rfl⟩ | ⟨hself, -, r, t, -, rfl, -⟩ | ⟨hself, htaken, -⟩
  · cases runs_component hself hr with
    | @fresh d nested t _ hb => exact ⟨d, nested, rfl, (built_emits (resolveAt_emits doc fuel) hb).1⟩
    | taken htaken => exact absurd htaken.mem_keys hn
  · exact ⟨_, r.declarations, rfl, (ownName_of_not_self hself _).symm⟩
  · rw [ownName_of_not_self hself] at hn
    exact absurd htaken.mem_keys hn

/-- Declaring a component claims its own name first. -/
theorem declareComponent_claimsFirst (doc : Document) (fuel : Nat) (key : String) (sch : Schema) :
    ClaimsFirst (declareComponent doc (fuel + 1) key sch) (ownName sch (Name.identifier key)) sch :=
  ⟨declareComponent_claims doc key fun _ => fuel.succ_pos, declareComponent_heads⟩

/-! ## What references use -/

/-- A reference to a component, by its key. -/
theorem referenceType_component (hget : KeyMap.get? doc.components.schemas key = some sch) (hkey : '/' ∉ key.toList) :
    referenceType doc (schemaRefStart ++ key) = .named (componentTypeName key (some sch)) := by
  have hfound : doc.schemaByRef? (schemaRefStart ++ key) = some sch :=
    Document.schemaByRef?_eq_some_iff.mpr ⟨key, rfl, hget⟩
  rw [referenceType, hfound, @lastSegment_append "#/components/schemas" schemaRefStart key (by decide) hkey]

/-- The two names agree unless the component is a reference with an enum besides. -/
theorem componentTypeName_eq_ownName_iff (key : String) (sch : Schema) :
    componentTypeName key (some sch) = ownName sch (Name.identifier key) ↔
      ¬ (sch.reference.isSome ∧ sch.isEnum ∧ Name.singular (Name.identifier key) ≠ Name.identifier key) := by
  cases href : sch.reference with
  | none => simp [componentTypeName, ownName_eq href]
  | some target =>
    have hself : declaresItself sch.shape = false := by rw [Schema.shape, href]; rfl
    rw [ownName_of_not_self hself, componentTypeName, Option.any_some]
    cases sch.isEnum <;> simp

end Resolve

open Resolve

/-- References to a component stand for the name that the component claims, unless the component
    is itself a reference that also has an enum, and its name has a singular of its own. -/
theorem reference_claims_iff {doc : Document} {key : String} {sch : Schema}
    (hget : KeyMap.get? doc.components.schemas key = some sch) (hkey : '/' ∉ key.toList) (fuel : Nat) :
    (∃ name, referenceType doc (schemaRefStart ++ key) = .named name ∧
        ClaimsFirst (declareComponent doc (fuel + 1) key sch) name sch) ↔
      ¬ (sch.reference.isSome ∧ sch.isEnum ∧ Name.singular (Name.identifier key) ≠ Name.identifier key) := by
  have hclaims := declareComponent_claimsFirst doc fuel key sch
  rw [referenceType_component hget hkey, ← componentTypeName_eq_ownName_iff]
  constructor
  · rintro ⟨name, hname, hfirst⟩
    cases hname
    exact hclaims.unique hfirst
  · intro heq
    exact ⟨_, rfl, heq ▸ hclaims⟩

def reds : Schema := { Schema.blank with enumValues := some [.str "red"] }

def referringReds : Schema := { reds with reference := some "#/components/schemas/Colors" }

/-- An enum, and a reference to it that lists its values as well. -/
def referringEnum : Document :=
  { openapi := "3.1.0", info := ⟨"t", "1", none⟩, servers := [], tags := [], paths := []
    components := ⟨[("Colors", reds), ("Tints", referringReds)], [], [], []⟩ }

theorem reference_claims_iff_colors :
    KeyMap.get? referringEnum.components.schemas "Colors" = some reds ∧ '/' ∉ "Colors".toList ∧
      ∃ name, referenceType referringEnum (schemaRefStart ++ "Colors") = .named name ∧
        ClaimsFirst (declareComponent referringEnum 1 "Colors" reds) name reds := by
  have hget : KeyMap.get? referringEnum.components.schemas "Colors" = some reds := rfl
  have hkey : '/' ∉ "Colors".toList := by decide
  refine ⟨hget, hkey, (reference_claims_iff hget hkey 0).mpr ?_⟩
  rintro ⟨href, -⟩
  cases href

/-- References to an enum that is a reference as well look for its singular, and it is declared
    under its plain name. -/
theorem reference_misses_component :
    KeyMap.get? referringEnum.components.schemas "Tints" = some referringReds ∧ '/' ∉ "Tints".toList ∧
      referenceType referringEnum (schemaRefStart ++ "Tints") = .named "Tint" ∧
      ClaimsFirst (declareComponent referringEnum 1 "Tints" referringReds) "Tints" referringReds ∧
      ¬ ∃ name, referenceType referringEnum (schemaRefStart ++ "Tints") = .named name ∧
        ClaimsFirst (declareComponent referringEnum 1 "Tints" referringReds) name referringReds := by
  have hreference : referenceType referringEnum (schemaRefStart ++ "Tints") = .named "Tint" := by cbv
  have hclaims : ClaimsFirst (declareComponent referringEnum 1 "Tints" referringReds) "Tints" referringReds := by
    have hown : ownName referringReds (Name.identifier "Tints") = "Tints" := by cbv
    exact hown ▸ declareComponent_claimsFirst referringEnum 0 "Tints" referringReds
  refine ⟨rfl, by decide, hreference, hclaims, ?_⟩
  rintro ⟨name, hname, hfirst⟩
  rw [hreference] at hname
  cases hname
  exact absurd (hclaims.unique hfirst) (by decide)

end ClientGen

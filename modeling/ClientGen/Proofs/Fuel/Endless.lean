import ClientGen.Proofs.Fuel.Ends

/-
  ClientGen.Proofs.Fuel.Endless — a component that merges itself below one of its properties.

  The component `N` has a property that holds an object, and that object a property that merges
  `N` with something else. The merge inlines the object again, under the name of the merge, so
  the object and the merge open each other in turn. Every name extends the one before, and no
  name in the registry ever extends the next (`Unextended`): each claim is fresh, and a build
  runs out of any fuel.
-/

namespace ClientGen

open Resolve

def merging : Schema :=
  { Schema.blank with allOf := some [{ Schema.blank with reference := some "#/components/schemas/N" }, .blank] }

def holding : Schema := { Schema.blank with properties := some [("b", merging)] }

def recursive : Schema := { Schema.blank with properties := some [("a", holding)] }

def endless : Document :=
  { openapi := "3.0.0", info := ⟨"t", "1", none⟩, servers := [], tags := [], paths := []
    components := ⟨[("N", recursive)], [], [], []⟩ }

namespace Resolve

variable {resolve : Resolver} {name : String} {s s' : Session}

/-! ## Running out inside -/

theorem declaring_runsOut {sch : Schema} {build : Resolve (Declaration × List Declaration)}
    (hn : name ∉ s.registry.keys) (h : RunsOut build (claimed s name (some sch)) s') :
    RunsOut (declaring name sch build) s s' :=
  runsOut_bind.mpr (.inr ⟨true, _, runs_claim_of_not_mem hn, runsOut_bind.mpr (.inl h)⟩)

theorem structFields_runsOut (key : String) {isRequired : String → Bool} {position : Position} {property : Schema}
    {rest : List (String × Schema)} (h : RunsOut (resolve property (name ++ Name.identifier key) position) s s') :
    RunsOut (structFields resolve isRequired name position ((key, property) :: rest)) s s' :=
  runsOut_bind.mpr (.inl h)

/-- An object runs out where its first property does. -/
theorem object_runsOut (key : String) {sch : Schema} {property : Schema} {rest : List (String × Schema)}
    (hprops : sch.properties = some ((key, property) :: rest)) (hn : name ∉ s.registry.keys)
    (h : RunsOut (resolve property (name ++ Name.identifier key) .nested) (claimed s name (some sch)) s') :
    RunsOut (object resolve sch name) s s' := by
  have hlist : sch.propertyList = (key, property) :: rest := by rw [Schema.propertyList, hprops]; rfl
  have hstruct : ¬ (!sch.hasProperties && sch.allowsAdditional) = true := by simp [Schema.hasProperties, hlist]
  rw [object, if_neg hstruct, hlist]
  exact declaring_runsOut hn (runsOut_bind.mpr (.inl (structFields_runsOut key h)))

/-- The merge inlines the property of the component. -/
theorem merging_runsOut (hn : name ∉ s.registry.keys)
    (h : RunsOut (resolve holding (name ++ "A") .allOfProperty) (claimed s name (some merging)) s') :
    RunsOut (step endless resolve merging name .nested) s s' := by
  have hparts : mergeParts endless merging [{ Schema.blank with reference := some "#/components/schemas/N" }, .blank] =
      [.schema recursive, .schema .blank] := by cbv
  refine declaring_runsOut hn (runsOut_bind.mpr (.inl ?_))
  rw [hparts]
  exact runsOut_bind.mpr (.inl (structFields_runsOut "a" h))

/-! ## Ever longer names -/

/-- No name in the registry is `name` or an extension of it. -/
def Unextended (name : String) (s : Session) : Prop := ∀ k ∈ s.registry.keys, ¬ name.toList <+: k.toList

theorem Unextended.not_mem (h : Unextended name s) : name ∉ s.registry.keys :=
  fun hn => h name hn List.prefix_rfl

theorem Unextended.claimed (h : Unextended name s) (origin : Option Schema) {suffix : String} (hs : suffix ≠ "") :
    Unextended (name ++ suffix) (claimed s name origin) := by
  intro k hk hprefix
  rw [String.toList_append] at hprefix
  rcases mem_keys_claimed.mp hk with rfl | hk
  · have hlen := hprefix.length_le
    rw [List.length_append] at hlen
    have hnil : suffix.toList = [] := List.eq_nil_of_length_eq_zero (by omega)
    exact hs (String.toList_eq_nil_iff.mp hnil)
  · exact h k hk ((List.prefix_append _ _).trans hprefix)

/-- The object and the merge open each other, whatever the fuel. -/
theorem resolveAt_runsOut (fuel : Nat) :
    (∀ name position s, Unextended name s → ∃ s', RunsOut (resolveAt endless fuel holding name position) s s') ∧
      ∀ name s, Unextended name s → ∃ s', RunsOut (resolveAt endless fuel merging name .nested) s s' := by
  induction fuel with
  | zero => exact ⟨fun _ _ s _ => ⟨s, rfl⟩, fun _ s _ => ⟨s, rfl⟩⟩
  | succ fuel ih =>
    refine ⟨fun name position s h => ?_, fun name s h => ?_⟩
    · obtain ⟨s', hout⟩ := ih.2 (name ++ "B") _ (h.claimed (some holding) (by decide))
      exact ⟨s', object_runsOut "b" rfl h.not_mem hout⟩
    · obtain ⟨s', hout⟩ := ih.1 (name ++ "A") .allOfProperty _ (h.claimed (some merging) (by decide))
      exact ⟨s', merging_runsOut h.not_mem hout⟩

theorem resolveAt_recursive_runsOut (fuel : Nat) (h : Unextended "N" s) :
    ∃ s', RunsOut (resolveAt endless fuel recursive "N" .component) s s' := by
  cases fuel with
  | zero => exact ⟨s, rfl⟩
  | succ fuel =>
    obtain ⟨s', hout⟩ := (resolveAt_runsOut fuel).1 ("N" ++ "A") .nested _ (h.claimed (some recursive) (by decide))
    exact ⟨s', object_runsOut "a" rfl h.not_mem hout⟩

end Resolve

theorem build_endless (fuel : Nat) (config : Config) : build fuel endless config = .error .outOfFuel := by
  obtain ⟨ds, t, hhelpers, hkeys⟩ : ∃ ds t, Runs (declareAll calendarHelpers) .start ds t ∧
      t.registry.keys = ["Date", "Time"] := ⟨_, _, rfl, rfl⟩
  have hstart : Unextended "N" t := by
    rw [Unextended, hkeys]
    decide
  obtain ⟨s', hout⟩ := resolveAt_recursive_runsOut fuel hstart
  have hcomponents : RunsOut (declareComponents endless fuel endless.components.schemas) t s' :=
    runsOut_bind.mpr (.inl (runsOut_bind.mpr (.inl hout)))
  exact build_of_runsOut (runsOut_bind.mpr (.inr ⟨ds, t, hhelpers, runsOut_bind.mpr (.inl hcomponents)⟩))

/-- No amount of fuel is enough for a document in which a component merges itself below one of
    its properties. -/
theorem build_never_ends : ¬ Ends endless ⟨"p", "P"⟩ := by
  rintro ⟨fuel, h⟩
  exact h (build_endless fuel _)

end ClientGen

import Mathlib.Logic.Relation
import ClientGen.Proofs.Run.Composed

/-
  ClientGen.Proofs.Run.Growing — what a run can do to its session.

  A run claims free names, records declarations and reports, and nothing else (`Session.Step`).
  `Growing x`: wherever `x` answers, its session has come that way from the one that it started
  in. The primitive steps do and sequences keep it (`growing_compositional`), so it holds of all
  that a build is made of, up to the whole build (`buildModel_growing`).
  What no step takes away a run keeps: the names in the registry (`Session.Grows.mem_keys`) and
  the diagnostics so far (`Session.Grows.diagnostics`).
-/

namespace ClientGen

namespace Session

variable {s s' s'' : Session}

open Resolve in
inductive Step : Session → Session → Prop
  | claim {s : Session} {name : String} (origin : Option Schema) : name ∉ s.registry.keys →
      Step s (claimed s name origin)
  | record {s : Session} (d : Declaration) : Step s (recorded s d)
  | report {s : Session} (ds : List Diagnostic) : Step s { s with diagnostics := s.diagnostics ++ ds }

def Grows : Session → Session → Prop := Relation.ReflTransGen Step

theorem Grows.refl (s : Session) : Grows s s := Relation.ReflTransGen.refl

theorem Grows.trans (h : Grows s s') (h' : Grows s' s'') : Grows s s'' := Relation.ReflTransGen.trans h h'

theorem Step.grows (h : Step s s') : Grows s s' := Relation.ReflTransGen.single h

theorem Step.mem_keys {name : String} (h : Step s s') (hn : name ∈ s.registry.keys) : name ∈ s'.registry.keys := by
  cases h with
  | claim _ _ => exact Resolve.mem_keys_claimed.mpr (.inr hn)
  | record d => rwa [Resolve.keys_recorded]
  | report _ => exact hn

theorem Grows.mem_keys {name : String} (h : Grows s s') (hn : name ∈ s.registry.keys) : name ∈ s'.registry.keys := by
  induction h with
  | refl => exact hn
  | tail _ hstep ih => exact hstep.mem_keys ih

theorem Step.diagnostics (h : Step s s') : s.diagnostics <+: s'.diagnostics := by
  cases h with
  | claim _ _ => exact List.prefix_rfl
  | record _ => exact List.prefix_rfl
  | report ds => exact List.prefix_append _ _

theorem Grows.diagnostics (h : Grows s s') : s.diagnostics <+: s'.diagnostics := by
  induction h with
  | refl => exact List.prefix_rfl
  | tail _ hstep ih => exact ih.trans hstep.diagnostics

end Session

namespace Resolve

variable {α β : Type}

def Growing (x : Resolve α) : Prop := ∀ ⦃s a s'⦄, Runs x s a s' → s.Grows s'

theorem growing_compositional : Compositional Growing where
  answer a := by
    intro s b s' h
    rw [runs_pure] at h
    exact h.2 ▸ .refl s
  sequence := by
    intro α β x f h hf s b s' hruns
    obtain ⟨a, t, hx, hfa⟩ := runs_bind.mp hruns
    exact (h hx).trans (hf a hfa)
  session := by
    intro s a s' h
    rw [runs_get] at h
    exact h.2 ▸ .refl s
  reports ds := by
    intro s a s' h
    rw [runs_reportAll] at h
    exact h ▸ (Session.Step.report ds).grows
  claims name origin := by
    intro s fresh s' h
    rcases runs_claim h with ⟨-, hfree, rfl⟩ | ⟨-, htaken⟩
    · exact (Session.Step.claim origin hfree).grows
    · cases htaken with
      | reuse _ _ => exact .refl s
      | collision _ _ => exact (Session.Step.report _).grows
  records d := by
    intro s e s' h
    rw [runs_finish] at h
    exact h.2 ▸ (Session.Step.record d).grows
  runsOut := by
    intro α s a s' h
    cases h

def GrowingAll (resolve : Resolver) : Prop := ∀ sch name position, Growing (resolve sch name position)

variable {doc : Document} {resolve : Resolver} {fuel : Nat}

theorem resolveAt_growing (doc : Document) (fuel : Nat) : GrowingAll (resolveAt doc fuel) :=
  growing_compositional.resolveAt doc fuel

/-- A refusal does not answer. -/
theorem refusal_growing (operation key : String) :
    Growing (throw (.invalidStatus operation key) : Resolve α) := by
  intro s a s' h
  cases h

theorem buildModel_growing (config : Config) : Growing (buildModel doc config fuel) :=
  growing_compositional.buildModel refusal_growing config

end Resolve

end ClientGen

import Mathlib.Logic.Basic
import ClientGen.Proofs.Run.Composed

/-
  ClientGen.Proofs.Run.Alike — resolving does not look at diagnostics, nor at who claimed a name.

  Two sessions are alike if their registries have the same names, with the same scalars and alias
  targets (`Session.Alike`). From sessions that are alike a schema resolves to the same answer, and
  the sessions are alike again (`resolveAt_answersAlike`). So two computations give the same answers
  if they differ only in what they report and in the schemas that they claim names for
  (`SameAnswers`); sequences keep this (`SameAnswers.bind`).
-/

namespace ClientGen

/-- What a registry knows about the type of a name. -/
def RegistryEntry.meaning (e : RegistryEntry) : Option Scalar × Option TypeRef := (e.scalar, e.aliasOf)

namespace Session

variable {s t u : Session}

/-- The same names with the same meaning. Their origins and what was reported may differ. -/
def Alike (s t : Session) : Prop :=
  ∀ name, (KeyMap.get? s.registry name).map (·.meaning) = (KeyMap.get? t.registry name).map (·.meaning)

namespace Alike

theorem refl (s : Session) : Alike s s := fun _ => rfl

theorem trans (h : Alike s t) (h' : Alike t u) : Alike s u := fun name => (h name).trans (h' name)

theorem of_registry (h : s.registry = t.registry) : Alike s t := fun _ => by rw [h]

theorem mem_keys_iff (h : Alike s t) {name : String} : name ∈ s.registry.keys ↔ name ∈ t.registry.keys := by
  have hnone : KeyMap.get? s.registry name = none ↔ KeyMap.get? t.registry name = none := by
    rw [← Option.map_eq_none_iff (f := RegistryEntry.meaning), h name, Option.map_eq_none_iff]
  rw [← not_iff_not, ← KeyMap.get?_eq_none_iff, ← KeyMap.get?_eq_none_iff]
  exact hnone

open Resolve in
theorem claimed (h : Alike s t) (name : String) (origin origin' : Option Schema) :
    Alike (claimed s name origin) (claimed t name origin') := by
  intro k
  by_cases hk : k = name
  · rw [hk, Resolve.claimed, Resolve.claimed, KeyMap.get?_insert_self, KeyMap.get?_insert_self]
    rfl
  · rw [Resolve.claimed, Resolve.claimed, KeyMap.get?_insert_of_ne hk, KeyMap.get?_insert_of_ne hk]
    exact h k

open Resolve in
theorem recorded (h : Alike s t) (d : Declaration) : Alike (recorded s d) (recorded t d) := by
  have hrecorded {e e' : RegistryEntry} (he : e.meaning = e'.meaning) :
      (Registry.recorded d e).meaning = (Registry.recorded d e').meaning := by
    obtain ⟨hscalar, hof⟩ := Prod.mk.inj he
    unfold Registry.recorded
    split <;> simp [RegistryEntry.meaning, hscalar, hof]
  intro k
  rw [Resolve.recorded, Resolve.recorded, Registry.record, Registry.record, KeyMap.get?_modify, KeyMap.get?_modify]
  have hk := h k
  split
  · cases hs : KeyMap.get? s.registry k with
    | none =>
      rw [hs] at hk
      rw [Option.map_eq_none_iff.mp hk.symm]
    | some e =>
      rw [hs] at hk
      obtain ⟨e', ht, he⟩ := Option.map_eq_some_iff.mp hk.symm
      rw [ht]
      exact congrArg some (hrecorded he.symm)
  · exact hk

end Alike

end Session

namespace Resolve

variable {α β : Type}

/-- Whatever `x` answers, `y` answers too, and from sessions that are alike they lead to such again. -/
def AnswersAlike (x y : Resolve α) : Prop :=
  ∀ ⦃s t⦄, s.Alike t → ∀ ⦃a s'⦄, Runs x s a s' → ∃ t', Runs y t a t' ∧ s'.Alike t'

theorem AnswersAlike.trans {x y z : Resolve α} (h : AnswersAlike x y) (h' : AnswersAlike y z) : AnswersAlike x z := by
  intro s t hst a s' hx
  obtain ⟨t', hy, hs'⟩ := h hst hx
  obtain ⟨u', hz, ht'⟩ := h' (.refl t) hy
  exact ⟨u', hz, hs'.trans ht'⟩

theorem AnswersAlike.bind {x y : Resolve α} {f g : α → Resolve β} (h : AnswersAlike x y)
    (hf : ∀ a, AnswersAlike (f a) (g a)) : AnswersAlike (x >>= f) (y >>= g) := by
  intro s t hst b s'' hx
  obtain ⟨a, s', hx, hfa⟩ := runs_bind.mp hx
  obtain ⟨t', hy, hs't'⟩ := h hst hx
  obtain ⟨t'', hga, hs''⟩ := hf a hs't' hfa
  exact ⟨t'', runs_bind.mpr ⟨a, t', hy, hga⟩, hs''⟩

theorem answersAlike_claim (name : String) (origin origin' : Option Schema) :
    AnswersAlike (claim name origin) (claim name origin') := by
  intro s t hst fresh s' h
  rcases runs_claim h with ⟨rfl, hfree, rfl⟩ | ⟨rfl, htaken⟩
  · exact ⟨_, runs_claim_of_not_mem (fun hmem => hfree (hst.mem_keys_iff.mpr hmem)), hst.claimed _ _ _⟩
  · obtain ⟨t', hclaim, hregistry⟩ := runs_claim_of_mem origin' (hst.mem_keys_iff.mp htaken.mem_keys)
    exact ⟨t', hclaim, ((Session.Alike.of_registry htaken.registry_eq).trans hst).trans (.of_registry hregistry.symm)⟩

theorem stepwise_answersAlike : Stepwise fun x => AnswersAlike x x where
  answer a := by
    intro s t hst b s' h
    obtain ⟨rfl, rfl⟩ := runs_pure.mp h
    exact ⟨t, runs_pure.mpr ⟨rfl, rfl⟩, hst⟩
  sequence := AnswersAlike.bind
  reports ds := by
    intro s t hst u s' h
    obtain rfl := runs_reportAll.mp h
    exact ⟨_, runs_reportAll.mpr rfl, hst⟩
  claims name origin := answersAlike_claim name origin origin
  records d := by
    intro s t hst e s' h
    obtain ⟨rfl, rfl⟩ := runs_finish.mp h
    exact ⟨_, runs_finish.mpr ⟨rfl, rfl⟩, hst.recorded _⟩
  runsOut := by
    intro α s t hst a s' h
    cases h

theorem resolveAt_answersAlike (doc : Document) (fuel : Nat) (sch : Schema) (name : String) (position : Position) :
    AnswersAlike (resolveAt doc fuel sch name position) (resolveAt doc fuel sch name position) :=
  stepwise_answersAlike.resolveAt doc fuel sch name position

/-! ## The same answers -/

/-- The two computations give the same answers, and leave sessions behind that are alike. -/
def SameAnswers (x y : Resolve α) : Prop := AnswersAlike x y ∧ AnswersAlike y x

namespace SameAnswers

variable {x y z : Resolve α} {f g : α → Resolve β}

theorem of_answersAlike (h : AnswersAlike x x) : SameAnswers x x := ⟨h, h⟩

theorem symm (h : SameAnswers x y) : SameAnswers y x := ⟨h.2, h.1⟩

theorem trans (h : SameAnswers x y) (h' : SameAnswers y z) : SameAnswers x z := ⟨h.1.trans h'.1, h'.2.trans h.2⟩

theorem pure (a : α) : SameAnswers (pure a) (pure a) := .of_answersAlike (stepwise_answersAlike.answer a)

theorem bind (h : SameAnswers x y) (hf : ∀ a, SameAnswers (f a) (g a)) : SameAnswers (x >>= f) (y >>= g) :=
  ⟨h.1.bind fun a => (hf a).1, h.2.bind fun a => (hf a).2⟩

/-- Reporting first changes no answer. -/
theorem report (h : SameAnswers x y) (d : Diagnostic) : SameAnswers (do Resolve.report d; x) y := by
  constructor
  · intro s t hst a s' hx
    simp only [runs_bind, runs_report] at hx
    obtain ⟨-, _, rfl, hx⟩ := hx
    exact h.1 (s := { s with diagnostics := s.diagnostics ++ [d] }) hst hx
  · intro s t hst a s' hy
    obtain ⟨t', hx, hs'⟩ := h.2 (t := { t with diagnostics := t.diagnostics ++ [d] }) hst hy
    exact ⟨t', runs_bind.mpr ⟨⟨⟩, _, runs_report.mpr rfl, hx⟩, hs'⟩

/-- Whichever schema the name is claimed for, what is built decides. -/
theorem declaring {build build' : Resolve (Declaration × List Declaration)} (h : SameAnswers build build')
    (name : String) (sch sch' : Schema) :
    SameAnswers (Resolve.declaring name sch build) (Resolve.declaring name sch' build') := by
  have hclaim : SameAnswers (claim name (some sch)) (claim name (some sch')) :=
    ⟨answersAlike_claim name _ _, answersAlike_claim name _ _⟩
  refine hclaim.bind fun fresh => ?_
  cases fresh with
  | true => exact h.bind fun _ => .bind (.of_answersAlike (stepwise_answersAlike.records _)) fun _ => .pure _
  | false => exact .pure _

end SameAnswers

end Resolve

end ClientGen

import Mathlib
import ClientGen.Proofs.Fuel.Bound
import ClientGen.Proofs.Fuel.Extend
import ClientGen.Proofs.Fuel.Started

/-
  ClientGen.Proofs.Fuel.Ends — which builds end.

  A build ends when some fuel is enough for it; more fuel then changes nothing (`build_stable`).
  - It ends exactly when it claims finitely many names: what can go on without end is only
    naming new types. Between two names schemas get smaller (`ends_of_names_le`).
  - It ends when no chain of opened schemas is endless (`ends_of_acc`). `selfMerged` has a
    reference cycle and no such chain: within one merge every reference counts once.
-/

namespace ClientGen

open Resolve

variable {doc : Document} {config : Config} {fuel more : Nat}

/-! ## Where a build stops -/

/-- The session in which a build stops, with an answer or without. -/
def stopped (doc : Document) (config : Config) (fuel : Nat) : Session :=
  match buildModel doc config fuel .start with
  | .ok _ s => s
  | .error _ s => s

def Ends (doc : Document) (config : Config) : Prop := ∃ fuel, build fuel doc config ≠ .error .outOfFuel

theorem runsOut_of_build (h : build fuel doc config = .error .outOfFuel) :
    RunsOut (buildModel doc config fuel) .start (stopped doc config fuel) := by
  cases hrun : buildModel doc config fuel .start with
  | ok model s' =>
    have hbuild : build fuel doc config = .ok (model, s'.diagnostics) := by rw [build, EStateM.run, hrun]
    rw [hbuild] at h
    cases h
  | error e s' =>
    have hbuild : build fuel doc config = .error e := by rw [build, EStateM.run, hrun]
    have hstopped : stopped doc config fuel = s' := by rw [stopped, hrun]
    rw [hbuild] at h
    cases h
    rw [hstopped]
    exact hrun

theorem build_of_runsOut {s' : Session} (h : RunsOut (buildModel doc config fuel) .start s') :
    build fuel doc config = .error .outOfFuel := by
  unfold build EStateM.run
  rw [show buildModel doc config fuel .start = _ from h]

theorem buildModel_stable (h : build fuel doc config ≠ .error .outOfFuel) (hle : fuel ≤ more) :
    buildModel doc config more .start = buildModel doc config fuel .start := by
  rcases buildModel_extends hle config .start with ⟨s', hout⟩ | heq
  · exact absurd (build_of_runsOut hout) h
  · exact heq

/-- A build that did not run out of fuel is the build for every larger fuel. -/
theorem build_stable (h : build fuel doc config ≠ .error .outOfFuel) (hle : fuel ≤ more) :
    build more doc config = build fuel doc config := by
  unfold build EStateM.run
  rw [buildModel_stable h hle]

theorem stopped_stable (h : build fuel doc config ≠ .error .outOfFuel) (hle : fuel ≤ more) :
    stopped doc config more = stopped doc config fuel := by
  unfold stopped
  rw [buildModel_stable h hle]

/-! ## What ends -/

theorem ends_of_names_le {bound : Nat} (h : ∀ fuel, names (stopped doc config fuel) ≤ bound) : Ends doc config := by
  obtain ⟨largest, hlargest⟩ := exists_common_bound (P := fun s n => sizeOf s ≤ n) (fun hle h => Nat.le_trans h hle)
    (doc.components.schemas.map (·.2) ++ (started doc).map (·.1)) fun s _ => ⟨sizeOf s, Nat.le_refl _⟩
  refine ⟨bound * (largest + 1) + largest + 1, fun hout => ?_⟩
  have hout := runsOut_of_build hout
  have hnames := h (bound * (largest + 1) + largest + 1)
  obtain ⟨c, hc, name, t, hout⟩ := runsOut_buildModel hout
  have hcs : sizeOf c.1 ≤ largest := hlargest c.1 (List.mem_append_right _ (List.mem_map_of_mem hc))
  have hused := fuel_le (fun e he => hlargest e.2 (List.mem_append_left _ (List.mem_map_of_mem he))) hcs hout
  have hpaid := Nat.mul_le_mul_right (largest + 1) hnames
  omega

theorem names_le_of_ends (h : Ends doc config) : ∃ bound, ∀ fuel, names (stopped doc config fuel) ≤ bound := by
  obtain ⟨enough, henough⟩ := h
  obtain ⟨bound, hbound⟩ := exists_common_bound (P := fun fuel n => names (stopped doc config fuel) ≤ n)
    (fun hle h => Nat.le_trans h hle) (List.range (enough + 1)) fun fuel _ => ⟨_, Nat.le_refl _⟩
  refine ⟨bound, fun fuel => ?_⟩
  rcases Nat.le_total fuel enough with hle | hle
  · exact hbound fuel (List.mem_range.mpr (by omega))
  · rw [stopped_stable henough hle]
    exact hbound enough (List.mem_range.mpr (by omega))

theorem ends_of_acc (h : ∀ c ∈ started doc, Acc (Opens doc) c) : Ends doc config := by
  obtain ⟨bound, hbound⟩ := exists_common_bound (P := FuelBounded doc) FuelBounded.mono (started doc)
    fun c hc => exists_bound_of_acc (h c hc)
  refine ⟨bound + 1, fun hout => ?_⟩
  obtain ⟨c, hc, name, t, hout⟩ := runsOut_buildModel (runsOut_of_build hout)
  have := hbound c hc hout
  omega

/-- A build ends exactly when the names that it claims are bounded, however much fuel it gets.
    Without an endless chain of schemas, each opened by the one before, it always ends. -/
theorem build_ends_iff (doc : Document) (config : Config) :
    (Ends doc config ↔ ∃ bound, ∀ fuel, names (stopped doc config fuel) ≤ bound) ∧
      ((∀ c ∈ started doc, Acc (Opens doc) c) → Ends doc config) := by
  refine ⟨⟨names_le_of_ends, ?_⟩, ends_of_acc⟩
  rintro ⟨bound, hbound⟩
  exact ends_of_names_le hbound

/-! ## A component that merges itself -/

def textual : Schema := { Schema.blank with type := some (.single "string") }

def selfMerging : Schema :=
  { Schema.blank with
    allOf := some [{ Schema.blank with reference := some "#/components/schemas/N" },
      { Schema.blank with properties := some [("x", textual)] }] }

def selfMerged : Document :=
  { openapi := "3.0.0", info := ⟨"t", "1", none⟩, servers := [], tags := [], paths := []
    components := ⟨[("N", selfMerging)], [], [], []⟩ }

theorem acc_selfMerged : ∀ c ∈ started selfMerged, Acc (Opens selfMerged) c := by
  have htextual : Acc (Opens selfMerged) (textual, .allOfProperty) := ⟨_, fun c hc => by cases hc⟩
  have hopened : opened selfMerged selfMerging .component = List.replicate 2 (textual, .allOfProperty) := by cbv
  intro c hc
  cases List.mem_singleton.mp (show c ∈ [(selfMerging, .component)] from hc)
  refine ⟨_, fun c' hc' => ?_⟩
  rw [Opens, hopened] at hc'
  exact List.eq_of_mem_replicate hc' ▸ htextual

theorem build_ends_iff_selfMerged :
    (∀ c ∈ started selfMerged, Acc (Opens selfMerged) c) ∧ Ends selfMerged ⟨"p", "P"⟩ :=
  ⟨acc_selfMerged, (build_ends_iff selfMerged ⟨"p", "P"⟩).2 acc_selfMerged⟩

end ClientGen

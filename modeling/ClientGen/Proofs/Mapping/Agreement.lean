import ClientGen.Proofs.Run.Basic
import ClientGen.Resolve.Schema

/-
  ClientGen.Proofs.Mapping.Agreement — resolving and mapping agree where nothing is declared.

  The type of a schema is found in two ways: `resolve` declares on the way what has no type yet,
  `mapType` declares nothing. References, primitives, `anyOf` and unknown types need no declaration,
  and neither does an array or a single branch around such a schema (`Undeclared`). On these
  both go down the schema in step: the same type, and the same findings in the same order
  (`resolveAt_agrees`, by induction on why nothing has to be declared).
  - What they report differs in the subject only: `resolve` names it after the items on the way.
  - `resolve` leaves the registry alone and always answers, with fuel for the depth of the schema.
-/

namespace ClientGen

/-- What a diagnostic says, apart from what it is about. -/
def Diagnostic.finding (d : Diagnostic) : DiagnosticKind × String := (d.kind, d.message)

/-- Schemas that have a type without a declaration of their own or of anything inside. -/
inductive Schema.Undeclared : Schema → Prop
  | reference {s : Schema} {target : String} : s.shape = .reference target → Undeclared s
  | primitive {s : Schema} {p : Primitive} : s.shape = .primitive p → Undeclared s
  | untyped {s : Schema} : s.shape = .array none → Undeclared s
  | array {s items : Schema} : s.shape = .array (some items) → Undeclared items → Undeclared s
  | anyOf {s : Schema} {branches : List Schema} : s.shape = .anyOf branches → Undeclared s
  | unknown {s : Schema} : s.shape = .unknown → Undeclared s
  | only {s branch : Schema} : s.shape = .allOf [branch] → Undeclared branch → Undeclared s

/-! ## Mapping, shape by shape -/

section Shapes

variable {doc : Document} {subject target : String} {s items branch value : Schema} {p : Primitive}
  {branches : List Schema}

theorem mapType_of_reference (h : s.shape = .reference target) :
    mapType doc subject s = (referenceType doc target, []) := by
  rw [mapType]
  split <;> simp_all

theorem mapType_of_primitive (h : s.shape = .primitive p) : mapType doc subject s = (scalarType p s.format, []) := by
  rw [mapType]
  split <;> simp_all

theorem mapType_of_untyped (h : s.shape = .array none) : mapType doc subject s = (.array .any, []) := by
  rw [mapType]
  split <;> simp_all

theorem mapType_of_array (h : s.shape = .array (some items)) :
    mapType doc subject s = (.array (mapType doc subject items).1, (mapType doc subject items).2) := by
  rw [mapType]
  split <;> simp_all

theorem mapType_of_value (h : s.shape = .object) (hprops : s.hasProperties = false)
    (hvalue : s.additionalSchema = some value) :
    mapType doc subject s = (.map (mapType doc subject value).1, (mapType doc subject value).2) := by
  rw [mapType]
  split <;> simp_all
  split <;> simp_all

theorem mapType_of_anyOf (h : s.shape = .anyOf branches) :
    mapType doc subject s = (.any, [.unsupportedAnyOf subject]) := by
  rw [mapType]
  split <;> simp_all

theorem mapType_of_unknown (h : s.shape = .unknown) :
    mapType doc subject s = (.any, [.unknownType subject s.primaryType]) := by
  rw [mapType]
  split <;> simp_all

theorem mapType_of_only (h : s.shape = .allOf [branch]) : mapType doc subject s = mapType doc subject branch := by
  rw [mapType]
  split <;> simp_all

end Shapes

namespace Resolve

variable {doc : Document} {resolve : Resolver} {sch branch items : Schema} {name subject : String} {position : Position}
  {r : Resolution} {s s' : Session}

/-! ## Resolving in step -/

theorem step_of_array (h : sch.shape = .array (some items)) :
    step doc resolve sch name position = do
      let r ← resolve items (Name.singular name) (itemPosition position)
      return ⟨.array r.type, r.declarations⟩ := by
  rw [step, h]

/-- Outside a component a single branch stands for the whole. -/
theorem step_of_only (h : sch.shape = .allOf [branch]) (hposition : position ≠ .component) :
    step doc resolve sch name position = resolve branch name position := by
  rw [step, h]
  cases position with
  | component => exact absurd rfl hposition
  | nested => rfl
  | allOfProperty => rfl

theorem itemPosition_ne_component (position : Position) : itemPosition position ≠ .component := by
  cases position <;> decide

/-- An answer that declares nothing: type and findings are those of the mapping, and the registry
    stays as it is. -/
def Agrees (doc : Document) (subject : String) (sch : Schema) (x : Resolve Resolution) : Prop :=
  ∀ s, ∃ ds, Runs x s (.of (ClientGen.mapType doc subject sch).1) { s with diagnostics := s.diagnostics ++ ds } ∧
    ds.map (·.finding) = (ClientGen.mapType doc subject sch).2.map (·.finding)

theorem agrees_of_silent {t : TypeRef} (h : ClientGen.mapType doc subject sch = (t, [])) :
    Agrees doc subject sch (pure (.of t)) := by
  intro s
  rw [h]
  exact ⟨[], runs_pure.mpr ⟨rfl, by rw [List.append_nil]⟩, rfl⟩

theorem agrees_of_report {d d' : Diagnostic} {t : TypeRef} (h : ClientGen.mapType doc subject sch = (t, [d']))
    (hd : d.finding = d'.finding) : Agrees doc subject sch (do report d; return .of t) := by
  intro s
  rw [h]
  refine ⟨[d], runs_bind.mpr ⟨(), _, runs_report.mpr rfl, runs_pure.mpr ⟨rfl, rfl⟩⟩, ?_⟩
  rw [List.map_singleton, List.map_singleton, hd]

theorem Agrees.array {x : Resolve Resolution} (h : Agrees doc subject items x) (hshape : sch.shape = .array (some items)) :
    Agrees doc subject sch (do let r ← x; return ⟨.array r.type, r.declarations⟩) := by
  intro s
  obtain ⟨ds, hrun, hds⟩ := h s
  rw [mapType_of_array hshape]
  exact ⟨ds, runs_bind.mpr ⟨_, _, hrun, runs_pure.mpr ⟨rfl, rfl⟩⟩, hds⟩

theorem Agrees.only {x : Resolve Resolution} (h : Agrees doc subject branch x) (hshape : sch.shape = .allOf [branch]) :
    Agrees doc subject sch x := by
  intro s
  rw [mapType_of_only hshape]
  exact h s

/-- A resolver agrees with the mapping on a schema, whatever it is named after and reported about. -/
def AgreesOn (doc : Document) (sch : Schema) (resolve : Resolver) : Prop :=
  ∀ name subject position, position ≠ .component → Agrees doc subject sch (resolve sch name position)

/-- One step of the resolver takes one more fuel. -/
theorem agreesOn_succ (enough : Nat) (h : ∀ fuel, enough ≤ fuel → AgreesOn doc sch (step doc (resolveAt doc fuel))) :
    ∃ enough, ∀ fuel, enough ≤ fuel → AgreesOn doc sch (resolveAt doc fuel) := by
  refine ⟨enough + 1, fun fuel hfuel => ?_⟩
  obtain ⟨fuel, rfl⟩ : ∃ n, fuel = n + 1 := ⟨fuel - 1, by omega⟩
  exact h fuel (by omega)

/-- With fuel for the depth of the schema, resolving goes down in step with the mapping. -/
theorem resolveAt_agrees (doc : Document) (h : sch.Undeclared) :
    ∃ enough, ∀ fuel, enough ≤ fuel → AgreesOn doc sch (resolveAt doc fuel) := by
  induction h with
  | reference hshape =>
    refine agreesOn_succ 0 fun fuel _ name subject position _ => ?_
    rw [step, hshape]
    exact agrees_of_silent (mapType_of_reference hshape)
  | primitive hshape =>
    refine agreesOn_succ 0 fun fuel _ name subject position _ => ?_
    rw [step, hshape]
    exact agrees_of_silent (mapType_of_primitive hshape)
  | untyped hshape =>
    refine agreesOn_succ 0 fun fuel _ name subject position _ => ?_
    rw [step, hshape]
    exact agrees_of_silent (mapType_of_untyped hshape)
  | anyOf hshape =>
    refine agreesOn_succ 0 fun fuel _ name subject position _ => ?_
    rw [step, hshape]
    exact agrees_of_report (mapType_of_anyOf hshape) rfl
  | unknown hshape =>
    refine agreesOn_succ 0 fun fuel _ name subject position _ => ?_
    rw [step, hshape]
    exact agrees_of_report (mapType_of_unknown hshape) rfl
  | array hshape _ ih =>
    obtain ⟨enough, hinner⟩ := ih
    refine agreesOn_succ enough fun fuel hfuel name subject position _ => ?_
    rw [step_of_array hshape]
    exact (hinner fuel hfuel _ subject _ (itemPosition_ne_component position)).array hshape
  | only hshape _ ih =>
    obtain ⟨enough, hinner⟩ := ih
    refine agreesOn_succ enough fun fuel hfuel name subject position hposition => ?_
    rw [step_of_only hshape hposition]
    exact (hinner fuel hfuel name subject position hposition).only hshape

end Resolve

open Resolve

/-- Where nothing has to be declared, resolving answers in every session with the type that mapping
    gives. It declares nothing, leaves the registry as it is and reports what mapping reports. -/
theorem resolve_eq_mapType (doc : Document) {sch : Schema} (h : sch.Undeclared) :
    ∃ enough, ∀ fuel, enough ≤ fuel → ∀ name subject s, ∃ r s',
      Runs (resolve doc fuel sch name) s r s' ∧ r.declarations = [] ∧ s'.registry = s.registry ∧
        r.type = (mapType doc subject sch).1 ∧
        ∃ reports, s'.diagnostics = s.diagnostics ++ reports ∧
          reports.map (·.finding) = (mapType doc subject sch).2.map (·.finding) := by
  obtain ⟨enough, hagrees⟩ := resolveAt_agrees doc h
  refine ⟨enough, fun fuel hfuel name subject s => ?_⟩
  obtain ⟨reports, hrun, hreports⟩ := hagrees fuel hfuel name subject .nested (by decide) s
  exact ⟨_, _, hrun, rfl, rfl, rfl, reports, rfl, hreports⟩

/-- Uploads, in a list inside a single branch inside a list. -/
def uploads : Schema :=
  { Schema.blank with
    type := some (.single "array")
    items := some { Schema.blank with
      allOf := some [{ Schema.blank with items := some { Schema.blank with type := some (.single "file") } }] } }

def noComponents : Document :=
  { openapi := "3.1.0", info := ⟨"Uploads", "1", none⟩, servers := [], tags := [], paths := []
    components := ⟨[], [], [], []⟩ }

theorem resolve_eq_mapType_uploads :
    uploads.Undeclared ∧
      ∃ enough, ∀ fuel, enough ≤ fuel → ∃ s', Runs (resolve noComponents fuel uploads "Uploads") .start
        (.of (.array (.array .any))) s' ∧
        s'.diagnostics.map (·.finding) = [(Diagnostic.unknownType "query" (some "file")).finding] := by
  have huploads : uploads.Undeclared := .array rfl (.only rfl (.array rfl (.unknown rfl)))
  have hmap : mapType noComponents "query" uploads = (.array (.array .any), [.unknownType "query" (some "file")]) := by
    rw [mapType_of_array rfl, mapType_of_only rfl, mapType_of_array rfl, mapType_of_unknown rfl]
    rfl
  obtain ⟨enough, hagrees⟩ := resolve_eq_mapType noComponents huploads
  refine ⟨huploads, enough, fun fuel hfuel => ?_⟩
  obtain ⟨⟨t, ds⟩, s', hrun, rfl, -, htype, reports, hreports, hfindings⟩ := hagrees fuel hfuel "Uploads" "query" .start
  rw [hmap] at htype hfindings
  obtain rfl := htype
  exact ⟨s', hrun, hreports ▸ hfindings⟩

end ClientGen

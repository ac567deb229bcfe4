import ClientGen.Go.Identifier
import ClientGen.Proofs.Names.Extended
import ClientGen.Proofs.Names.Identifiers

/-
  ClientGen.Proofs.Names.Start — how identifiers begin.

  An identifier is never empty. It begins with an alphabetic character, as the arguments of generated
  methods do, unless its text has no sign in front and the first alphanumeric character is a digit
  beyond ASCII. There is no guard for such a digit, so it stays in front
  (`identifier_of_not_guarded`). Fields and components are named by identifiers, so their keys
  decide how they begin (`identifier_begins_iff`).
-/

namespace ClientGen

open Unicode

namespace Name

theorem identifier_ne_empty (s : String) : identifier s ≠ "" := by
  obtain ⟨c, rest, hs, -⟩ := identifier_head s
  intro hempty
  rw [hempty] at hs
  cases hs

/-- An identifier has no underscore, so beginning with one does not count. -/
theorem startsIdentifier_identifier (s : String) :
    Go.startsIdentifier (identifier s) = true ↔ Lettered (identifier s) := by
  have hmark : Separates '_' := by decide
  have hlacks : '_' ∉ (identifier s).toList := lacks_identifier hmark s
  obtain ⟨c, rest, hs, -⟩ := identifier_head s
  have hne : c ≠ '_' := by
    rintro rfl
    rw [hs] at hlacks
    exact hlacks List.mem_cons_self
  simp [Go.startsIdentifier, Lettered, hs, hne]

end Name

open Name Resolve

theorem lettered_componentTypeName_iff (key : String) (sch : Option Schema) :
    Lettered (componentTypeName key sch) ↔ Guarded key := by
  unfold componentTypeName
  split
  · exact (lettered_singular_iff _).trans (lettered_identifier_iff key)
  · exact lettered_identifier_iff key

/-- An identifier is never empty, and begins with a letter exactly if its text is guarded; else it begins with
    a digit beyond ASCII. So it is with the fields and the components that are named by the text. -/
theorem identifier_begins_iff (raw : String) :
    identifier raw ≠ "" ∧ (Lettered (identifier raw) ↔ Guarded raw) ∧
      (Go.startsIdentifier (identifier raw) = true ↔ Guarded raw) ∧
      (¬ Guarded raw → ∃ c rest, (identifier raw).toList = c :: rest ∧ isNumeric c = true ∧ c.isDigit = false) ∧
      (∀ sch, Lettered (componentTypeName raw sch) ↔ Guarded raw) ∧
      ∀ {doc fuel config model ds}, build fuel doc config = .ok (model, ds) →
        (∀ d, .type d ∈ model.declarations → ∀ f ∈ d.fields, f.key = raw → (Lettered f.name ↔ Guarded raw)) ∧
        ∀ sch, (raw, sch) ∈ doc.components.schemas →
          ownName sch (identifier raw) ∈ declaredNames model.declarations ∧
            (Lettered (ownName sch (identifier raw)) ↔ Guarded raw) := by
  have hlettered := lettered_identifier_iff raw
  refine ⟨identifier_ne_empty raw, hlettered, (startsIdentifier_identifier raw).trans hlettered,
    fun hplain => ?_, lettered_componentTypeName_iff raw, fun hbuild => ?_⟩
  · obtain ⟨c, rest, hs, -, hnumeric, hdigit⟩ := identifier_of_not_guarded hplain
    exact ⟨c, rest, hs, hnumeric, hdigit⟩
  have hrooted := rooted_of_build hbuild
  constructor
  · rintro d hd f hf rfl
    have hformed : f.name = identifier f.key := hrooted.formed _ hd f hf
    rw [hformed]
    exact hlettered
  · intro sch hmem
    exact ⟨hrooted.components _ (List.mem_map_of_mem hmem), (lettered_ownName_iff sch _).trans hlettered⟩

/-- A component named by a digit of full width, with a property named by another one. -/
def wideDigits : Document :=
  { openapi := "3.0.3", info := ⟨"t", "1", none⟩, servers := [], tags := [], paths := []
    components :=
      ⟨[("３ds", { Schema.blank with
          properties := some [("２nd", { Schema.blank with type := some (.single "string") })] })], [], [], []⟩ }

set_option maxRecDepth 2000 in
theorem identifier_begins_iff_wideDigits : ¬ Guarded "３ds" ∧
    (∃ c rest, (identifier "３ds").toList = c :: rest ∧ isNumeric c = true ∧ c.isDigit = false) ∧
    ∃ model ds, build 2 wideDigits ⟨"p", "P"⟩ = .ok (model, ds) ∧
      declaredNames model.declarations = ["Date", "Time", "３ds"] ∧
      ∀ d, .type d ∈ model.declarations → ∀ f ∈ d.fields, f.key = "２nd" → (Lettered f.name ↔ Guarded "２nd") := by
  have hwide : ¬ Guarded "３ds" := by
    rw [← lettered_identifier_iff]
    decide +kernel
  obtain ⟨model, ds, h, htest⟩ := @Resolve.exists_build_of_passes wideDigits 2 ⟨"p", "P"⟩
    (fun m _ => declaredNames m.declarations = ["Date", "Time", "３ds"]) (by cbv)
  obtain ⟨-, -, -, hdigit, -⟩ := identifier_begins_iff "３ds"
  obtain ⟨-, -, -, -, -, hmodel⟩ := identifier_begins_iff "２nd"
  exact ⟨hwide, hdigit hwide, model, ds, h, of_decide_eq_true htest, (hmodel h).1⟩

/-- A digit of full width stays in front, where an argument would get another character. -/
theorem wide_digit_begins_identifier : identifier "３ds" = "３ds" ∧ ¬ Lettered (identifier "３ds") ∧
    ¬ Go.startsIdentifier (identifier "３ds") = true := by
  decide +kernel

end ClientGen

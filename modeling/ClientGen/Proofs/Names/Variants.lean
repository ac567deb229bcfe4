import ClientGen.Proofs.Enum.Literals
import ClientGen.Proofs.Names.Made

/-
  ClientGen.Proofs.Names.Variants — what becomes of the values of an enum.

  A value that matches the scalar of the enum becomes a variant, any other is reported. Nothing is
  lost and nothing doubled on the way: variants stand for the matching values (`forall₂_literals`),
  reports for the others (`variantsOf_reports`). Values that ask for one name get different ones,
  so sorting by name puts the variants into a strict order, and every name extends that of the
  enum (`enumeration_keeps`).
-/

namespace ClientGen

/-- Every value of the kind of the enum is a variant, as what stands for it, and every other is reported. The variants
    stand in the order of their names, which begin with the name of the enum. -/
structure EnumDecl.Keeps (d : EnumDecl) (values : List Json) (reports : List Diagnostic) : Prop where
  literals : ∃ literals, (d.variants.map (·.value)).Perm literals ∧
    List.Forall₂ (fun v l => v.InRange → Literal.Converted d.scalar v l) (values.filter (·.Matches d.scalar)) literals
  mismatches : reports =
    (values.filter (¬ ·.Matches d.scalar)).map fun v => Diagnostic.enumValueMismatch d.name v.write d.scalar
  count : d.variants.length + (reports.filter (·.kind = .enumValueMismatch)).length = values.length
  increasing : d.variants.Pairwise (·.name < ·.name)
  extends_name : ∀ v ∈ d.variants, ∃ suffix, suffix ≠ "" ∧ v.name = d.name ++ suffix

namespace Resolve

variable {s s' : Session} {name : String} {scalar : Scalar}

theorem variantsOf_values (name : String) (scalar : Scalar) (names : NameSet) (values : List Json) :
    (variantsOf name scalar names values).1.map (·.value) = values.filterMap (Literal.ofJson? scalar) := by
  induction values generalizing names with
  | nil => rfl
  | cons v rest ih =>
    rw [variantsOf, List.filterMap_cons]
    cases Literal.ofJson? scalar v with
    | none => exact ih names
    | some l => exact congrArg (l :: ·) (ih _)

theorem not_matches_of_none {v : Json} (h : Literal.ofJson? scalar v = none) : ¬ v.Matches scalar := by
  rw [← Literal.isSome_ofJson, h]
  exact nofun

theorem matches_of_some {v : Json} {l : Literal} (h : Literal.ofJson? scalar v = some l) : v.Matches scalar := by
  rw [← Literal.isSome_ofJson, h]
  rfl

theorem variantsOf_reports (name : String) (scalar : Scalar) (names : NameSet) (values : List Json) :
    (variantsOf name scalar names values).2 =
      (values.filter (¬ ·.Matches scalar)).map fun v => Diagnostic.enumValueMismatch name v.write scalar := by
  induction values generalizing names with
  | nil => rfl
  | cons v rest ih =>
    rw [variantsOf]
    cases hv : Literal.ofJson? scalar v with
    | none =>
      rw [List.filter_cons, if_pos (decide_eq_true (not_matches_of_none hv))]
      exact congrArg (Diagnostic.enumValueMismatch name v.write scalar :: ·) (ih names)
    | some l =>
      rw [List.filter_cons, if_neg (by simpa using matches_of_some hv)]
      exact ih _

/-- What stands for the values of the kind of a scalar, one by one. -/
theorem forall₂_literals (scalar : Scalar) (values : List Json) :
    List.Forall₂ (fun v l => v.InRange → Literal.Converted scalar v l) (values.filter (·.Matches scalar))
      (values.filterMap (Literal.ofJson? scalar)) := by
  induction values with
  | nil => exact .nil
  | cons v rest ih =>
    cases hv : Literal.ofJson? scalar v with
    | none =>
      rw [List.filter_cons, if_neg (by simpa using not_matches_of_none hv), List.filterMap_cons_none hv]
      exact ih
    | some l =>
      rw [List.filter_cons, if_pos (decide_eq_true (matches_of_some hv)), List.filterMap_cons_some hv]
      exact .cons (fun hrange => Literal.converted_of_ofJson hrange hv) ih

/-- The enum that is declared for values. -/
theorem keeps_variantsOf (name : String) (scalar : Scalar) (values : List Json) (documentation : Option String) :
    EnumDecl.Keeps ⟨name, scalar, sortByText (·.name) (variantsOf name scalar .empty values).1, documentation⟩ values
      (variantsOf name scalar .empty values).2 := by
  have hperm : (sortByText (·.name) (variantsOf name scalar .empty values).1).Perm
      (variantsOf name scalar .empty values).1 := sortBy_perm _ _
  have hvalues := variantsOf_values name scalar .empty values
  have hreports := variantsOf_reports name scalar .empty values
  constructor
  case literals => exact ⟨_, hvalues ▸ hperm.map _, forall₂_literals scalar values⟩
  case mismatches => exact hreports
  case count =>
    have hall : (variantsOf name scalar .empty values).2.filter (·.kind = .enumValueMismatch) =
        (variantsOf name scalar .empty values).2 := by
      rw [List.filter_eq_self, hreports]
      intro d hd
      obtain ⟨v, -, rfl⟩ := List.mem_map.mp hd
      rfl
    have hlength : (variantsOf name scalar .empty values).1.length = (values.filter (·.Matches scalar)).length := by
      rw [(forall₂_literals scalar values).length_eq, ← hvalues, List.length_map]
    rw [hall, hreports, hperm.length_eq, hlength, List.length_map,
      List.length_eq_length_filter_add (l := values) fun v => decide (v.Matches scalar)]
    simp only [decide_not]
  case increasing =>
    apply sortByText_increasing
    exact List.pairwise_map.mp (variantsOf_fresh name scalar .empty values).1
  case extends_name => exact (enumeration_formed name scalar values documentation).extends_name

/-- Enums over texts and numbers have a scalar. -/
theorem exists_enumScalar {sch : Schema} {p : Primitive} (hp : enumPrimitive? sch = some p) (hscalar : p ≠ .boolean) :
    ∃ scalar, enumScalar? sch = some scalar := by
  unfold enumScalar?
  rw [hp]
  cases p with
  | string => exact ⟨.string, rfl⟩
  | integer =>
    by_cases hwide : sch.format = some "int64"
    · exact ⟨.int64, if_pos hwide⟩
    · exact ⟨.integer, if_neg hwide⟩
  | number => exact ⟨.float, rfl⟩
  | boolean => exact absurd rfl hscalar

/-- Under a free name an enum with a scalar is declared, with a report for every mismatch. -/
theorem runs_enumeration_of_free {sch : Schema} {desired : String} (hscalar : enumScalar? sch = some scalar)
    (hfree : Name.singular desired ∉ s.registry.keys) :
    ∃ s', Runs (enumeration sch desired) s
        ⟨.named (Name.singular desired), [.enumeration ⟨Name.singular desired, scalar,
          sortByText (·.name) (variantsOf (Name.singular desired) scalar .empty sch.enumList).1, sch.documentation⟩]⟩
        s' ∧
      s'.diagnostics = s.diagnostics ++ (variantsOf (Name.singular desired) scalar .empty sch.enumList).2 := by
  simp only [enumeration, hscalar]
  refine ⟨_, runs_declaring_of_not_mem hfree (runs_bind.mpr ⟨(), _, runs_reportAll.mpr rfl, runs_pure.mpr ⟨rfl, rfl⟩⟩), ?_⟩
  rfl

end Resolve

open Resolve

/-- An enum over texts or numbers whose name is free keeps every value that is one, once, and
    reports every other value. -/
theorem enumeration_keeps {sch : Schema} {desired : String} {s : Session} {p : Primitive}
    (hp : enumPrimitive? sch = some p) (hscalar : p ≠ .boolean) (hfree : Name.singular desired ∉ s.registry.keys) :
    ∃ d reports s', Runs (enumeration sch desired) s ⟨.named (Name.singular desired), [.enumeration d]⟩ s' ∧
      d.name = Name.singular desired ∧ enumScalar? sch = some d.scalar ∧
      s'.diagnostics = s.diagnostics ++ reports ∧ d.Keeps sch.enumList reports := by
  obtain ⟨scalar, hsch⟩ := exists_enumScalar hp hscalar
  obtain ⟨s', hrun, hreports⟩ := runs_enumeration_of_free hsch hfree
  exact ⟨_, _, s', hrun, rfl, hsch, hreports, keeps_variantsOf _ scalar sch.enumList sch.documentation⟩

/-- Three values ask for one name, the first for a name that the second of them asks for next, and one value is no
    text. -/
def crowdedEnum : Schema :=
  { Schema.blank with
    type := some (.single "string"), enumValues := some [.str "on-2", .str "on", .str "On", .int 2, .str "ON"] }

/-- The texts under different names. -/
def crowdedDecl : EnumDecl :=
  ⟨"Mode", .string,
    [⟨"ModeOn", .text "on"⟩, ⟨"ModeOn2", .text "on-2"⟩, ⟨"ModeOn3", .text "On"⟩, ⟨"ModeOn4", .text "ON"⟩], none⟩

theorem enumeration_keeps_crowded :
    enumPrimitive? crowdedEnum = some .string ∧ Primitive.string ≠ .boolean ∧
      Name.singular "Modes" ∉ (Session.start).registry.keys ∧
      ∃ s', Runs (enumeration crowdedEnum "Modes") .start ⟨.named "Mode", [.enumeration crowdedDecl]⟩ s' ∧
        s'.diagnostics = [.enumValueMismatch "Mode" "2" .string] ∧
        crowdedDecl.Keeps crowdedEnum.enumList [.enumValueMismatch "Mode" "2" .string] := by
  have hp : enumPrimitive? crowdedEnum = some .string := by decide
  have hfree : Name.singular "Modes" ∉ (Session.start).registry.keys := by
    intro h
    cases h
  have htest : passes (enumeration crowdedEnum "Modes") .start (fun r s' =>
      decide (r = ⟨.named "Mode", [.enumeration crowdedDecl]⟩ ∧
        s'.diagnostics = [.enumValueMismatch "Mode" "2" .string])) = true := by
    decide +kernel
  obtain ⟨r, s', hruns, hpass⟩ := exists_runs_of_passes htest
  obtain ⟨rfl, hreport⟩ := of_decide_eq_true hpass
  obtain ⟨d, reports, s'', hruns', -, -, hreports, hkeeps⟩ := enumeration_keeps hp (by decide) hfree
  cases hruns.symm.trans hruns'
  rw [hreport] at hreports
  cases hreports
  exact ⟨hp, by decide, hfree, s', hruns, hreport, hkeeps⟩

end ClientGen

import ClientGen.Proofs.Names.Variants

/-
  ClientGen.Proofs.Enum.Integers — what becomes of the whole numbers in an enum over integers.

  Each value of an enum has one fate, a variant or a report (`exists_fates`). A number below
  2^63 becomes the variant of just that number. A larger one, up to 2^64, takes the way of the whole
  doubles: the nearest double is 2^63 at least, and what lies past the signed 64-bit integers is
  clamped to the largest of them (`Literal.integer?_of_le`). So the number is neither kept nor
  reported, but replaced by 2^63 - 1.
  - `integers_kept_iff`: a number of 64 bits is kept or reported exactly when it is below 2^63.
  - `largest_word_replaced`: 2^64 - 1 becomes 2^63 - 1, and nothing says so.
-/

namespace ClientGen

/-! ## What becomes of a value -/

/-- What becomes of one value of an enum. -/
inductive EnumDecl.Fate where
  | variant (v : Variant)
  | skipped (report : Diagnostic)

namespace EnumDecl.Fate

def variant? : Fate → Option Variant
  | .variant v => some v
  | .skipped _ => none

def report? : Fate → Option Diagnostic
  | .variant _ => none
  | .skipped report => some report

/-- The number is kept, or skipped with a report. -/
def Faithful (n : Int) : Fate → Prop
  | .variant v => v.value = .integer n
  | .skipped report => report.kind = .enumValueMismatch

/-- A value with a literal is a variant, one without is reported. -/
inductive Of (name : String) (scalar : Scalar) : Json → Fate → Prop
  | variant {v : Json} {l : Literal} (chosen : String) : Literal.ofJson? scalar v = some l →
      Of name scalar v (.variant ⟨chosen, l⟩)
  | skipped {v : Json} : Literal.ofJson? scalar v = none →
      Of name scalar v (.skipped (.enumValueMismatch name v.write scalar))

theorem Of.eq_variant {name : String} {scalar : Scalar} {v : Json} {fate : Fate} {l : Literal} (h : Of name scalar v fate)
    (hl : Literal.ofJson? scalar v = some l) : ∃ chosen, fate = .variant ⟨chosen, l⟩ := by
  cases h with
  | variant chosen hl' =>
    cases hl.symm.trans hl'
    exact ⟨chosen, rfl⟩
  | skipped hnone =>
    rw [hl] at hnone
    cases hnone

end EnumDecl.Fate

namespace Resolve

/-- Every value has a fate of its own, and the fates are all that an enum declares and reports. -/
theorem exists_fates (name : String) (scalar : Scalar) (names : NameSet) (values : List Json) :
    ∃ fates : List EnumDecl.Fate, List.Forall₂ (EnumDecl.Fate.Of name scalar) values fates ∧
      variantsOf name scalar names values = (fates.filterMap (·.variant?), fates.filterMap (·.report?)) := by
  induction values generalizing names with
  | nil => exact ⟨[], .nil, rfl⟩
  | cons v rest ih =>
    rw [variantsOf]
    cases hv : Literal.ofJson? scalar v with
    | some l =>
      obtain ⟨fates, hof, heq⟩ := ih (names.claim (variantName name l)).2
      refine ⟨_, .cons (.variant (names.claim (variantName name l)).1 hv) hof, ?_⟩
      dsimp only
      rw [heq]
      rfl
    | none =>
      obtain ⟨fates, hof, heq⟩ := ih names
      refine ⟨_, .cons (.skipped hv) hof, ?_⟩
      dsimp only
      rw [heq]
      rfl

/-- Enums over integers read their values as whole numbers. -/
theorem exists_integerScalar {sch : Schema} (hp : enumPrimitive? sch = some .integer) :
    ∃ scalar, enumScalar? sch = some scalar ∧ Literal.ofJson? scalar = Literal.integer? := by
  rw [enumScalar?, hp]
  by_cases hwide : sch.format = some "int64"
  · exact ⟨.int64, if_pos hwide, rfl⟩
  · exact ⟨.integer, if_neg hwide, rfl⟩

end Resolve

open Resolve

/-- In an enum over integers whose name is free, a number of 64 bits is kept or reported exactly
    when it is below 2^63. Any other becomes the variant of 2^63 - 1. -/
theorem integers_kept_iff {sch : Schema} {desired : String} {s : Session} (hp : enumPrimitive? sch = some .integer)
    (hfree : Name.singular desired ∉ s.registry.keys) :
    ∃ d s', ∃ fates : List EnumDecl.Fate,
      Runs (enumeration sch desired) s ⟨.named (Name.singular desired), [.enumeration d]⟩ s' ∧
      d.variants.Perm (fates.filterMap (·.variant?)) ∧
      s'.diagnostics = s.diagnostics ++ fates.filterMap (·.report?) ∧
      List.Forall₂ (fun v fate => ∀ n, v = .int n → Json.IsWord n →
        (fate.Faithful n ↔ n < signLimit) ∧ (signLimit ≤ n → fate.variant?.map (·.value) = some (.integer (signLimit - 1))))
        sch.enumList fates := by
  obtain ⟨scalar, hscalar, hinteger⟩ := exists_integerScalar hp
  obtain ⟨s', hrun, hreports⟩ := runs_enumeration_of_free hscalar hfree
  obtain ⟨fates, hof, heq⟩ := exists_fates (Name.singular desired) scalar .empty sch.enumList
  rw [heq] at hreports hrun
  refine ⟨_, s', fates, hrun, sortBy_perm _ _, hreports, hof.imp ?_⟩
  rintro _ fate hfate n rfl ⟨-, hn⟩
  rcases lt_or_ge n signLimit with hlt | hge
  · obtain ⟨chosen, rfl⟩ := hfate.eq_variant (hinteger ▸ Literal.integer?_of_lt hlt)
    exact ⟨iff_of_true rfl hlt, fun hge => absurd hlt (not_lt.mpr hge)⟩
  · obtain ⟨chosen, rfl⟩ := hfate.eq_variant (hinteger ▸ Literal.integer?_of_le hge hn)
    refine ⟨iff_of_false ?_ (not_lt.mpr hge), fun _ => rfl⟩
    rintro ⟨⟩
    omega

/-- The numbers on both sides of the limit, and a text. -/
def limits : Schema :=
  { Schema.blank with
    type := some (.single "integer")
    enumValues := some [.int 9223372036854775807, .int 9223372036854775808, .str "none", .int (-9223372036854775808)] }

theorem integers_kept_iff_limits :
    enumPrimitive? limits = some .integer ∧ Name.singular "Limit" ∉ (Session.start).registry.keys ∧
      ∃ d s', ∃ fates : List EnumDecl.Fate,
        Runs (enumeration limits "Limit") .start ⟨.named (Name.singular "Limit"), [.enumeration d]⟩ s' ∧
        d.variants.Perm (fates.filterMap (·.variant?)) ∧
        s'.diagnostics = (Session.start).diagnostics ++ fates.filterMap (·.report?) ∧
        List.Forall₂ (fun v fate => ∀ n, v = .int n → Json.IsWord n →
          (fate.Faithful n ↔ n < signLimit) ∧ (signLimit ≤ n → fate.variant?.map (·.value) = some (.integer (signLimit - 1))))
          limits.enumList fates := by
  have hp : enumPrimitive? limits = some .integer := by decide
  have hfree : Name.singular "Limit" ∉ (Session.start).registry.keys := by
    intro h
    cases h
  exact ⟨hp, hfree, integers_kept_iff hp hfree⟩

/-- One number, the largest of 64 bits. -/
def largestWord : Schema :=
  { Schema.blank with type := some (.single "integer"), enumValues := some [.int 18446744073709551615] }

/-- The number is replaced by 2^63 - 1, without a report. -/
theorem largest_word_replaced :
    ∃ s', Runs (enumeration largestWord "Limit") .start
        ⟨.named "Limit", [.enumeration
          ⟨"Limit", .integer, [⟨"Limit9223372036854775807", .integer 9223372036854775807⟩], none⟩]⟩ s' ∧
      s'.diagnostics = [] := by
  have htest : passes (enumeration largestWord "Limit") .start (fun r s' =>
      decide (r = ⟨.named "Limit", [.enumeration
        ⟨"Limit", .integer, [⟨"Limit9223372036854775807", .integer 9223372036854775807⟩], none⟩]⟩ ∧
        s'.diagnostics = [])) = true := by
    decide +kernel
  obtain ⟨r, s', hruns, hpass⟩ := exists_runs_of_passes htest
  obtain ⟨rfl, hnone⟩ := of_decide_eq_true hpass
  exact ⟨s', hruns, hnone⟩

end ClientGen

import Mathlib
import ClientGen.Proofs.Number.Nearest

/-
  ClientGen.Proofs.Enum.Literals — which values are of the kind of an enum, and what stands for them.

  Texts match an enum over texts, whole numbers one over integers, and all numbers one over numbers
  (`Json.Matches`); these are the values that have a literal (`isSome_ofJson`). A text stands for
  itself. A whole number does if it fits 64 bits with a sign, and else the end of them that is nearer
  does. An integer among numbers becomes the nearest double (`converted_of_ofJson`).
-/

namespace ClientGen

namespace Json

/-- The number that a value is. -/
def number? : Json → Option ℚ
  | .int n => some n
  | .float x => some x.value
  | _ => none

/-- Whether a value is of the kind of a scalar. No value is of the kind of a boolean. -/
def Matches (scalar : Scalar) (v : Json) : Prop :=
  match scalar with
  | .string => ∃ t, v = .str t
  | .integer => ∃ m : ℤ, v.number? = some (m : ℚ)
  | .int64 => ∃ m : ℤ, v.number? = some (m : ℚ)
  | .float => ∃ q, v.number? = some q
  | .boolean => False

/-- Numbers of 64 bits, with a sign or without: those that JSON gives without a double. -/
def IsWord (n : Int) : Prop := -signLimit ≤ n ∧ n < 2 * signLimit

/-- Integers that need more than 64 bits are given as doubles. -/
def InRange (v : Json) : Prop := ∀ n, v = .int n → IsWord n

end Json

namespace Literal

/-- What stands for a value in an enum over a scalar. -/
inductive Converted : Scalar → Json → Literal → Prop
  | text (t : String) : Converted .string (.str t) (.text t)
  | whole {scalar : Scalar} {v : Json} {m : ℤ} : scalar = .integer ∨ scalar = .int64 → v.number? = some (m : ℚ) →
      Converted scalar v (.integer (max (-2 ^ 63) (min m (2 ^ 63 - 1))))
  | rounded {n : ℤ} {x : Double} : x.Nearest n → Converted .float (.int n) (.float x)
  | double (x : Double) : Converted .float (.float x) (.float x)

/-! ## Whole numbers -/

theorem clampInt64_eq (m : Int) : clampInt64 m = max (-2 ^ 63) (min m (2 ^ 63 - 1)) := by
  have hlimit : signLimit = 2 ^ 63 := by decide
  unfold clampInt64
  split
  · omega
  · split <;> omega

theorem integer?_of_lt {n : Int} (h : n < signLimit) : integer? (.int n) = some (.integer n) := if_pos h

theorem log2_of_isWord {n : Int} (h : Json.IsWord n) : n.natAbs.log2 ≤ 1022 := by
  have hlimit : signLimit = 2 ^ 63 := by decide
  obtain ⟨hlow, hhigh⟩ := h
  have hlt : n.natAbs < 2 ^ 64 := by omega
  by_cases hn : n.natAbs = 0
  · rw [hn]
    decide
  · have := (Nat.log2_lt hn).mpr hlt
    omega

/-- From 2^63 on, rounding stays there: that is a double itself. -/
theorem integer?_of_le {n : Int} (h : signLimit ≤ n) (hn : n < 2 * signLimit) :
    integer? (.int n) = some (.integer (signLimit - 1)) := by
  have hlimit : signLimit = 2 ^ 63 := by decide
  obtain ⟨m, hm⟩ := Double.exists_toInt_ofInt n
  have hnearest : (Double.ofInt n).Nearest n := Double.ofInt_nearest (log2_of_isWord ⟨by omega, hn⟩)
  have hm' : ((2 : ℚ) ^ 63) ≤ m := by
    have hvalue : (⟨false, 2 ^ 52, 11⟩ : Double).value = 2 ^ 63 := by norm_num [Double.value]
    have hle := hnearest.nearest ⟨false, 2 ^ 52, 11⟩ ⟨by norm_num, by decide, by decide, .inl (le_refl _)⟩
    have hbound : (2 : ℚ) ^ 63 ≤ n := by exact_mod_cast hlimit ▸ h
    rw [hvalue, Double.toInt?_eq_some.mp hm, abs_sub_comm ((2 : ℚ) ^ 63), abs_of_nonneg (sub_nonneg.mpr hbound)] at hle
    linarith [neg_abs_le ((m : ℚ) - n)]
  have hclamp : clampInt64 m = signLimit - 1 := by
    have hle : (2 : ℤ) ^ 63 ≤ m := by exact_mod_cast hm'
    rw [clampInt64, if_neg (by omega), if_neg (by omega)]
  rw [integer?, if_neg (by omega), hm, Option.map_some, hclamp]

theorem isSome_integer (v : Json) : (integer? v).isSome = true ↔ ∃ m : ℤ, v.number? = some (m : ℚ) := by
  cases v with
  | int n =>
    refine iff_of_true ?_ ⟨n, rfl⟩
    rcases lt_or_ge n signLimit with hlt | hge
    · rw [integer?_of_lt hlt]
      rfl
    · obtain ⟨m, hm⟩ := Double.exists_toInt_ofInt n
      rw [integer?, if_neg (not_lt.mpr hge), hm]
      rfl
  | float x =>
    simp only [integer?, Option.isSome_map, Option.isSome_iff_exists, Double.toInt?_eq_some, Json.number?, Option.some.injEq]
  | null | bool b | str t | arr items | obj fields =>
    refine iff_of_false Bool.false_ne_true ?_
    rintro ⟨m, hm⟩
    cases hm

theorem converted_of_integer {scalar : Scalar} {v : Json} {l : Literal} (hscalar : scalar = .integer ∨ scalar = .int64)
    (hv : v.InRange) (h : integer? v = some l) : Converted scalar v l := by
  cases v with
  | int n =>
    have hlimit : signLimit = 2 ^ 63 := by decide
    obtain ⟨hlow, hhigh⟩ := hv n rfl
    have hl : l = .integer (max (-2 ^ 63) (min n (2 ^ 63 - 1))) := by
      rcases lt_or_ge n signLimit with hlt | hge
      · rw [integer?_of_lt hlt] at h
        cases h
        congr 1
        omega
      · rw [integer?_of_le hge hhigh] at h
        cases h
        congr 1
        omega
    exact hl ▸ .whole hscalar rfl
  | float x =>
    obtain ⟨m, hm, rfl⟩ := Option.map_eq_some_iff.mp h
    rw [clampInt64_eq]
    exact .whole hscalar (congrArg some (Double.toInt?_eq_some.mp hm))
  | null | bool b | str t | arr items | obj fields => cases h

/-! ## Values -/

/-- The values of the kind of a scalar are those that have a literal. -/
theorem isSome_ofJson (scalar : Scalar) (v : Json) : (ofJson? scalar v).isSome = true ↔ v.Matches scalar := by
  cases scalar with
  | string => cases v <;> simp [ofJson?, Json.Matches, Json.str?]
  | integer => exact isSome_integer v
  | int64 => exact isSome_integer v
  | float => cases v <;> simp [ofJson?, float?, Json.Matches, Json.number?]
  | boolean => exact iff_of_false Bool.false_ne_true id

/-- The literal of a value is what stands for it. -/
theorem converted_of_ofJson {scalar : Scalar} {v : Json} {l : Literal} (hv : v.InRange) (h : ofJson? scalar v = some l) :
    Converted scalar v l := by
  cases scalar with
  | string =>
    obtain ⟨t, ht, rfl⟩ := Option.map_eq_some_iff.mp h
    cases v with
    | str t' =>
      cases ht
      exact .text t
    | null | bool b | int n | float x | arr items | obj fields => cases ht
  | integer => exact converted_of_integer (.inl rfl) hv h
  | int64 => exact converted_of_integer (.inr rfl) hv h
  | float =>
    cases v with
    | int n =>
      cases h
      exact .rounded (Double.ofInt_nearest (log2_of_isWord (hv n rfl)))
    | float x =>
      cases h
      exact .double x
    | null | bool b | str t | arr items | obj fields => cases h
  | boolean => cases h

end Literal

instance (scalar : Scalar) (v : Json) : Decidable (v.Matches scalar) :=
  decidable_of_iff _ (Literal.isSome_ofJson scalar v)

end ClientGen

import Mathlib
import ClientGen.Resolve.Enumeration

/-
  ClientGen.Proofs.Number.Nearest — what number a double stands for, and which double an integer becomes.

  A double is read as a whole number exactly when it stands for one (`toInt?_eq_some`). An integer
  is rounded to a multiple of the last of its 53 bits, the nearest one and of two equally near ones
  the even one (`divNearest_nearest`). Every double that is not below all integers with these bits is
  such a multiple (`exists_multiple`), so no other double is nearer (`ofInt_nearest`).
-/

namespace ClientGen

namespace Double

/-! ## Numbers -/

/-- The number that a double stands for. -/
def value (d : Double) : ℚ := (if d.neg then -1 else 1) * (d.mant * 2 ^ d.exp)

/-- The form of doubles: the mantissa has 53 bits, and fewer only at the least exponent. -/
structure Canonical (d : Double) : Prop where
  bits : d.mant < 2 ^ 53
  least : minExp ≤ d.exp
  most : d.exp ≤ maxExp
  full : 2 ^ 52 ≤ d.mant ∨ d.exp = minExp

/-- No double is nearer to a number, and one that is equally near leaves an even mantissa to this one. -/
structure Nearest (d : Double) (q : ℚ) : Prop where
  canonical : d.Canonical
  nearest : ∀ y : Double, y.Canonical → |d.value - q| ≤ |y.value - q|
  even : ∀ y : Double, y.Canonical → |y.value - q| = |d.value - q| → y.value ≠ d.value → d.mant % 2 = 0

theorem Canonical.negate {d : Double} (h : d.Canonical) : d.negate.Canonical := ⟨h.bits, h.least, h.most, h.full⟩

theorem value_negate (d : Double) : d.negate.value = -d.value := by
  unfold value negate
  cases d.neg <;> simp

theorem Nearest.negate {d : Double} {q : ℚ} (h : d.Nearest q) : d.negate.Nearest (-q) := by
  -- distances stay the same when both signs change
  have hdist (y : Double) : |y.negate.value - q| = |y.value - -q| := by
    rw [value_negate, ← abs_neg]
    congr 1
    ring
  have hself : |d.negate.value - -q| = |d.value - q| := by
    rw [value_negate, ← abs_neg]
    congr 1
    ring
  constructor
  case canonical => exact h.canonical.negate
  case nearest =>
    intro y hy
    rw [hself, ← hdist]
    exact h.nearest _ hy.negate
  case even =>
    intro y hy heq hne
    rw [hself, ← hdist] at heq
    refine h.even _ hy.negate heq ?_
    rw [value_negate]
    rw [value_negate] at hne
    exact fun h => hne (by rw [← h, neg_neg])

/-! ## Whole doubles -/

/-- A power of two as a ratio. -/
theorem two_pow_toNat (e : ℤ) : (2 : ℚ) ^ e.toNat = 2 ^ e * 2 ^ (-e).toNat := by
  rw [← zpow_natCast, ← zpow_natCast, ← zpow_add₀ two_ne_zero]
  congr 1
  omega

theorem numerator_eq (d : Double) : (d.numerator : ℚ) = d.mant * 2 ^ d.exp * d.denominator := by
  unfold numerator denominator
  push_cast [Nat.pow_eq]
  rw [two_pow_toNat, mul_assoc]

theorem denominator_pos (d : Double) : 0 < d.denominator := Nat.two_pow_pos _

/-- A double is read as a whole number exactly when it is one. -/
theorem toInt?_eq_some {d : Double} {m : ℤ} : d.toInt? = some m ↔ d.value = m := by
  have hden : (d.denominator : ℚ) ≠ 0 := Nat.cast_ne_zero.mpr d.denominator_pos.ne'
  -- the magnitude is a whole number exactly when the denominator divides the numerator
  have hmagnitude (k : ℕ) : d.numerator = k * d.denominator ↔ (d.mant * 2 ^ d.exp : ℚ) = k := by
    rw [← mul_left_inj' hden, ← numerator_eq]
    norm_cast
  unfold toInt?
  split
  · rename_i hmod
    have hdiv : d.numerator = d.numerator / d.denominator * d.denominator :=
      (Nat.div_mul_cancel (Nat.dvd_of_mod_eq_zero hmod)).symm
    generalize d.numerator / d.denominator = k at hdiv ⊢
    rw [value, (hmagnitude k).mp hdiv, Option.some.injEq, ← @Int.cast_inj ℚ]
    cases d.neg <;> simp
  · rename_i hmod
    refine iff_of_false nofun fun hvalue => hmod ?_
    have hk : (d.mant * 2 ^ d.exp : ℚ) = m.natAbs := by
      have hpos : (0 : ℚ) ≤ d.mant * 2 ^ d.exp := by positivity
      rw [Nat.cast_natAbs, Int.cast_abs, ← hvalue, value]
      cases d.neg <;> simp [abs_of_nonneg hpos]
    rw [(hmagnitude _).mpr hk, Nat.mul_mod_left]

/-! ## Rounding whole numbers -/

/-- The quotient is taken or the next number, whichever is nearer; of two equally near ones the even one. -/
theorem divNearest_cases (num den : ℕ) :
    divNearest num den = num / den ∧ 2 * (num % den) ≤ den ∧ (2 * (num % den) = den → num / den % 2 = 0) ∨
      divNearest num den = num / den + 1 ∧ den ≤ 2 * (num % den) ∧ (2 * (num % den) = den → (num / den + 1) % 2 = 0) := by
  unfold divNearest
  dsimp only
  split
  · exact .inl ⟨rfl, by omega, by omega⟩
  · split
    · exact .inr ⟨rfl, by omega, by omega⟩
    · split
      · rename_i heven
        exact .inl ⟨rfl, by omega, fun _ => beq_iff_eq.mp heven⟩
      · rename_i hodd
        rw [beq_iff_eq] at hodd
        exact .inr ⟨rfl, by omega, by omega⟩

/-- Every other multiple of the denominator is as far away, and farther unless the one taken is even. -/
theorem divNearest_nearest {den : ℕ} (hden : 0 < den) (num k : ℕ) (hk : k ≠ divNearest num den) :
    ((divNearest num den * den : ℕ) - num : ℤ).natAbs ≤ ((k * den : ℕ) - num : ℤ).natAbs ∧
      (((k * den : ℕ) - num : ℤ).natAbs = ((divNearest num den * den : ℕ) - num : ℤ).natAbs →
        divNearest num den % 2 = 0) := by
  have hnum : num / den * den + num % den = num := Nat.div_add_mod' num den
  have hrest : num % den < den := Nat.mod_lt num hden
  have hnext : (num / den + 1) * den = num / den * den + den := Nat.succ_mul _ _
  have hbelow (h : k < num / den) : k * den + den ≤ num / den * den := by
    rw [← Nat.succ_mul]
    exact Nat.mul_le_mul_right den h
  have habove (h : num / den + 1 < k) : num / den * den + 2 * den ≤ k * den := by
    rw [← Nat.add_mul]
    exact Nat.mul_le_mul_right den h
  have hself (h : k = num / den) : k * den = num / den * den := congrArg (· * den) h
  have hother (h : k = num / den + 1) : k * den = (num / den + 1) * den := congrArg (· * den) h
  rcases divNearest_cases num den with ⟨hq, hnear, heven⟩ | ⟨hq, hnear, heven⟩
  all_goals
    rw [hq] at hk ⊢
    omega

section

variable {n : ℕ} {d : Double}

/-- The exponent of the last of 53 bits of a whole number. -/
def lastBit (n : ℕ) : ℤ := n.log2 - 52

/-- A whole number as a ratio to the last of its 53 bits. -/
def scaled (n : ℕ) : ℕ := n * 2 ^ (-lastBit n).toNat

def unit (n : ℕ) : ℕ := 2 ^ (lastBit n).toNat

theorem unit_pos (n : ℕ) : 0 < unit n := Nat.two_pow_pos _

theorem scaled_bounds (hn : n ≠ 0) : 2 ^ 52 * unit n ≤ scaled n ∧ scaled n < 2 ^ 53 * unit n := by
  have hlow : 2 ^ n.log2 ≤ n := Nat.log2_self_le hn
  have hhigh : n < 2 ^ (n.log2 + 1) := Nat.lt_log2_self
  unfold scaled unit lastBit
  rcases Nat.le_total n.log2 52 with hle | hge
  · obtain ⟨k, hk⟩ := Nat.exists_eq_add_of_le hle
    have hunit : ((n.log2 : ℤ) - 52).toNat = 0 := by omega
    have hscale : (-((n.log2 : ℤ) - 52)).toNat = k := by omega
    rw [hunit, hscale]
    have hbits : 2 ^ 52 = 2 ^ n.log2 * 2 ^ k := by rw [← Nat.pow_add, ← hk]
    have hmore : 2 ^ 53 = 2 ^ (n.log2 + 1) * 2 ^ k := by
      rw [Nat.pow_succ, hbits, Nat.pow_succ]
      ring
    rw [hbits, hmore, Nat.pow_zero, Nat.mul_one, Nat.mul_one]
    exact ⟨Nat.mul_le_mul_right _ hlow, Nat.mul_lt_mul_of_pos_right hhigh (Nat.two_pow_pos k)⟩
  · obtain ⟨k, hk⟩ := Nat.exists_eq_add_of_le hge
    have hunit : ((n.log2 : ℤ) - 52).toNat = k := by omega
    have hscale : (-((n.log2 : ℤ) - 52)).toNat = 0 := by omega
    rw [hunit, hscale, ← Nat.pow_add, ← Nat.pow_add, Nat.pow_zero, Nat.mul_one, ← hk]
    refine ⟨hlow, ?_⟩
    rwa [show 53 + k = n.log2 + 1 by omega]

theorem exponentFor_nat (hn : n ≠ 0) : exponentFor n 1 = lastBit n := by
  have hlow := (scaled_bounds hn).1
  unfold exponentFor
  rw [show Nat.log2 1 = 0 by decide, Nat.cast_zero, sub_zero]
  dsimp only
  rw [if_neg]
  · exact max_eq_left (by unfold minExp; omega)
  · rw [not_lt, Nat.one_mul, Nat.mul_comm]
    exact hlow

/-- Rounding keeps 53 bits, or gives the next power of two. -/
theorem mantissa_bounds (hn : n ≠ 0) :
    2 ^ 52 ≤ divNearest (scaled n) (unit n) ∧ divNearest (scaled n) (unit n) ≤ 2 ^ 53 := by
  obtain ⟨hlow, hhigh⟩ := scaled_bounds hn
  have hle : 2 ^ 52 ≤ scaled n / unit n := (Nat.le_div_iff_mul_le (unit_pos n)).mpr hlow
  have hlt : scaled n / unit n < 2 ^ 53 := (Nat.div_lt_iff_lt_mul (unit_pos n)).mpr hhigh
  rcases divNearest_cases (scaled n) (unit n) with ⟨hq, -⟩ | ⟨hq, -⟩
  all_goals
    rw [hq]
    omega

theorem round_nat (hn : n ≠ 0) :
    round? false n 1 =
      if divNearest (scaled n) (unit n) = 2 ^ 53 then
        if maxExp < lastBit n + 1 then none else some ⟨false, 2 ^ 52, lastBit n + 1⟩
      else if maxExp < lastBit n then none
      else some ⟨false, divNearest (scaled n) (unit n), lastBit n⟩ := by
  have hunit : 1 * Nat.pow 2 (lastBit n).toNat = unit n := Nat.one_mul _
  unfold round?
  rw [if_neg hn, exponentFor_nat hn]
  dsimp only
  rw [hunit, show n * Nat.pow 2 (-lastBit n).toNat = scaled n from rfl, show Nat.pow 2 53 = 2 ^ 53 from rfl]
  split <;> rfl

/-- A double stands for the nearest multiple of the last bit of a number. -/
structure Rounds (n : ℕ) (d : Double) : Prop where
  positive : d.neg = false
  canonical : d.Canonical
  value_eq : d.value = divNearest (scaled n) (unit n) * 2 ^ lastBit n
  even : divNearest (scaled n) (unit n) % 2 = 0 → d.mant % 2 = 0

theorem rounds_of_round_nat (hn : n ≠ 0) (h : round? false n 1 = some d) : Rounds n d := by
  obtain ⟨hlow, hhigh⟩ := mantissa_bounds hn
  have hleast : minExp ≤ lastBit n := by
    unfold minExp lastBit
    omega
  rw [round_nat hn] at h
  split at h
  · rename_i hcarry
    split at h
    · cases h
    · cases h
      refine ⟨rfl, ⟨by norm_num, Int.le_add_one hleast, not_lt.mp ‹_›, .inl (Nat.le_refl _)⟩, ?_, fun _ => by norm_num⟩
      rw [hcarry]
      simp only [value, zpow_add₀ (two_ne_zero' ℚ)]
      norm_num
      ring
  · split at h
    · cases h
    · cases h
      refine ⟨rfl, ⟨lt_of_le_of_ne hhigh ‹_›, hleast, not_lt.mp ‹_›, .inl hlow⟩, ?_, id⟩
      simp [value]

theorem exists_round_nat (hn : n ≠ 0) (hlog : n.log2 ≤ 1022) : ∃ d, round? false n 1 = some d := by
  have hmost : lastBit n + 1 ≤ maxExp := by
    unfold maxExp lastBit
    omega
  have hmost' : lastBit n ≤ maxExp := by omega
  rw [round_nat hn, if_neg (not_lt.mpr hmost), if_neg (not_lt.mpr hmost')]
  split
  · exact ⟨_, rfl⟩
  · exact ⟨_, rfl⟩

theorem scaled_mul (n : ℕ) : (scaled n : ℚ) * 2 ^ lastBit n = n * unit n := by
  unfold scaled unit
  push_cast
  rw [two_pow_toNat (lastBit n)]
  ring

theorem least_le (hn : n ≠ 0) : (2 : ℚ) ^ 52 * 2 ^ lastBit n ≤ n := by
  have hunit : (0 : ℚ) < unit n := Nat.cast_pos.mpr (unit_pos n)
  have hlow : (2 : ℚ) ^ 52 * unit n ≤ scaled n := by exact_mod_cast (scaled_bounds hn).1
  refine le_of_mul_le_mul_right ?_ hunit
  rw [← scaled_mul, mul_right_comm]
  exact mul_le_mul_of_nonneg_right hlow (by positivity)

/-- How far a multiple of the last bit is. -/
theorem abs_mul_lastBit_sub (n k : ℕ) :
    |(k : ℚ) * 2 ^ lastBit n - n| = 2 ^ lastBit n / unit n * (((k * unit n : ℕ) - scaled n : ℤ).natAbs : ℕ) := by
  have hunit : (unit n : ℚ) ≠ 0 := Nat.cast_ne_zero.mpr (unit_pos n).ne'
  have hdiff : (k : ℚ) * 2 ^ lastBit n - n = 2 ^ lastBit n / unit n * (k * unit n - scaled n) := by
    rw [div_mul_eq_mul_div, eq_div_iff hunit, sub_mul, ← scaled_mul]
    ring
  have hpos : (0 : ℚ) < 2 ^ lastBit n / unit n := by
    have := unit_pos n
    positivity
  rw [hdiff, abs_mul, abs_of_pos hpos, Nat.cast_natAbs, Int.cast_abs]
  push_cast
  rfl

/-- A number either has a last bit that is whole, or bits enough. -/
theorem Rounds.exists_value (h : Rounds n d) : ∃ k : ℕ, d.value = k := by
  rw [h.value_eq]
  rcases le_total 0 (lastBit n) with hwhole | hexact
  · refine ⟨divNearest (scaled n) (unit n) * 2 ^ (lastBit n).toNat, ?_⟩
    push_cast
    rw [← zpow_natCast, Int.toNat_of_nonneg hwhole]
  · have hunit : unit n = 1 := by rw [unit, Int.toNat_eq_zero.mpr hexact, Nat.pow_zero]
    have hscaled : (scaled n : ℚ) * 2 ^ lastBit n = n := by rw [scaled_mul, hunit, Nat.cast_one, mul_one]
    have hself : divNearest (scaled n) 1 = scaled n := by
      rcases divNearest_cases (scaled n) 1 with ⟨hq, -⟩ | ⟨-, hrest, -⟩
      · rw [hq, Nat.div_one]
      · rw [Nat.mod_one] at hrest
        omega
    exact ⟨n, by rw [hunit, hself, hscaled]⟩

/-- Doubles with more than the bits of a number are multiples of its last bit. -/
theorem exists_multiple {y : Double} (hy : y.Canonical) (hle : 2 ^ 52 * 2 ^ lastBit n ≤ y.value) :
    ∃ k : ℕ, y.value = k * 2 ^ lastBit n := by
  have hpos : (0 : ℚ) < 2 ^ 52 * 2 ^ lastBit n := by positivity
  have hneg : y.neg = false := by
    cases hneg : y.neg with
    | false => rfl
    | true =>
      have hmag : (0 : ℚ) ≤ y.mant * 2 ^ y.exp := by positivity
      rw [value, hneg, if_pos rfl] at hle
      linarith
  have hvalue : y.value = y.mant * 2 ^ y.exp := by simp [value, hneg]
  have hexp : lastBit n ≤ y.exp := by
    have hbits : (y.mant : ℚ) < 2 ^ 53 := by exact_mod_cast hy.bits
    have hlt : (2 : ℚ) ^ (52 + lastBit n) < 2 ^ (53 + y.exp) := by
      rw [zpow_add₀ two_ne_zero, zpow_add₀ two_ne_zero]
      calc (2 : ℚ) ^ (52 : ℤ) * 2 ^ lastBit n ≤ y.value := by exact_mod_cast hle
        _ = y.mant * 2 ^ y.exp := hvalue
        _ < 2 ^ (53 : ℤ) * 2 ^ y.exp := mul_lt_mul_of_pos_right (by exact_mod_cast hbits) (by positivity)
    have := (zpow_lt_zpow_iff_right₀ (by norm_num : (1 : ℚ) < 2)).mp hlt
    omega
  refine ⟨y.mant * 2 ^ (y.exp - lastBit n).toNat, ?_⟩
  have hsplit : (2 : ℚ) ^ y.exp = 2 ^ (y.exp - lastBit n).toNat * 2 ^ lastBit n := by
    rw [← zpow_natCast, ← zpow_add₀ two_ne_zero]
    congr 1
    omega
  rw [hvalue, hsplit]
  push_cast
  ring

/-- No double is nearer to a number than the nearest multiple of its last bit. -/
theorem Rounds.nearest (hn : n ≠ 0) (h : Rounds n d) : d.Nearest n := by
  obtain ⟨-, hcanonical, hvalue, heven⟩ := h
  have hpos : (0 : ℚ) < 2 ^ lastBit n / unit n := by
    have := unit_pos n
    positivity
  have hle (k : ℕ) : |d.value - n| ≤ |(k : ℚ) * 2 ^ lastBit n - n| := by
    rw [hvalue, abs_mul_lastBit_sub, abs_mul_lastBit_sub]
    refine mul_le_mul_of_nonneg_left ?_ hpos.le
    by_cases hk : k = divNearest (scaled n) (unit n)
    · rw [hk]
    · exact_mod_cast (divNearest_nearest (unit_pos n) (scaled n) k hk).1
  -- the least number with these bits is a multiple of the last one
  have hbelow {y : Double} (hy : y.value < 2 ^ 52 * 2 ^ lastBit n) : |d.value - n| < |y.value - n| := by
    have hlow := least_le hn
    have hfirst := hle (2 ^ 52)
    rw [Nat.cast_pow, Nat.cast_ofNat, abs_sub_comm ((2 : ℚ) ^ 52 * 2 ^ lastBit n),
      abs_of_nonneg (sub_nonneg.mpr hlow)] at hfirst
    rw [abs_sub_comm y.value, abs_of_nonneg (sub_nonneg.mpr (hy.le.trans hlow))]
    exact hfirst.trans_lt (sub_lt_sub_left hy _)
  constructor
  case canonical => exact hcanonical
  case nearest =>
    intro y hy
    rcases lt_or_ge y.value (2 ^ 52 * 2 ^ lastBit n) with hlt | hge
    · exact (hbelow hlt).le
    · obtain ⟨k, hk⟩ := exists_multiple hy hge
      rw [hk]
      exact hle k
  case even =>
    intro y hy heq hne
    rcases lt_or_ge y.value (2 ^ 52 * 2 ^ lastBit n) with hlt | hge
    · exact absurd heq (hbelow hlt).ne'
    · obtain ⟨k, hk⟩ := exists_multiple hy hge
      have hother : k ≠ divNearest (scaled n) (unit n) := by
        rintro rfl
        exact hne (hk.trans hvalue.symm)
      refine heven ((divNearest_nearest (unit_pos n) (scaled n) k hother).2 ?_)
      rw [hk, hvalue, abs_mul_lastBit_sub, abs_mul_lastBit_sub] at heq
      exact_mod_cast mul_left_cancel₀ hpos.ne' heq

end

/-! ## Integers -/

theorem zero_nearest : (zero false).Nearest 0 := by
  have hvalue : (zero false).value = 0 := by simp [value, zero]
  refine ⟨⟨by norm_num [zero], le_refl _, by decide, .inr rfl⟩, ?_, fun _ _ _ _ => rfl⟩
  intro y _
  rw [hvalue, sub_zero, abs_zero]
  exact abs_nonneg _

theorem ofNat_neg (n : ℕ) : (ofNat n).neg = false := by
  unfold ofNat
  by_cases hn : n = 0
  · rw [hn]
    rfl
  · cases hround : round? false n 1 with
    | none => rfl
    | some d => exact (rounds_of_round_nat hn hround).positive

theorem ofInt_eq (n : ℤ) : ofInt n = if n < 0 then (ofNat n.natAbs).negate else ofNat n.natAbs := by
  unfold ofInt
  split
  · rename_i hneg
    rw [decide_eq_true hneg, negate, ofNat_neg]
    rfl
  · rename_i hneg
    rw [decide_eq_false hneg, ← ofNat_neg n.natAbs]

/-- An integer is taken for the nearest double. -/
theorem ofInt_nearest {n : ℤ} (h : n.natAbs.log2 ≤ 1022) : (ofInt n).Nearest n := by
  have hmagnitude : (ofNat n.natAbs).Nearest n.natAbs := by
    by_cases hn : n.natAbs = 0
    · rw [hn, Nat.cast_zero]
      exact zero_nearest
    · obtain ⟨d, hd⟩ := exists_round_nat hn h
      rw [ofNat, hd]
      exact (rounds_of_round_nat hn hd).nearest hn
  rw [ofInt_eq]
  split
  · rename_i hneg
    have hn : (n : ℚ) = -(n.natAbs : ℚ) := by
      rw [Nat.cast_natAbs, abs_of_neg hneg, Int.cast_neg, neg_neg]
    rw [hn]
    exact hmagnitude.negate
  · rename_i hneg
    have hn : (n : ℚ) = n.natAbs := by
      rw [Nat.cast_natAbs, abs_of_nonneg (not_lt.mp hneg)]
    rw [hn]
    exact hmagnitude

theorem exists_value_ofNat (n : ℕ) : ∃ k : ℕ, (ofNat n).value = k := by
  have hzero : (zero false).value = (0 : ℕ) := by simp [value, zero]
  by_cases hn : n = 0
  · subst hn
    exact ⟨0, hzero⟩
  · unfold ofNat
    cases hround : round? false n 1 with
    | none => exact ⟨0, hzero⟩
    | some d => exact (rounds_of_round_nat hn hround).exists_value

/-- Whatever an integer is taken for is a whole number. -/
theorem exists_toInt_ofInt (n : ℤ) : ∃ m, (ofInt n).toInt? = some m := by
  obtain ⟨k, hk⟩ := exists_value_ofNat n.natAbs
  simp only [toInt?_eq_some, ofInt_eq]
  split
  · exact ⟨-k, by rw [value_negate, hk, Int.cast_neg, Int.cast_natCast]⟩
  · exact ⟨k, by rw [hk, Int.cast_natCast]⟩

end Double

end ClientGen

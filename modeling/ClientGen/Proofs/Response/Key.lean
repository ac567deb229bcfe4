import Mathlib
import ClientGen.Model.Status

/-
  ClientGen.Proofs.Response.Key — what the key of a response says about its place among the keys.

  A range `NXX` and the code `N00` have one sort key. Keys are listed in the order of their
  texts, and there every spelling of `N00` comes before every spelling of `NXX`
  (`code_lt_range`): a plus sign and a leading zero are less than the digits from one on, and
  digits are less than letters.
-/

namespace ClientGen.Status

variable {n : Nat} {c : Char} {cs : List Char}

/-- Whether the key is no default and covers `s`. -/
def names : Status → Nat → Bool
  | .code n, s => s == n
  | .range n, s => n ≤ s && s < n + 100
  | .default, _ => false

theorem names_iff {st : Status} {s : Nat} : st.names s = true ↔ st ≠ .default ∧ st.Covers s := by
  cases st <;> simp [names, Covers]

/-! ## Numbers -/

theorem foldl_digits (cs : List Char) (init : Nat) :
    cs.foldl (fun n c => n * 10 + (c.toNat - '0'.toNat)) init = Nat.ofDigitChars 10 cs init := by
  rw [Nat.ofDigitChars_eq_foldl]
  congr 1
  funext n c
  rw [Nat.mul_comm]

theorem decimal?_toDigits (n : Nat) : decimal? (Nat.toDigits 10 n) = some n := by
  have hdigits : (Nat.toDigits 10 n).all Char.isDigit = true :=
    List.all_eq_true.mpr fun c hc => Nat.isDigit_of_mem_toDigits (by decide) (by decide) hc
  have hne : (Nat.toDigits 10 n).isEmpty = false := by simp
  rw [decimal?, hne, hdigits, foldl_digits, Nat.ofDigitChars_toDigits (by decide) (by decide)]
  rfl

/-- The value of a digit. -/
theorem digit_bounds (h : c.isDigit = true) : 48 ≤ c.toNat ∧ c.toNat ≤ 57 := by
  simp only [Char.isDigit, Bool.and_eq_true, decide_eq_true_eq] at h
  exact ⟨h.1, h.2⟩

theorem ofDigitChars_lt (h : ∀ c ∈ cs, c.isDigit = true) : Nat.ofDigitChars 10 cs 0 < 10 ^ cs.length := by
  induction cs with
  | nil => decide
  | cons c rest ih =>
    have hc := digit_bounds (h c List.mem_cons_self)
    have hrest := ih fun d hd => h d (List.mem_cons_of_mem c hd)
    rw [Nat.ofDigitChars_cons, Nat.ofDigitChars_eq_ofDigitChars_zero, List.length_cons, Nat.pow_succ]
    have hone : '0'.toNat = 48 := rfl
    have hmul : 10 ^ rest.length * (10 * 0 + (c.toNat - '0'.toNat)) ≤ 10 ^ rest.length * 9 :=
      Nat.mul_le_mul_left _ (by omega)
    omega

/-- A number is its first digit, shifted by the rest, plus less than one such shift. -/
theorem decimal?_cons (h : decimal? (c :: cs) = some n) :
    c.isDigit = true ∧ (∀ d ∈ cs, d.isDigit = true) ∧
      ∃ r, r < 10 ^ cs.length ∧ n = 10 ^ cs.length * (c.toNat - 48) + r := by
  unfold decimal? at h
  split at h
  · cases h
  · rename_i hall
    simp only [List.isEmpty_cons, Bool.false_or, Bool.not_eq_true', Bool.not_eq_false, List.all_cons,
      Bool.and_eq_true, List.all_eq_true] at hall
    refine ⟨hall.1, hall.2, Nat.ofDigitChars 10 cs 0, ofDigitChars_lt hall.2, ?_⟩
    rw [Option.some.injEq, foldl_digits, Nat.ofDigitChars_cons, Nat.ofDigitChars_eq_ofDigitChars_zero] at h
    rw [← h]
    simp

/-! ## Keys -/

theorem rangeStart?_eq_some {start : List Char} (h : rangeStart? cs = some start) :
    ∃ a b, isX a = true ∧ isX b = true ∧ cs = start ++ [a, b] := by
  unfold rangeStart? at h
  split at h
  · rename_i b a rest hrev
    split at h
    · rename_i hx
      cases h
      rw [Bool.and_eq_true] at hx
      exact ⟨a, b, hx.2, hx.1, by simpa using congrArg List.reverse hrev⟩
    · cases h
  · cases h

/-- A range is one digit from 1 to 5 and two letters. -/
theorem parse_range {key : String} (h : parse? key = some (.range n)) :
    ∃ c a b, key.toList = [c, a, b] ∧ isX a = true ∧ isX b = true ∧ 49 ≤ c.toNat ∧ c.toNat ≤ 53 ∧
      n = 100 * (c.toNat - 48) := by
  unfold parse? ofChars? at h
  split at h
  · cases h
  · split at h
    · rename_i c hstart
      split at h
      · rename_i hc
        cases h
        obtain ⟨a, b, ha, hb, hcs⟩ := rangeStart?_eq_some hstart
        exact ⟨c, a, b, hcs, ha, hb, hc.1, hc.2, rfl⟩
      · cases h
    · cases h
    · simp only [Option.bind_eq_some_iff] at h
      obtain ⟨m, -, h⟩ := h
      split at h <;> cases h

theorem parse_code {key : String} (h : parse? key = some (.code n)) :
    unsigned? key.toList = some n ∧ 100 ≤ n ∧ n < 600 := by
  unfold parse? ofChars? at h
  split at h
  · cases h
  · split at h
    · split at h <;> cases h
    · cases h
    · simp only [Option.bind_eq_some_iff] at h
      obtain ⟨m, hm, h⟩ := h
      split at h
      · rename_i hbounds
        cases h
        exact ⟨hm, hbounds⟩
      · cases h

theorem parse_default_iff {key : String} : parse? key = some .default ↔ key = "default" := by
  constructor
  · intro h
    unfold parse? ofChars? at h
    split at h
    · rename_i hchars
      exact String.toList_inj.mp hchars
    · split at h
      · split at h <;> cases h
      · cases h
      · simp only [Option.bind_eq_some_iff] at h
        obtain ⟨m, -, h⟩ := h
        split at h <;> cases h
  · rintro rfl
    rfl

theorem range_mod {key : String} (h : parse? key = some (.range n)) : n % 100 = 0 := by
  obtain ⟨c, a, b, -, -, -, -, -, rfl⟩ := parse_range h
  omega

theorem lt_of_isX {d a : Char} (hd : d.isDigit = true) (ha : isX a = true) : d < a := by
  have hdigit := digit_bounds hd
  have hx : a.toNat = 120 ∨ a.toNat = 88 := by
    simp only [isX, Bool.or_eq_true, beq_iff_eq] at ha
    rcases ha with rfl | rfl
    · exact .inl rfl
    · exact .inr rfl
  have : d.toNat < a.toNat := by omega
  exact this

/-- Digits for a code come before the range with the same sort key. -/
theorem digits_lt_range {a b : Char} (h : decimal? cs = some (100 * (c.toNat - 48))) (hc : 49 ≤ c.toNat ∧ c.toNat ≤ 53)
    (ha : isX a = true) : cs < [c, a, b] := by
  cases cs with
  | nil => exact List.nil_lt_cons _ _
  | cons d ds =>
    obtain ⟨hd, hds, r, hr, hn⟩ := decimal?_cons h
    have hbounds := digit_bounds hd
    rw [List.cons_lt_cons_iff]
    by_cases hlt : d.toNat < c.toNat
    · exact .inl hlt
    · -- a first digit that is no less makes the number too large, unless there are just two more
      match ds, hds, hr, hn with
      | [], _, hr, hn => simp only [List.length_nil] at hr hn; omega
      | [x], _, hr, hn => simp only [List.length_cons, List.length_nil] at hr hn; omega
      | [x, y], hds, hr, hn =>
        simp only [List.length_cons, List.length_nil] at hr hn
        have heq : d.toNat = c.toNat := by omega
        refine .inr ⟨Char.toNat_inj.mp heq, ?_⟩
        rw [List.cons_lt_cons_iff]
        exact .inl (lt_of_isX (hds x List.mem_cons_self) ha)
      | x :: y :: z :: more, _, hr, hn =>
        simp only [List.length_cons, Nat.pow_succ] at hr hn
        have hpos : 0 < 10 ^ more.length := Nat.pow_pos (by decide)
        have hle : 1 * (d.toNat - 48) ≤ 10 ^ more.length * (d.toNat - 48) := Nat.mul_le_mul_right _ hpos
        have hassoc : 10 ^ more.length * 10 * 10 * 10 * (d.toNat - 48) = 1000 * (10 ^ more.length * (d.toNat - 48)) := by
          rw [← Nat.mul_assoc, show 10 ^ more.length * 10 * 10 * 10 = 1000 * 10 ^ more.length by omega]
        omega

/-- The key of a code is less than the key of the range that starts at the code. -/
theorem code_lt_range {key key' : String} (h : parse? key = some (.code n)) (h' : parse? key' = some (.range n)) :
    key < key' := by
  obtain ⟨c, a, b, hkey', ha, -, hlow, hhigh, rfl⟩ := parse_range h'
  obtain ⟨hn, -, -⟩ := parse_code h
  rw [String.lt_iff, hkey']
  unfold unsigned? at hn
  split at hn
  · rename_i rest hkey
    rw [hkey, List.cons_lt_cons_iff]
    have : '+'.toNat < c.toNat := by
      have : '+'.toNat = 43 := rfl
      omega
    exact .inl this
  · exact digits_lt_range hn ⟨hlow, hhigh⟩ ha

end ClientGen.Status

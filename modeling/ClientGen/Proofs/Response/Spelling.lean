import ClientGen.Proofs.Response.Key

/-
  ClientGen.Proofs.Response.Spelling — how the key of a response may be spelled.

  A status has few spellings (`Spells`): `default`, the numeral of a code from 100 to 599, or a
  digit from 1 to 5 with two letters x. Reading keeps to these but for codes, which it reads as
  numbers do: a plus sign and zeros may stand in front (`padded`).
  - A run of digits has the value `n` exactly when it is the numeral of `n` behind some zeros
    (`decimal?_eq_some_iff`).
  - So the keys that are read as a code, and as a range, are known (`parse_code_iff`,
    `parse_range_iff`), and a key is read by its spelling unless it is a padded code
    (`parse_spells_iff`).
-/

namespace ClientGen.Status

variable {n : Nat} {c : Char} {cs : List Char} {key : String} {st : Status}

/-- The spellings of a status. -/
inductive Spells : String → Status → Prop
  | default : Spells "default" .default
  | code {n : Nat} : 100 ≤ n → n ≤ 599 → Spells (toString n) (.code n)
  | range {d : Nat} {a b : Char} : 1 ≤ d → d ≤ 5 → isX a = true → isX b = true →
      Spells (toString d ++ String.ofList [a, b]) (.range (100 * d))

def padding (signed : Bool) (zeros : Nat) : List Char := (if signed then ['+'] else []) ++ List.replicate zeros '0'

/-- The numeral of `n` with a plus sign or zeros in front. -/
def padded (signed : Bool) (zeros n : Nat) : String := String.ofList (padding signed zeros) ++ toString n

/-- The numeral of a code with something in front of it. -/
def Padded (key : String) : Prop :=
  ∃ signed zeros n, (signed = true ∨ 0 < zeros) ∧ 100 ≤ n ∧ n ≤ 599 ∧ key = padded signed zeros n

/-! ## Digits -/

theorem digitChar_of_isDigit (h : c.isDigit = true) : Nat.digitChar (c.toNat - 48) = c := by
  have hbounds := digit_bounds h
  apply Char.toNat_inj.mp
  rw [Nat.toNat_digitChar_of_lt_ten (by omega)]
  omega

theorem toDigits_append_digits {first : Nat} (hfirst : 0 < first) (h : ∀ c ∈ cs, c.isDigit = true) :
    Nat.toDigits 10 first ++ cs = Nat.toDigits 10 (Nat.ofDigitChars 10 cs first) := by
  induction cs generalizing first with
  | nil => simp
  | cons c rest ih =>
    have hc : c.isDigit = true := h c List.mem_cons_self
    have hbounds := digit_bounds hc
    have hdigit : c.toNat - 48 < 10 := by omega
    have hnext : Nat.toDigits 10 first ++ [c] = Nat.toDigits 10 (10 * first + (c.toNat - 48)) := by
      rw [← Nat.toDigits_append_toDigits (by decide) hfirst hdigit, Nat.toDigits_of_lt_base hdigit,
        digitChar_of_isDigit hc]
    calc Nat.toDigits 10 first ++ c :: rest
        = (Nat.toDigits 10 first ++ [c]) ++ rest := by simp
      _ = Nat.toDigits 10 (10 * first + (c.toNat - 48)) ++ rest := by rw [hnext]
      _ = Nat.toDigits 10 (Nat.ofDigitChars 10 rest (10 * first + (c.toNat - 48))) :=
        ih (by omega) fun d hd => h d (List.mem_cons_of_mem c hd)
      _ = Nat.toDigits 10 (Nat.ofDigitChars 10 (c :: rest) first) := by rw [Nat.ofDigitChars_cons]; rfl

/-- Digits are the numeral of their value, behind zeros. -/
theorem exists_zeros (hne : cs ≠ []) (h : ∀ c ∈ cs, c.isDigit = true) :
    ∃ zeros, cs = List.replicate zeros '0' ++ Nat.toDigits 10 (Nat.ofDigitChars 10 cs 0) := by
  induction cs with
  | nil => exact absurd rfl hne
  | cons c rest ih =>
    have hc : c.isDigit = true := h c List.mem_cons_self
    have hrest : ∀ d ∈ rest, d.isDigit = true := fun d hd => h d (List.mem_cons_of_mem c hd)
    have hbounds := digit_bounds hc
    have hvalue : Nat.ofDigitChars 10 (c :: rest) 0 = Nat.ofDigitChars 10 rest (c.toNat - 48) := by
      rw [Nat.ofDigitChars_cons, Nat.mul_zero, Nat.zero_add]
      rfl
    rw [hvalue]
    by_cases hzero : c.toNat = 48
    · obtain rfl : c = '0' := Char.toNat_inj.mp hzero
      by_cases hnil : rest = []
      · subst hnil
        exact ⟨0, rfl⟩
      · obtain ⟨zeros, heq⟩ := ih hnil hrest
        exact ⟨zeros + 1, congrArg ('0' :: ·) heq⟩
    · have hdigit : c.toNat - 48 < 10 := by omega
      have hpos : 0 < c.toNat - 48 := by omega
      have happend := toDigits_append_digits hpos hrest
      rw [Nat.toDigits_of_lt_base hdigit, digitChar_of_isDigit hc] at happend
      exact ⟨0, happend⟩

theorem decimal?_eq_some : decimal? cs = some n ↔
    cs ≠ [] ∧ (∀ c ∈ cs, c.isDigit = true) ∧ Nat.ofDigitChars 10 cs 0 = n := by
  rw [decimal?, foldl_digits]
  split
  · rename_i hbad
    rw [Bool.or_eq_true, List.isEmpty_iff, Bool.not_eq_true', ← Bool.not_eq_true, List.all_eq_true] at hbad
    constructor
    · intro h
      cases h
    · rintro ⟨hne, hall, -⟩
      exact absurd hall (hbad.resolve_left hne)
  · rename_i hgood
    rw [Bool.or_eq_true, List.isEmpty_iff, Bool.not_eq_true', ← Bool.not_eq_true, List.all_eq_true, not_or,
      not_not] at hgood
    rw [Option.some.injEq]
    exact ⟨fun h => ⟨hgood.1, hgood.2, h⟩, fun h => h.2.2⟩

theorem decimal?_eq_some_iff : decimal? cs = some n ↔ ∃ zeros, cs = List.replicate zeros '0' ++ Nat.toDigits 10 n := by
  rw [decimal?_eq_some]
  constructor
  · rintro ⟨hne, hall, rfl⟩
    exact exists_zeros hne hall
  · rintro ⟨zeros, rfl⟩
    refine ⟨by simp, ?_, ?_⟩
    · intro c hc
      rcases List.mem_append.mp hc with hc | hc
      · rw [List.eq_of_mem_replicate hc]
        rfl
      · exact Nat.isDigit_of_mem_toDigits (by decide) (by decide) hc
    · rw [Nat.ofDigitChars_append, Nat.ofDigitChars_replicate_zero, Nat.mul_zero, Nat.ofDigitChars_ten_toDigits]

/-! ## Codes and ranges -/

theorem toList_padded (signed : Bool) (zeros n : Nat) :
    (padded signed zeros n).toList = padding signed zeros ++ Nat.toDigits 10 n := by
  rw [padded, String.toList_append, String.toList_ofList, Nat.toString_eq_repr, Nat.toList_repr]

theorem sign_or_digit {signed : Bool} {zeros : Nat} (h : c ∈ (padded signed zeros n).toList) :
    c = '+' ∨ c.isDigit = true := by
  rw [toList_padded, padding, List.append_assoc] at h
  rcases List.mem_append.mp h with h | h
  · split at h
    · exact .inl (List.mem_singleton.mp h)
    · cases h
  · exact .inr ((decimal?_eq_some.mp (decimal?_eq_some_iff.mpr ⟨zeros, rfl⟩)).2.1 c h)

theorem unsigned?_eq_some_iff : unsigned? key.toList = some n ↔ ∃ signed zeros, key = padded signed zeros n := by
  have hpadded {signed : Bool} {zeros : Nat} :
      key = padded signed zeros n ↔ key.toList = padding signed zeros ++ Nat.toDigits 10 n := by
    rw [← toList_padded, String.toList_inj]
  simp only [hpadded, padding, Bool.exists_bool, List.append_assoc, Bool.false_eq_true, if_false, if_true,
    List.nil_append, List.singleton_append]
  unfold unsigned?
  split
  · rename_i rest hkey
    rw [hkey, decimal?_eq_some_iff]
    have hdigits : ¬ ∃ zeros, '+' :: rest = List.replicate zeros '0' ++ Nat.toDigits 10 n := by
      rw [← decimal?_eq_some_iff, decimal?_eq_some]
      rintro ⟨-, hall, -⟩
      exact absurd (hall '+' List.mem_cons_self) (by decide)
    simp only [List.cons.injEq, true_and, hdigits, false_or]
  · rename_i hplus
    rw [decimal?_eq_some_iff]
    have hsigned : ¬ ∃ zeros, key.toList = '+' :: (List.replicate zeros '0' ++ Nat.toDigits 10 n) := by
      rintro ⟨zeros, hkey⟩
      exact hplus _ hkey
    rw [or_iff_left hsigned]

theorem parse_code_iff :
    parse? key = some (.code n) ↔ 100 ≤ n ∧ n ≤ 599 ∧ ∃ signed zeros, key = padded signed zeros n := by
  constructor
  · intro h
    obtain ⟨hvalue, hlow, hhigh⟩ := parse_code h
    exact ⟨hlow, by omega, unsigned?_eq_some_iff.mp hvalue⟩
  · rintro ⟨hlow, hhigh, signed, zeros, rfl⟩
    have hdefault : (padded signed zeros n).toList ≠ ['d', 'e', 'f', 'a', 'u', 'l', 't'] := by
      intro h
      rcases sign_or_digit (c := 'd') (h ▸ List.mem_cons_self) with hd | hd <;> cases hd
    have hrange : rangeStart? (padded signed zeros n).toList = none := by
      rw [Option.eq_none_iff_forall_ne_some]
      intro start hstart
      obtain ⟨a, b, -, hb, hcs⟩ := rangeStart?_eq_some hstart
      have hmem : b ∈ (padded signed zeros n).toList := by simp [hcs]
      rcases sign_or_digit hmem with rfl | hdigit
      · cases hb
      · exact absurd (lt_of_isX hdigit hb) (Char.lt_irrefl b)
    rw [parse?, ofChars?, if_neg hdefault, hrange]
    simp only [unsigned?_eq_some_iff.mpr ⟨signed, zeros, rfl⟩, Option.bind_some]
    rw [if_pos ⟨hlow, by omega⟩]

theorem parse_range_iff : parse? key = some (.range n) ↔
    ∃ d a b, 1 ≤ d ∧ d ≤ 5 ∧ isX a = true ∧ isX b = true ∧ key = toString d ++ String.ofList [a, b] ∧ n = 100 * d := by
  have hkey {d : Nat} (hd : d ≤ 5) (a b : Char) :
      key = toString d ++ String.ofList [a, b] ↔ key.toList = [Nat.digitChar d, a, b] := by
    rw [← String.toList_inj, String.toList_append, Nat.toString_eq_repr, Nat.toList_repr,
      Nat.toDigits_of_lt_base (by omega), String.toList_ofList]
    rfl
  constructor
  · intro h
    obtain ⟨c, a, b, hchars, ha, hb, hlow, hhigh, rfl⟩ := parse_range h
    have hdigit : c.isDigit = true := by
      simp only [Char.isDigit, Bool.and_eq_true, decide_eq_true_eq]
      exact ⟨show 48 ≤ c.toNat by omega, show c.toNat ≤ 57 by omega⟩
    refine ⟨c.toNat - 48, a, b, by omega, by omega, ha, hb, (hkey (by omega) a b).mpr ?_, rfl⟩
    rw [digitChar_of_isDigit hdigit, hchars]
  · rintro ⟨d, a, b, hlow, hhigh, ha, hb, hspelled, rfl⟩
    rw [parse?, (hkey hhigh a b).mp hspelled, ofChars?, if_neg (by simp)]
    have hstart : rangeStart? [Nat.digitChar d, a, b] = some [Nat.digitChar d] := by simp [rangeStart?, ha, hb]
    have hvalue : (Nat.digitChar d).toNat = 48 + d := Nat.toNat_digitChar_of_lt_ten (by omega)
    have hbounds : '1' ≤ Nat.digitChar d ∧ Nat.digitChar d ≤ '5' :=
      ⟨show 49 ≤ (Nat.digitChar d).toNat by omega, show (Nat.digitChar d).toNat ≤ 53 by omega⟩
    simp only [hstart]
    rw [if_pos hbounds, hvalue, show 48 + d - '0'.toNat = d from Nat.add_sub_cancel_left 48 d]

/-! ## Spellings -/

theorem padded_plain (n : Nat) : padded false 0 n = toString n := by
  apply String.toList_inj.mp
  rw [toList_padded, Nat.toString_eq_repr, Nat.toList_repr]
  rfl

/-- A numeral with something in front is no numeral. -/
theorem plain_of_padded_eq {signed : Bool} {zeros m : Nat} (h : padded signed zeros n = toString m) (hn : n = m) :
    signed = false ∧ zeros = 0 := by
  subst hn
  have hlength : (padding signed zeros ++ Nat.toDigits 10 n).length = (Nat.toDigits 10 n).length := by
    rw [← toList_padded, h, Nat.toString_eq_repr, Nat.toList_repr]
  cases signed with
  | true =>
    simp [padding] at hlength
    omega
  | false => simpa [padding] using hlength

theorem parse_of_padded (h : Padded key) : ∃ n, parse? key = some (.code n) ∧ ¬ Spells key (.code n) := by
  obtain ⟨signed, zeros, n, hpad, hlow, hhigh, rfl⟩ := h
  refine ⟨n, parse_code_iff.mpr ⟨hlow, hhigh, signed, zeros, rfl⟩, ?_⟩
  intro hspells
  generalize hkey : padded signed zeros n = key at hspells
  cases hspells with
  | code _ _ =>
    obtain ⟨rfl, rfl⟩ := plain_of_padded_eq hkey rfl
    rcases hpad with hpad | hpad <;> cases hpad

theorem parse_eq_some_iff (h : ¬ Padded key) : parse? key = some st ↔ Spells key st := by
  cases st with
  | default =>
    rw [parse_default_iff]
    constructor
    · rintro rfl
      exact .default
    · rintro ⟨⟩
      rfl
  | code n =>
    rw [parse_code_iff]
    constructor
    · rintro ⟨hlow, hhigh, signed, zeros, rfl⟩
      have hplain : ¬ (signed = true ∨ 0 < zeros) := fun hpad => h ⟨signed, zeros, n, hpad, hlow, hhigh, rfl⟩
      obtain ⟨rfl, rfl⟩ : signed = false ∧ zeros = 0 := by simpa using hplain
      rw [padded_plain]
      exact .code hlow hhigh
    · rintro ⟨⟩
      exact ⟨‹_›, ‹_›, false, 0, (padded_plain n).symm⟩
  | range n =>
    rw [parse_range_iff]
    constructor
    · rintro ⟨d, a, b, hlow, hhigh, ha, hb, rfl, rfl⟩
      exact .range hlow hhigh ha hb
    · intro hspells
      cases hspells with
      | @range d a b hlow hhigh ha hb => exact ⟨d, a, b, hlow, hhigh, ha, hb, rfl, rfl⟩

/-- A key is read exactly by its spelling unless it is a code with a plus sign or zeros in front,
    and these are read as the code. -/
theorem parse_spells_iff (key : String) :
    ((∀ st, parse? key = some st ↔ Spells key st) ↔ ¬ Padded key) ∧
      ∀ n, parse? key = some (.code n) ↔ 100 ≤ n ∧ n ≤ 599 ∧ ∃ signed zeros, key = padded signed zeros n := by
  refine ⟨⟨?_, fun h st => parse_eq_some_iff h⟩, fun n => parse_code_iff⟩
  intro hall hpadded
  obtain ⟨n, hparse, hspells⟩ := parse_of_padded hpadded
  exact hspells ((hall (.code n)).mp hparse)

/-- A code with a plus sign in front is read, and that is not how the code is spelled. -/
theorem signed_code_parses : parse? "+200" = some (.code 200) ∧
    ¬ ∀ st, parse? "+200" = some st ↔ Spells "+200" st := by
  have hpadded : Padded "+200" := ⟨true, 0, 200, .inl rfl, by decide, by decide, by decide⟩
  refine ⟨by decide, ?_⟩
  intro hall
  obtain ⟨n, hparse, hspells⟩ := parse_of_padded hpadded
  exact hspells ((hall (.code n)).mp hparse)

end ClientGen.Status

import Mathlib
import ClientGen.Name.Identifier
import ClientGen.Name.Singular
import ClientGen.Proofs.Names.Word

/-
  ClientGen.Proofs.Names.Letter — which names begin with a letter.

  Changing case makes letters of letters and leaves everything else as it is (`toUpper_letter`,
  `toUpper_eq_self`, `toLower_letter`). So a name in proper form begins with a letter exactly if
  the first alphanumeric character of its text is one (`lettered_proper_iff`): a text that begins
  with a digit gives a name that does, and one without words gives none. An identifier is guarded
  against both, but against no digit beyond ASCII (`lettered_identifier_iff`).
  - The tables of letters and of case are large. They are compared as sets of bits, where one
    operation on natural numbers compares a whole run (`testBit_spanBits`, `allLetters`).
-/

namespace ClientGen

namespace Unicode

/-! ## Letters as bits -/

/-- The code points from the first to the last, each a bit. -/
def spanBits (s : Nat × Nat) : Nat := (2 ^ (s.2 + 1 - s.1) - 1) <<< s.1

def bitsOf (table : List (Nat × Nat)) : Nat := table.foldr (fun s bits => spanBits s ||| bits) 0

/-- Every `step`-th number up to `width`. -/
def stride (width step : Nat) : List Nat := (List.range (width / step + 1)).map (· * step)

def pointBits (points : List Nat) : Nat := points.foldr (fun n bits => 1 <<< n ||| bits) 0

theorem testBit_spanBits (s : Nat × Nat) (n : Nat) :
    (spanBits s).testBit n = (decide (s.1 ≤ n) && decide (n ≤ s.2)) := by
  rw [spanBits, Nat.testBit_shiftLeft, Nat.testBit_two_pow_sub_one, Bool.eq_iff_iff]
  simp only [Bool.and_eq_true, decide_eq_true_eq, ge_iff_le]
  omega

theorem testBit_bitsOf (table : List (Nat × Nat)) (n : Nat) : (bitsOf table).testBit n = inSpans table n := by
  induction table with
  | nil => simp [bitsOf, inSpans]
  | cons s rest ih => rw [bitsOf, List.foldr_cons, Nat.testBit_or, testBit_spanBits, ← bitsOf, ih]; rfl

theorem testBit_pointBits {points : List Nat} {n : Nat} (h : n ∈ points) : (pointBits points).testBit n = true := by
  induction points with
  | nil => cases h
  | cons m rest ih =>
    rw [pointBits, List.foldr_cons, Nat.testBit_or, ← pointBits, Bool.or_eq_true]
    rcases List.mem_cons.mp h with rfl | h
    · simp
    · exact .inr (ih h)

theorem mem_stride {width step n : Nat} (hn : n ≤ width) (hstep : n % step = 0) : n ∈ stride width step := by
  refine List.mem_map.mpr ⟨n / step, List.mem_range.mpr ?_, ?_⟩
  · exact Nat.lt_succ_of_le (Nat.div_le_div_right hn)
  · exact Nat.div_mul_cancel (Nat.dvd_of_mod_eq_zero hstep)

/-- The letters, those of ASCII among them. -/
def letterSpans : List (Nat × Nat) := (0x41, 0x5A) :: (0x61, 0x7A) :: alphabeticSpans

/-- The table of letters starts behind ASCII and leaves out the surrogates. -/
theorem alphabeticSpans_valid :
    ∀ s ∈ alphabeticSpans, 0x80 ≤ s.1 ∧ (s.2 < 0xD800 ∨ 0xDFFF < s.1 ∧ s.2 < 0x110000) := by decide +kernel

theorem isAlphabetic_eq (c : Char) : isAlphabetic c = inSpans letterSpans c.toNat := by
  have hcode : c.val.toNat = c.toNat := rfl
  unfold isAlphabetic
  split
  · rename_i hascii
    have hnone : inSpans alphabeticSpans c.toNat = false := by
      refine Bool.eq_false_iff.mpr fun hin => ?_
      obtain ⟨s, hs, hlo, -⟩ := inSpans_iff.mp hin
      exact absurd (alphabeticSpans_valid s hs).1 (by omega)
    rw [Bool.eq_iff_iff, letterSpans, inSpans, List.any_cons, List.any_cons, ← inSpans, hnone]
    simp only [Char.isAlpha, Char.isUpper, Char.isLower, Bool.or_eq_true, Bool.and_eq_true, decide_eq_true_eq,
      ge_iff_le, UInt32.le_iff_toNat_le, hcode, Bool.or_false]
    rfl
  · rename_i hbeyond
    have hsmall : ¬ c.toNat ≤ 0x5A ∧ ¬ c.toNat ≤ 0x7A := by omega
    simp [letterSpans, inSpans, hsmall]

/-- Whether every `step`-th code point from `lo` to `hi` is a letter. The bits are counted from `lo`. -/
def allLetters (lo hi step : Nat) : Bool :=
  Nat.beq (pointBits (stride (hi - lo) step) &&& bitsOf letterSpans >>> lo) (pointBits (stride (hi - lo) step))

theorem inSpans_of_allLetters {lo hi step n : Nat} (h : allLetters lo hi step = true) (hlo : lo ≤ n) (hhi : n ≤ hi)
    (hstep : (n - lo) % step = 0) : inSpans letterSpans n = true := by
  have hbits := Nat.eq_of_beq_eq_true h
  have hpoint := testBit_pointBits (mem_stride (Nat.sub_le_sub_right hhi lo) hstep)
  rw [← hbits, Nat.testBit_and, Bool.and_eq_true, Nat.testBit_shiftRight, testBit_bitsOf,
    Nat.add_sub_cancel' hlo] at hpoint
  exact hpoint.2

/-- The code points of letters are those of characters. -/
theorem isAlphabetic_ofNat {n : Nat} (h : inSpans letterSpans n = true) : isAlphabetic (Char.ofNat n) = true := by
  have htable : ∀ s ∈ letterSpans, s.2 < 0xD800 ∨ 0xDFFF < s.1 ∧ s.2 < 0x110000 :=
    List.forall_mem_cons.mpr ⟨by decide, List.forall_mem_cons.mpr ⟨by decide, fun s hs => (alphabeticSpans_valid s hs).2⟩⟩
  obtain ⟨s, hs, hlo, hhi⟩ := inSpans_iff.mp h
  have hvalid : n.isValidChar := by
    rcases htable s hs with hbelow | ⟨habove, hlast⟩
    · exact .inl (by omega)
    · exact .inr ⟨by omega, by omega⟩
  rw [isAlphabetic_eq, Char.toNat_ofNat, if_pos hvalid]
  exact h

/-! ## Case -/

/-- A run from letters to letters. -/
def CaseRun.keepsLetters (r : CaseRun) : Bool :=
  allLetters r.lo r.hi r.step && allLetters r.start (r.start + (r.hi - r.lo)) r.step

/-- A letter and the text that begins with one. -/
def keepsLetter (e : Nat × List Nat) : Bool := inSpans letterSpans e.1 && e.2.head?.any (inSpans letterSpans)

theorem CaseRun.letters_of_image {r : CaseRun} (hr : r.keepsLetters = true) {n m : Nat} (h : r.image? n = some m) :
    inSpans letterSpans n = true ∧ inSpans letterSpans m = true := by
  simp only [CaseRun.keepsLetters, Bool.and_eq_true] at hr
  unfold CaseRun.image? at h
  split at h
  · rename_i hin
    simp only [Bool.and_eq_true, decide_eq_true_eq, beq_iff_eq] at hin
    cases h
    refine ⟨inSpans_of_allLetters hr.1 hin.1.1 hin.1.2 hin.2, ?_⟩
    refine inSpans_of_allLetters hr.2 (Nat.le_add_right ..) ?_ ?_
    · omega
    · rw [Nat.add_sub_cancel_left]
      exact hin.2
  · cases h

section mapCase

variable {runs : List CaseRun} {expansions : List (Nat × List Nat)} {c : Char}

/-- A mapping between letters makes a letter of a letter, in front of the rest. -/
theorem mapCase_letter (hruns : ∀ r ∈ runs, r.keepsLetters = true)
    (hexpansions : ∀ e ∈ expansions, keepsLetter e = true) (hc : isAlphabetic c = true) :
    ∃ d rest, mapCase runs expansions c = d :: rest ∧ isAlphabetic d = true := by
  unfold mapCase
  split
  · rename_i codes hlookup
    obtain ⟨before, after, rfl, -⟩ := List.lookup_eq_some_iff.mp hlookup
    have hkeeps := hexpansions (c.toNat, codes) (by simp)
    simp only [keepsLetter, Bool.and_eq_true] at hkeeps
    cases codes with
    | nil => cases hkeeps.2
    | cons code more => exact ⟨Char.ofNat code, more.map Char.ofNat, rfl, isAlphabetic_ofNat hkeeps.2⟩
  · refine ⟨_, [], rfl, ?_⟩
    cases hfound : runs.findSome? (·.image? c.toNat) with
    | none => exact hc
    | some m =>
      obtain ⟨r, hr, himage⟩ := List.exists_of_findSome?_eq_some hfound
      exact isAlphabetic_ofNat (r.letters_of_image (hruns r hr) himage).2

/-- A mapping between letters leaves everything else as it is. -/
theorem mapCase_eq_self (hruns : ∀ r ∈ runs, r.keepsLetters = true)
    (hexpansions : ∀ e ∈ expansions, keepsLetter e = true) (hc : isAlphabetic c = false) :
    mapCase runs expansions c = [c] := by
  rw [isAlphabetic_eq] at hc
  unfold mapCase
  split
  · rename_i codes hlookup
    obtain ⟨before, after, rfl, -⟩ := List.lookup_eq_some_iff.mp hlookup
    have hkeeps := hexpansions (c.toNat, codes) (by simp)
    simp [keepsLetter, hc] at hkeeps
  · cases hfound : runs.findSome? (·.image? c.toNat) with
    | none => rfl
    | some m =>
      obtain ⟨r, hr, himage⟩ := List.exists_of_findSome?_eq_some hfound
      rw [(r.letters_of_image (hruns r hr) himage).1] at hc
      cases hc

end mapCase

/-- The tables of case lead from letters to letters. -/
theorem tables_keepLetters :
    (∀ r ∈ upperRuns ++ lowerRuns, r.keepsLetters = true) ∧
      (∀ e ∈ upperExpansions ++ lowerExpansions, keepsLetter e = true) ∧
      ∀ e ∈ uppercaseStrides, allLetters e.1 e.2.1 e.2.2 = true := by
  have htest : inSpans letterSpans = (bitsOf letterSpans).testBit := funext fun n => (testBit_bitsOf _ n).symm
  unfold keepsLetter
  rw [htest]
  -- one evaluation for all tables, in which the letters are made into bits once
  simp only [← List.all_eq_true, ← Bool.and_eq_true]
  decide +kernel

theorem upper_keepsLetters :
    (∀ r ∈ upperRuns, r.keepsLetters = true) ∧ ∀ e ∈ upperExpansions, keepsLetter e = true :=
  ⟨fun r hr => tables_keepLetters.1 r (List.mem_append_left _ hr),
    fun e he => tables_keepLetters.2.1 e (List.mem_append_left _ he)⟩

theorem lower_keepsLetters :
    (∀ r ∈ lowerRuns, r.keepsLetters = true) ∧ ∀ e ∈ lowerExpansions, keepsLetter e = true :=
  ⟨fun r hr => tables_keepLetters.1 r (List.mem_append_right _ hr),
    fun e he => tables_keepLetters.2.1 e (List.mem_append_right _ he)⟩

theorem isAlphabetic_ascii {c : Char} (h : c.toNat < 0x80) : isAlphabetic c = c.isAlpha := by simp [isAlphabetic, h]

theorem toUpper_letter {c : Char} (hc : isAlphabetic c = true) :
    ∃ d rest, toUpper c = d :: rest ∧ isAlphabetic d = true := by
  by_cases hascii : c.toNat < 0x80
  · rw [isAlphabetic_ascii hascii, ← Char.isAlpha_toUpper_eq_isAlpha] at hc
    have hupper : c.toUpper.toNat < 0x80 := Name.lt_of_isAlphanum (by simp [Char.isAlphanum, hc])
    exact ⟨c.toUpper, [], toUpper_ascii hascii, isAlphabetic_of_isAlpha hupper hc⟩
  · rw [toUpper, if_neg hascii]
    exact mapCase_letter upper_keepsLetters.1 upper_keepsLetters.2 hc

theorem toUpper_eq_self {c : Char} (hc : isAlphabetic c = false) : toUpper c = [c] := by
  by_cases hascii : c.toNat < 0x80
  · rw [isAlphabetic_ascii hascii] at hc
    have hlower : ¬ c.isLower = true := by
      intro hlower
      simp [Char.isAlpha, hlower] at hc
    rw [toUpper_ascii hascii, Char.toUpper_eq_of_not_isLower hlower]
  · rw [toUpper, if_neg hascii]
    exact mapCase_eq_self upper_keepsLetters.1 upper_keepsLetters.2 hc

theorem toLower_letter {c : Char} (hc : isAlphabetic c = true) :
    ∃ d rest, toLower c = d :: rest ∧ isAlphabetic d = true := by
  by_cases hascii : c.toNat < 0x80
  · rw [isAlphabetic_ascii hascii, ← Char.isAlpha_toLower_eq_isAlpha] at hc
    have hlower : c.toLower.toNat < 0x80 := Name.lt_of_isAlphanum (by simp [Char.isAlphanum, hc])
    exact ⟨c.toLower, [], toLower_ascii hascii, isAlphabetic_of_isAlpha hlower hc⟩
  · rw [toLower, if_neg hascii]
    exact mapCase_letter lower_keepsLetters.1 lower_keepsLetters.2 hc

/-- Capitals are letters. -/
theorem isAlphabetic_of_isUppercase {c : Char} (h : isUppercase c = true) : isAlphabetic c = true := by
  unfold isUppercase at h
  split at h
  · rename_i hascii
    exact isAlphabetic_of_isAlpha hascii (by simp [Char.isAlpha, h])
  · obtain ⟨e, he, hin⟩ := List.any_eq_true.mp h
    simp only [Bool.and_eq_true, decide_eq_true_eq, beq_iff_eq] at hin
    rw [isAlphabetic_eq]
    exact inSpans_of_allLetters (tables_keepLetters.2.2 e he) hin.1.1 hin.1.2 hin.2

end Unicode

open Unicode

/-- A text that begins with a letter. -/
def Lettered (s : String) : Prop := s.toList.head?.any isAlphabetic = true

instance (s : String) : Decidable (Lettered s) := inferInstanceAs (Decidable (_ = true))

theorem lettered_iff {s : String} : Lettered s ↔ ∃ c rest, s.toList = c :: rest ∧ isAlphabetic c = true := by
  rw [Lettered]
  cases s.toList with
  | nil => simp
  | cons c rest => simp

theorem lettered_ofList {cs : List Char} : Lettered (String.ofList cs) ↔ cs.head?.any isAlphabetic = true := by
  rw [Lettered, String.toList_ofList]

theorem Lettered.append {s : String} (h : Lettered s) (t : String) : Lettered (s ++ t) := by
  obtain ⟨c, rest, hs, hc⟩ := lettered_iff.mp h
  exact lettered_iff.mpr ⟨c, rest ++ t.toList, by rw [String.toList_append, hs]; rfl, hc⟩

namespace Name

/-! ## Words -/

theorem isAlphanumeric_of_isUppercase {c : Char} (h : isUppercase c = true) : isAlphanumeric c = true := by
  simp [isAlphanumeric, isAlphabetic_of_isUppercase h]

/-- What a character of the text is in its word. -/
def smallForm (c : Char) : List Char := if isUppercase c then toLower c else [c]

theorem smallForm_ascii {c : Char} (h : c.toNat < 0x80) : smallForm c = [c.toLower] := by
  unfold smallForm
  rw [isUppercase_ascii h]
  split
  · exact toLower_ascii h
  · rename_i hupper
    rw [Char.toLower_eq_of_not_isUpper hupper]

theorem scanWords_of_none {cs : List Char} {prev : Option Char} (h : cs.find? isAlphanumeric = none) :
    scanWords prev [] cs = [] := by
  induction cs generalizing prev with
  | nil => rfl
  | cons c rest ih =>
    obtain ⟨hc, hrest⟩ := List.forall_mem_cons.mp (List.find?_eq_none.mp h)
    have hupper : ¬ isUppercase c = true := mt isAlphanumeric_of_isUppercase hc
    rw [scanWords, if_neg hupper, if_neg hc, ih (List.find?_eq_none.mpr hrest)]
    rfl

/-- The first word begins with the first alphanumeric character, in small form. -/
theorem scanWords_of_some {cs : List Char} {prev : Option Char} {c : Char} (h : cs.find? isAlphanumeric = some c) :
    ∃ more words, scanWords prev [] cs = (smallForm c ++ more) :: words := by
  induction cs generalizing prev with
  | nil => cases h
  | cons d rest ih =>
    by_cases hd : isAlphanumeric d = true
    · obtain rfl : d = c := by simpa [hd] using h
      rw [scanWords, smallForm]
      split
      · rename_i hupper
        obtain ⟨e, es, hlower, -⟩ := toLower_letter (isAlphabetic_of_isUppercase hupper)
        have hne : (toLower d).reverse ≠ [] := by simp [hlower]
        obtain ⟨more, words, heq⟩ := @scanWords_begun rest _ (some d) hne
        rw [List.reverse_reverse] at heq
        refine ⟨more, words, ?_⟩
        split
        · exact heq
        · rw [List.append_nil]
          exact heq
      · exact @scanWords_begun rest [d] (some d) (by simp)
    · have hupper : ¬ isUppercase d = true := mt isAlphanumeric_of_isUppercase hd
      rw [List.find?_cons_of_neg hd] at h
      rw [scanWords, if_neg hupper, if_neg hd]
      exact ih h

/-! ## The proper form -/

variable {cs : List Char} {c : Char}

theorem properChars_of_none (h : cs.find? isAlphanumeric = none) : properChars cs = [] := by
  rw [properChars, words, scanWords_of_none h]
  rfl

theorem properChars_of_letter (h : cs.find? isAlphanumeric = some c) (hc : isAlphabetic c = true) :
    ∃ d rest, properChars cs = d :: rest ∧ isAlphabetic d = true := by
  obtain ⟨more, words, heq⟩ := @scanWords_of_some cs none c h
  have hsmall : ∃ d rest, smallForm c = d :: rest ∧ isAlphabetic d = true := by
    unfold smallForm
    split
    · exact toLower_letter hc
    · exact ⟨c, [], rfl, hc⟩
  obtain ⟨d, rest, hd, hletter⟩ := hsmall
  obtain ⟨e, es, he, hcapital⟩ := toUpper_letter hletter
  refine ⟨e, es ++ rest ++ more ++ words.flatMap capitalize, ?_, hcapital⟩
  rw [properChars, Name.words, heq, hd]
  simp [capitalize, he]

theorem properChars_of_digit (h : cs.find? isAlphanumeric = some c) (hc : isAlphabetic c = false) :
    ∃ rest, properChars cs = c :: rest := by
  obtain ⟨more, words, heq⟩ := @scanWords_of_some cs none c h
  have hupper : ¬ isUppercase c = true := by
    intro hupper
    rw [isAlphabetic_of_isUppercase hupper] at hc
    cases hc
  refine ⟨more ++ words.flatMap capitalize, ?_⟩
  rw [properChars, Name.words, heq, smallForm, if_neg hupper]
  simp [capitalize, toUpper_eq_self hc]

/-- A text whose first word begins with a letter. -/
def WordFirst (s : String) : Prop := (s.toList.find? isAlphanumeric).any isAlphabetic = true

instance (s : String) : Decidable (WordFirst s) := inferInstanceAs (Decidable (_ = true))

/-- A name in proper form begins with a letter exactly if the first word of its text does. -/
theorem lettered_proper_iff (s : String) : Lettered (proper s) ↔ WordFirst s := by
  rw [proper, lettered_ofList, WordFirst]
  cases h : s.toList.find? isAlphanumeric with
  | none => simp [properChars_of_none h]
  | some c =>
    cases hc : isAlphabetic c with
    | true =>
      obtain ⟨d, rest, hproper, hd⟩ := properChars_of_letter h hc
      simp [hproper, hd, hc]
    | false =>
      obtain ⟨rest, hproper⟩ := properChars_of_digit h hc
      simp [hproper, hc]

/-! ## Identifiers and singulars -/

/-- A text with a sign in front, or without a word, or whose first word begins with a letter or an
    ASCII digit. -/
def Guarded (s : String) : Prop :=
  (splitSignChars s.toList).1 ≠ [] ∨
    ∀ c ∈ (splitSignChars s.toList).2.find? isAlphanumeric, isAlphabetic c = true ∨ c.isDigit = true

instance (s : String) : Decidable (Guarded s) := inferInstanceAs (Decidable (_ ∨ _))

theorem isAlphabetic_guard : isAlphabetic 'N' = true := by decide

theorem identifierChars_letter {d : Char} {rest : List Char} (h : spelledChars cs = d :: rest)
    (hd : isAlphabetic d = true) : (identifierChars cs).head?.any isAlphabetic = true := by
  rw [identifierChars, h]
  dsimp only
  split
  · exact isAlphabetic_guard
  · exact hd

theorem spelledChars_eq (cs : List Char) :
    spelledChars cs = (splitSignChars cs).1 ++ properChars (splitSignChars cs).2 := rfl

theorem lettered_of_guarded {s : String} (h : Guarded s) : Lettered (identifier s) := by
  have hsign : ∀ c ∈ (splitSignChars s.toList).1.head?, isAlphabetic c = true := by
    unfold splitSignChars
    split <;> simp +decide
  have hspelled := spelledChars_eq s.toList
  rw [identifier, lettered_ofList]
  rw [Guarded] at h
  generalize splitSignChars s.toList = split at h hsign hspelled
  obtain ⟨sign, rest⟩ := split
  cases sign with
  | cons c more => exact identifierChars_letter hspelled (hsign c rfl)
  | nil =>
    have hfirst := h.resolve_left (not_not.mpr rfl)
    rw [List.nil_append] at hspelled
    cases hfound : rest.find? isAlphanumeric with
    | none =>
      rw [properChars_of_none hfound] at hspelled
      rw [identifierChars, hspelled]
      decide
    | some c =>
      cases hc : isAlphabetic c with
      | true =>
        obtain ⟨d, more, hproper, hd⟩ := properChars_of_letter hfound hc
        exact identifierChars_letter (hspelled.trans hproper) hd
      | false =>
        obtain ⟨more, hproper⟩ := properChars_of_digit hfound hc
        have hdigit : c.isDigit = true := (hfirst c hfound).resolve_left (by simp [hc])
        rw [identifierChars, hspelled, hproper]
        dsimp only
        rw [if_pos hdigit]
        exact isAlphabetic_guard

/-- Without the guard a digit beyond ASCII stays in front. -/
theorem identifier_of_not_guarded {s : String} (h : ¬ Guarded s) : ∃ c rest, (identifier s).toList = c :: rest ∧
    isAlphabetic c = false ∧ isNumeric c = true ∧ c.isDigit = false := by
  obtain ⟨hsign, hfirst⟩ := not_or.mp h
  obtain ⟨c, hc, hplain⟩ : ∃ c ∈ (splitSignChars s.toList).2.find? isAlphanumeric,
      ¬ (isAlphabetic c = true ∨ c.isDigit = true) := by simpa using hfirst
  rw [not_or, Bool.not_eq_true, Bool.not_eq_true] at hplain
  obtain ⟨hletter, hdigit⟩ := hplain
  have hnumeric : isNumeric c = true := by
    have halnum := List.find?_some hc
    rwa [isAlphanumeric, hletter, Bool.false_or] at halnum
  obtain ⟨rest, hproper⟩ := properChars_of_digit hc hletter
  refine ⟨c, rest, ?_, hletter, hnumeric, hdigit⟩
  rw [identifier, String.toList_ofList, identifierChars, spelledChars_eq, not_not.mp hsign, hproper]
  simp [hdigit]

/-- An identifier begins with a letter unless its first word begins with a digit beyond ASCII. -/
theorem lettered_identifier_iff (s : String) : Lettered (identifier s) ↔ Guarded s := by
  refine ⟨fun hlettered => ?_, lettered_of_guarded⟩
  by_contra hplain
  obtain ⟨c, rest, hs, hc, -⟩ := identifier_of_not_guarded hplain
  rw [Lettered, hs, List.head?_cons, Option.any_some, hc] at hlettered
  cases hlettered

/-- The singular changes the ending only. -/
theorem getLast?_singularReversed (cs : List Char) : (singularReversed cs).getLast? = cs.getLast? := by
  fun_cases singularReversed cs with
  | case11 => rfl
  | _ => simp [List.getLast?_cons]

theorem lettered_singular_iff (s : String) : Lettered (singular s) ↔ Lettered s := by
  rw [singular, lettered_ofList, singularChars, List.head?_reverse, getLast?_singularReversed, List.getLast?_reverse]
  rfl

end Name

end ClientGen

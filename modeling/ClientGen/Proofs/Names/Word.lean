import Mathlib
import ClientGen.Name.Words

/-
  ClientGen.Proofs.Names.Word — what words are made of.

  A word has the letters and digits of its text, capitals in small form (`mem_scanWords`). No
  change of case makes an ASCII character that is neither letter nor digit out of another one
  (`Separates.eq_of_toLower`), so no such character is in a word, nor in a name in proper form
  (`Separates.not_mem_properChars`) or in snake form (`Separates.not_mem_snakeChars`), where only
  underscores stand between the words.
-/

namespace ClientGen

open Unicode

/-- An ASCII character that is no letter and no digit. -/
def Separates (c : Char) : Prop := 0 < c.toNat ∧ c.toNat < 0x80 ∧ c.isAlphanum = false

instance (c : Char) : Decidable (Separates c) := inferInstanceAs (Decidable (_ ∧ _ ∧ _))

namespace Separates

variable {c d : Char}

theorem isAlpha_eq_false (h : Separates d) : d.isAlpha = false := by
  have hnot := h.2.2
  simp only [Char.isAlphanum, Bool.or_eq_false_iff] at hnot
  exact hnot.1

theorem isUppercase_eq_false (h : Separates d) : isUppercase d = false := by
  have halpha := h.isAlpha_eq_false
  simp only [Char.isAlpha, Bool.or_eq_false_iff] at halpha
  rw [isUppercase_ascii h.2.1]
  exact halpha.1

theorem isAlphanumeric_eq_false (h : Separates d) : isAlphanumeric d = false := by
  rw [isAlphanumeric_ascii h.2.1]
  exact h.2.2

/-! ## Changing case -/

theorem eq_of_asciiLower (h : Separates d) (heq : c.toLower = d) : c = d := by
  have halpha : c.isAlpha = false := by
    rw [← Char.isAlpha_toLower_eq_isAlpha, heq]
    exact h.isAlpha_eq_false
  have hupper : ¬ c.isUpper = true := by
    intro hc
    simp [Char.isAlpha, hc] at halpha
  rwa [Char.toLower_eq_of_not_isUpper hupper] at heq

theorem eq_of_asciiUpper (h : Separates d) (heq : c.toUpper = d) : c = d := by
  have halpha : c.isAlpha = false := by
    rw [← Char.isAlpha_toUpper_eq_isAlpha, heq]
    exact h.isAlpha_eq_false
  have hlower : ¬ c.isLower = true := by
    intro hc
    simp [Char.isAlpha, hc] at halpha
  rwa [Char.toUpper_eq_of_not_isLower hlower] at heq

end Separates

namespace Unicode

/-- The code point of an ASCII letter, or one beyond ASCII. -/
def isLetterOrBeyond (n : Nat) : Bool := 0x80 ≤ n || (Char.ofNat n).isAlpha

/-- A run whose images are ASCII letters or lie beyond ASCII; a letter is the image of a run of one. -/
def CaseRun.makesLetters (r : CaseRun) : Bool := 0x80 ≤ r.start || r.lo == r.hi && isLetterOrBeyond r.start

theorem CaseRun.isLetterOrBeyond_image {r : CaseRun} {n m : Nat} (hr : r.makesLetters = true)
    (h : r.image? n = some m) : isLetterOrBeyond m = true := by
  simp only [CaseRun.makesLetters, Bool.or_eq_true, Bool.and_eq_true, decide_eq_true_eq, beq_iff_eq] at hr
  unfold CaseRun.image? at h
  split at h
  · rename_i hin
    simp only [Bool.and_eq_true, decide_eq_true_eq] at hin
    cases h
    rcases hr with hstart | ⟨hone, hletter⟩
    · simp only [isLetterOrBeyond, Bool.or_eq_true, decide_eq_true_eq]
      left
      omega
    · have hn : n - r.lo = 0 := by omega
      rwa [hn, Nat.add_zero]
  · cases h

theorem ofNat_ne_of_separates {n : Nat} {d : Char} (hd : Separates d) (hn : isLetterOrBeyond n = true) :
    Char.ofNat n ≠ d := by
  rintro rfl
  have hpos := hd.1
  have hascii := hd.2.1
  simp only [isLetterOrBeyond, Bool.or_eq_true, decide_eq_true_eq] at hn
  rcases hn with hn | hn
  · -- a code point that is none is read as NUL, which is left out
    rw [Char.toNat_ofNat] at hpos hascii
    split at hascii
    · omega
    · rename_i hvalid
      simp only [hvalid, if_false] at hpos
      omega
  · rw [hd.isAlpha_eq_false] at hn
    cases hn

/-- A mapping to letters makes nothing else but what it leaves as it is. -/
theorem eq_of_mem_mapCase {runs : List CaseRun} {expansions : List (Nat × List Nat)} {c d : Char}
    (hruns : ∀ r ∈ runs, r.makesLetters = true) (hexpansions : ∀ e ∈ expansions, ∀ n ∈ e.2, isLetterOrBeyond n = true)
    (hd : Separates d) (h : d ∈ mapCase runs expansions c) : c = d := by
  unfold mapCase at h
  split at h
  · rename_i codes hlookup
    obtain ⟨code, hcode, hchar⟩ := List.mem_map.mp h
    obtain ⟨before, after, rfl, -⟩ := List.lookup_eq_some_iff.mp hlookup
    have hmem : (c.toNat, codes) ∈ before ++ (c.toNat, codes) :: after := by simp
    exact absurd hchar (ofNat_ne_of_separates hd (hexpansions _ hmem code hcode))
  · have hone := (List.mem_singleton.mp h).symm
    cases hfound : runs.findSome? (·.image? c.toNat) with
    | none =>
      rw [hfound] at hone
      exact hone
    | some m =>
      rw [hfound] at hone
      obtain ⟨r, hr, himage⟩ := List.exists_of_findSome?_eq_some hfound
      exact absurd hone (ofNat_ne_of_separates hd (r.isLetterOrBeyond_image (hruns r hr) himage))

end Unicode

namespace Separates

variable {c d : Char}

theorem eq_of_toLower (hd : Separates d) (h : d ∈ toLower c) : c = d := by
  unfold toLower at h
  split at h
  · exact hd.eq_of_asciiLower (List.mem_singleton.mp h).symm
  · exact eq_of_mem_mapCase (by decide +kernel) (by decide +kernel) hd h

theorem eq_of_toUpper (hd : Separates d) (h : d ∈ toUpper c) : c = d := by
  unfold toUpper at h
  split at h
  · exact hd.eq_of_asciiUpper (List.mem_singleton.mp h).symm
  · exact eq_of_mem_mapCase (by decide +kernel) (by decide +kernel) hd h

end Separates

namespace Name

theorem lt_of_isAlphanum {c : Char} (h : c.isAlphanum = true) : c.toNat < 0x80 := by
  simp only [Char.isAlphanum, Char.isAlpha, Char.isUpper, Char.isLower, Char.isDigit, Bool.or_eq_true,
    Bool.and_eq_true, decide_eq_true_eq, ge_iff_le, UInt32.le_iff_toNat_le] at h
  have hZ : 'Z'.val.toNat = 90 := rfl
  have hz : 'z'.val.toNat = 122 := rfl
  have h9 : '9'.val.toNat = 57 := rfl
  have hc : c.val.toNat = c.toNat := rfl
  omega

theorem not_cased_of_isDigit {c : Char} (h : c.isDigit = true) : ¬ c.isUpper = true ∧ ¬ c.isLower = true := by
  simp only [Char.isUpper, Char.isLower, Char.isDigit, Bool.and_eq_true, decide_eq_true_eq, ge_iff_le,
    UInt32.le_iff_toNat_le] at h ⊢
  have hA : 'A'.val.toNat = 65 := rfl
  have ha : 'a'.val.toNat = 97 := rfl
  have h9 : '9'.val.toNat = 57 := rfl
  omega

/-! ## Words -/

/-- A character `d` of a word stands for the character `c` of the text. -/
def StandsFor (d c : Char) : Prop := isUppercase c = true ∧ d ∈ toLower c ∨ isAlphanumeric c = true ∧ d = c

theorem mem_flushWord {current word : List Char} {d : Char} (hword : word ∈ flushWord current) (hd : d ∈ word) :
    d ∈ current := by
  unfold flushWord at hword
  split at hword
  · cases hword
  · rw [List.mem_singleton.mp hword, List.mem_reverse] at hd
    exact hd

/-- The characters of words, with the word read so far. -/
theorem mem_scanWords {cs current : List Char} {prev : Option Char} {word : List Char} {d : Char}
    (hword : word ∈ scanWords prev current cs) (hd : d ∈ word) : d ∈ current ∨ ∃ c ∈ cs, StandsFor d c := by
  induction cs generalizing prev current with
  | nil => exact .inl (mem_flushWord hword hd)
  | cons c rest ih =>
    -- a step that goes on with `next` as the word read so far
    have hnext : ∀ {next : List Char} {p : Option Char}, word ∈ scanWords p next rest →
        (d ∈ next → d ∈ current ∨ StandsFor d c) → d ∈ current ∨ ∃ c' ∈ c :: rest, StandsFor d c' := by
      intro next p hin hfrom
      rcases ih hin with hmem | ⟨c', hc', hstands⟩
      · exact (hfrom hmem).imp_right fun hstands => ⟨c, List.mem_cons_self, hstands⟩
      · exact .inr ⟨c', List.mem_cons_of_mem c hc', hstands⟩
    simp only [scanWords] at hword
    split at hword
    · rename_i hupper
      have hlower : d ∈ (toLower c).reverse → StandsFor d c := fun hmem => .inl ⟨hupper, List.mem_reverse.mp hmem⟩
      split at hword
      · rcases List.mem_append.mp hword with hword | hword
        · exact .inl (mem_flushWord hword hd)
        · exact hnext hword fun hmem => .inr (hlower hmem)
      · refine hnext hword ?_
        intro hmem
        exact (List.mem_append.mp hmem).symm.imp_right hlower
    · split at hword
      · rename_i halnum
        refine hnext hword ?_
        intro hmem
        exact (List.mem_cons.mp hmem).symm.imp_right fun heq => .inr ⟨halnum, heq⟩
      · rcases List.mem_append.mp hword with hword | hword
        · exact .inl (mem_flushWord hword hd)
        · exact hnext hword fun hmem => absurd hmem List.not_mem_nil

theorem mem_words {cs word : List Char} {d : Char} (hword : word ∈ words cs) (hd : d ∈ word) :
    ∃ c ∈ cs, StandsFor d c :=
  (mem_scanWords hword hd).resolve_left List.not_mem_nil

/-- A word that has begun is the first one. -/
theorem scanWords_begun {cs current : List Char} {prev : Option Char} (h : current ≠ []) :
    ∃ more rest, scanWords prev current cs = (current.reverse ++ more) :: rest := by
  have hflush : flushWord current = [current.reverse ++ []] := by
    simp [flushWord, h]
  induction cs generalizing prev current with
  | nil => exact ⟨[], [], hflush⟩
  | cons c rest ih =>
    simp only [scanWords]
    split
    · split
      · exact ⟨[], _, by rw [hflush]; rfl⟩
      · obtain ⟨more, words, heq⟩ := @ih ((toLower c).reverse ++ current) (some c) (by simp [h]) (by simp [flushWord, h])
        exact ⟨toLower c ++ more, words, by simpa using heq⟩
    · split
      · obtain ⟨more, words, heq⟩ := @ih (c :: current) (some c) (by simp) (by simp [flushWord])
        exact ⟨c :: more, words, by simpa using heq⟩
      · exact ⟨[], _, by rw [hflush]; rfl⟩

end Name

namespace Separates

open Name

variable {d : Char}

theorem not_standsFor (hd : Separates d) (c : Char) : ¬ StandsFor d c := by
  rintro (⟨hupper, hmem⟩ | ⟨halnum, rfl⟩)
  · rw [hd.eq_of_toLower hmem, hd.isUppercase_eq_false] at hupper
    cases hupper
  · rw [hd.isAlphanumeric_eq_false] at halnum
    cases halnum

theorem not_mem_word (hd : Separates d) {cs word : List Char} (hword : word ∈ words cs) : d ∉ word := by
  intro hmem
  obtain ⟨c, -, hstands⟩ := mem_words hword hmem
  exact hd.not_standsFor c hstands

theorem not_mem_properChars (hd : Separates d) (cs : List Char) : d ∉ properChars cs := by
  intro hmem
  obtain ⟨word, hword, hmem⟩ := List.mem_flatMap.mp hmem
  have hclean : d ∉ word := hd.not_mem_word hword
  cases word with
  | nil => cases hmem
  | cons c rest =>
    rcases List.mem_append.mp hmem with hfirst | hrest
    · exact hclean (hd.eq_of_toUpper hfirst ▸ List.mem_cons_self)
    · exact hclean (List.mem_cons_of_mem c hrest)

theorem not_mem_snakeChars (hd : Separates d) (hne : d ≠ '_') (cs : List Char) : d ∉ snakeChars cs := by
  have hall : ∀ word ∈ words cs, d ∉ word := fun word hword => hd.not_mem_word hword
  unfold snakeChars
  generalize words cs = ws at hall
  induction ws with
  | nil => exact List.not_mem_nil
  | cons word rest ih =>
    obtain ⟨hword, hrest⟩ := List.forall_mem_cons.mp hall
    cases rest with
    | nil => simpa using hword
    | cons next rest =>
      rw [List.intercalate_cons_cons]
      simp only [List.mem_append, List.mem_singleton, not_or]
      exact ⟨⟨hword, hne⟩, ih hrest⟩

end Separates

end ClientGen

import ClientGen.Proofs.Names.Letter

/-
  ClientGen.Proofs.Names.Snake — snake forms of ASCII text.

  The words of a text hold its letters and digits in order, in small form (`flatten_words`), and no
  word is empty. The words of an ASCII text have small letters and digits only (`plain_of_mem_words`), and
  a text that is such words with an underscore between any two is scanned into these words again
  (`words_intercalate`). So a snake form is in normal form, says the same as its text, and is its
  own snake form (`snake_canonical`).
-/

namespace ClientGen.Name

open Unicode

/-! ## What the words hold -/

variable {cs current word : List Char} {prev : Option Char}

theorem flatten_flushWord (current : List Char) : (flushWord current).flatten = current.reverse := by
  cases current with
  | nil => rfl
  | cons c rest => simp [flushWord]

theorem ne_nil_of_mem_flushWord (h : word ∈ flushWord current) : word ≠ [] := by
  cases current with
  | nil => cases h
  | cons c rest =>
    obtain rfl : word = (c :: rest).reverse := by simpa [flushWord] using h
    simp

/-- Scanning keeps the letters and digits of the text behind those read so far. -/
theorem flatten_scanWords (cs current : List Char) (prev : Option Char) :
    (scanWords prev current cs).flatten = current.reverse ++ (cs.filter isAlphanumeric).flatMap smallForm := by
  induction cs generalizing prev current with
  | nil => simp [scanWords, flatten_flushWord]
  | cons c rest ih =>
    by_cases hupper : isUppercase c = true
    · have hkept : (c :: rest).filter isAlphanumeric = c :: rest.filter isAlphanumeric :=
        List.filter_cons_of_pos (isAlphanumeric_of_isUppercase hupper)
      rw [scanWords, if_pos hupper, hkept, List.flatMap_cons, smallForm, if_pos hupper]
      split
      · rw [List.flatten_append, flatten_flushWord, ih, List.reverse_reverse]
      · rw [ih, List.reverse_append, List.reverse_reverse, List.append_assoc]
    · rw [scanWords, if_neg hupper]
      by_cases halnum : isAlphanumeric c = true
      · rw [if_pos halnum, ih, List.filter_cons_of_pos halnum, List.flatMap_cons, smallForm, if_neg hupper]
        simp
      · rw [if_neg halnum, List.flatten_append, flatten_flushWord, ih, List.filter_cons_of_neg halnum]
        rfl

theorem flatten_words (cs : List Char) : (words cs).flatten = (cs.filter isAlphanumeric).flatMap smallForm :=
  flatten_scanWords cs [] none

theorem ne_nil_of_mem_scanWords (h : word ∈ scanWords prev current cs) : word ≠ [] := by
  induction cs generalizing prev current with
  | nil => exact ne_nil_of_mem_flushWord h
  | cons c rest ih =>
    simp only [scanWords] at h
    split at h
    · split at h
      · exact (List.mem_append.mp h).elim ne_nil_of_mem_flushWord ih
      · exact ih h
    · split at h
      · exact ih h
      · exact (List.mem_append.mp h).elim ne_nil_of_mem_flushWord ih

/-! ## ASCII -/

def Ascii (cs : List Char) : Prop := ∀ c ∈ cs, c.toNat < 0x80

/-- A word of small letters and digits. -/
def PlainWord (word : List Char) : Prop := word ≠ [] ∧ ∀ c ∈ word, c.isLower = true ∨ c.isDigit = true

theorem flatten_words_ascii (h : Ascii cs) : (words cs).flatten = (cs.filter Char.isAlphanum).map Char.toLower := by
  have hfilter : cs.filter isAlphanumeric = cs.filter Char.isAlphanum :=
    List.filter_congr fun c hc => isAlphanumeric_ascii (h c hc)
  rw [flatten_words, hfilter, List.map_eq_flatMap]
  exact List.flatMap_congr fun c hc => smallForm_ascii (h c (List.mem_of_mem_filter hc))

theorem isLower_or_isDigit_toLower {c : Char} (h : c.isAlphanum = true) :
    c.toLower.isLower = true ∨ c.toLower.isDigit = true := by
  rw [Char.isAlphanum, Bool.or_eq_true] at h
  rcases h with halpha | hdigit
  · have hcased : c.toLower.isAlpha = true := by rwa [Char.isAlpha_toLower_eq_isAlpha]
    rw [Char.isAlpha, Char.isUpper_toLower_eq_false, Bool.false_or] at hcased
    exact .inl hcased
  · rw [Char.toLower_eq_of_not_isUpper (not_cased_of_isDigit hdigit).1]
    exact .inr hdigit

theorem plain_of_mem_words (h : Ascii cs) (hword : word ∈ words cs) : PlainWord word := by
  refine ⟨ne_nil_of_mem_scanWords hword, fun d hd => ?_⟩
  have hmem : d ∈ (words cs).flatten := List.mem_flatten_of_mem hword hd
  rw [flatten_words_ascii h] at hmem
  obtain ⟨c, hc, rfl⟩ := List.mem_map.mp hmem
  exact isLower_or_isDigit_toLower (List.of_mem_filter hc)

/-! ## Scanning words again -/

/-- A word of which the scan changes nothing. -/
def Settled (word : List Char) : Prop := ∀ c ∈ word, isUppercase c = false ∧ isAlphanumeric c = true

theorem PlainWord.settled (h : PlainWord word) : Settled word := by
  intro c hc
  have halnum : c.isAlphanum = true := by
    rcases h.2 c hc with hlower | hdigit <;> simp [Char.isAlphanum, Char.isAlpha, *]
  have hascii := lt_of_isAlphanum halnum
  refine ⟨?_, by rw [isAlphanumeric_ascii hascii, halnum]⟩
  rw [isUppercase_ascii hascii, Bool.eq_false_iff]
  rcases h.2 c hc with hlower | hdigit
  · exact Char.not_isUpper_of_isLower hlower
  · exact (not_cased_of_isDigit hdigit).1

theorem scanWords_settled (h : Settled word) (current rest : List Char) (prev : Option Char) :
    ∃ prev', scanWords prev current (word ++ rest) = scanWords prev' (word.reverse ++ current) rest := by
  induction word generalizing prev current with
  | nil => exact ⟨prev, rfl⟩
  | cons c more ih =>
    obtain ⟨⟨hupper, halnum⟩, hmore⟩ := List.forall_mem_cons.mp h
    obtain ⟨prev', heq⟩ := ih hmore (c :: current) (some c)
    refine ⟨prev', ?_⟩
    rw [List.cons_append, scanWords, hupper, if_neg Bool.false_ne_true, if_pos halnum, heq]
    simp

/-- Words that the scan leaves as they are, with an underscore between any two, are its words. -/
theorem words_intercalate {ws : List (List Char)} (h : ∀ w ∈ ws, w ≠ [] ∧ Settled w) :
    words (['_'].intercalate ws) = ws := by
  have hflush : ∀ {w : List Char}, w ≠ [] → flushWord (w.reverse ++ []) = [w] := by
    intro w hw
    simp [flushWord, hw]
  have hscan : ∀ prev, scanWords prev [] (['_'].intercalate ws) = ws := by
    induction ws with
    | nil => exact fun _ => rfl
    | cons w rest ih =>
      intro prev
      obtain ⟨⟨hne, hsettled⟩, hrest⟩ := List.forall_mem_cons.mp h
      cases rest with
      | nil =>
        obtain ⟨prev', heq⟩ := scanWords_settled hsettled [] [] prev
        rw [List.append_nil] at heq
        rw [List.intercalate_singleton, heq, scanWords, hflush hne]
      | cons next more =>
        obtain ⟨prev', heq⟩ := scanWords_settled hsettled [] ('_' :: ['_'].intercalate (next :: more)) prev
        have hmark : isUppercase '_' = false ∧ isAlphanumeric '_' = false := by decide
        rw [List.intercalate_cons_cons, List.append_assoc, List.singleton_append, heq, scanWords, hmark.1, hmark.2,
          if_neg Bool.false_ne_true, if_neg Bool.false_ne_true, ih hrest, hflush hne]
        rfl
  exact hscan none

/-! ## Snake forms -/

/-- Deleting the underscores puts the words together. -/
theorem filter_intercalate {ws : List (List Char)} (h : ∀ w ∈ ws, '_' ∉ w) :
    (['_'].intercalate ws).filter (· ≠ '_') = ws.flatten := by
  have hkept : ∀ {w : List Char}, '_' ∉ w → w.filter (· ≠ '_') = w := by
    intro w hw
    rw [List.filter_eq_self]
    intro c hc
    exact decide_eq_true (ne_of_mem_of_not_mem hc hw)
  induction ws with
  | nil => rfl
  | cons w rest ih =>
    obtain ⟨hw, hrest⟩ := List.forall_mem_cons.mp h
    cases rest with
    | nil => rw [List.intercalate_singleton, List.flatten_singleton, hkept hw]
    | cons next more =>
      rw [List.intercalate_cons_cons, List.filter_append, List.filter_append, hkept hw, ih hrest, List.flatten_cons]
      simp

/-- The snake form of an ASCII text is made of words of small letters and digits with one underscore
    between any two, or is empty. Its words hold the letters and digits of the text in order, in
    small form, and it is its own snake form. -/
theorem snake_canonical {s : String} (hs : Ascii s.toList) :
    (∃ ws, (∀ w ∈ ws, PlainWord w) ∧ (snake s).toList = ['_'].intercalate ws) ∧
      (snake s).toList.filter (· ≠ '_') = (s.toList.filter Char.isAlphanum).map Char.toLower ∧
      snake (snake s) = snake s := by
  have hplain : ∀ w ∈ words s.toList, PlainWord w := fun w hw => plain_of_mem_words hs hw
  have hsnake : (snake s).toList = ['_'].intercalate (words s.toList) := by rw [snake, String.toList_ofList, snakeChars]
  refine ⟨⟨words s.toList, hplain, hsnake⟩, ?_, ?_⟩
  · have hmark : Separates '_' := by decide
    rw [hsnake, filter_intercalate fun w hw => hmark.not_mem_word hw, flatten_words_ascii hs]
  · have hwords : words (snake s).toList = words s.toList := by
      rw [hsnake]
      exact words_intercalate fun w hw => ⟨(hplain w hw).1, (hplain w hw).settled⟩
    rw [snake, snakeChars, hwords]
    rfl

theorem snake_canonical_acronym :
    Ascii "/v2Beta/HTTPResponse".toList ∧ snake "/v2Beta/HTTPResponse" = "v2_beta_http_response" ∧
      (∃ ws, (∀ w ∈ ws, PlainWord w) ∧ "v2_beta_http_response".toList = ['_'].intercalate ws) ∧
      "v2_beta_http_response".toList.filter (· ≠ '_') =
        ("/v2Beta/HTTPResponse".toList.filter Char.isAlphanum).map Char.toLower ∧
      snake "v2_beta_http_response" = "v2_beta_http_response" := by
  have hascii : Ascii "/v2Beta/HTTPResponse".toList := by simp [Ascii]
  have hsnake : snake "/v2Beta/HTTPResponse" = "v2_beta_http_response" := by cbv
  have hcanonical := snake_canonical hascii
  rw [hsnake] at hcanonical
  exact ⟨hascii, hsnake, hcanonical⟩

end ClientGen.Name

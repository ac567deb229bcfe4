import Mathlib
import ClientGen.Name.Identifier
import ClientGen.Name.Singular
import ClientGen.Operation.Naming
import ClientGen.Proofs.Names.Word
import ClientGen.Proofs.Response.Key
import ClientGen.TypeMapping

/-
  ClientGen.Proofs.Names.Line — names stand on one line.

  A line comment ends at a line feed. Names come from free text, which may have line feeds, but
  they are made of its words, and a line feed separates words. So no name has one, nor any other
  character that separates words (`lacks_proper`, `lacks_identifier`, `lacks_singular`). A response
  key goes into a name as it is, but one that is a status has only digits, the letters of its
  range and perhaps a plus sign (`lacks_of_parse`).
-/

namespace ClientGen

def OneLine (s : String) : Prop := '\n' ∉ s.toList

instance (s : String) : Decidable (OneLine s) := inferInstanceAs (Decidable ('\n' ∉ s.toList))

theorem oneLine_append {s t : String} : OneLine (s ++ t) ↔ OneLine s ∧ OneLine t := by
  rw [OneLine, String.toList_append, List.mem_append, not_or]
  rfl

theorem OneLine.append {s t : String} (hs : OneLine s) (ht : OneLine t) : OneLine (s ++ t) :=
  oneLine_append.mpr ⟨hs, ht⟩

theorem oneLine_ofList {cs : List Char} : OneLine (String.ofList cs) ↔ '\n' ∉ cs := by
  rw [OneLine, String.toList_ofList]

theorem separates_newline : Separates '\n' := by decide

/-- A character is not in a text. -/
def Lacks (d : Char) (s : String) : Prop := d ∉ s.toList

section

variable {d : Char}

theorem lacks_ofList {cs : List Char} : Lacks d (String.ofList cs) ↔ d ∉ cs := by
  rw [Lacks, String.toList_ofList]

theorem Lacks.append {s t : String} (hs : Lacks d s) (ht : Lacks d t) : Lacks d (s ++ t) := by
  rw [Lacks, String.toList_append, List.mem_append, not_or]
  exact ⟨hs, ht⟩

theorem Separates.ne_of_isAlphanum (hd : Separates d) {c : Char} (hc : c.isAlphanum = true) : d ≠ c := by
  rintro rfl
  rw [hd.2.2] at hc
  cases hc

/-- Letters and digits separate nothing. -/
theorem Separates.lacks (hd : Separates d) {s : String} (h : s.toList.all Char.isAlphanum = true) : Lacks d s :=
  fun hmem => hd.ne_of_isAlphanum (List.all_eq_true.mp h d hmem) rfl

theorem isDigit_of_mem_toString {n : Nat} (h : d ∈ (toString n).toList) : d.isDigit = true := by
  rw [Nat.toString_eq_repr, Nat.toList_repr] at h
  exact Nat.isDigit_of_mem_toDigits (by decide) (by decide) h

theorem Separates.lacks_toString (hd : Separates d) (n : Nat) : Lacks d (toString n) := by
  intro hmem
  exact hd.ne_of_isAlphanum (by simp [Char.isAlphanum, isDigit_of_mem_toString hmem]) rfl

end

namespace Name

open Unicode

variable {d : Char}

/-! ## Words -/

theorem lacks_proper (hd : Separates d) (s : String) : Lacks d (proper s) :=
  lacks_ofList.mpr (hd.not_mem_properChars _)

theorem lacks_camel (hd : Separates d) (s : String) : Lacks d (camel s) := by
  refine lacks_ofList.mpr ?_
  have hproper := hd.not_mem_properChars s.toList
  unfold camelChars
  split
  · exact List.not_mem_nil
  · rename_i c rest hcs
    rw [hcs] at hproper
    intro hmem
    rcases List.mem_append.mp hmem with hmem | hmem
    · exact hproper (hd.eq_of_toLower hmem ▸ List.mem_cons_self)
    · exact hproper (List.mem_cons_of_mem c hmem)

/-! ## Identifiers and singulars -/

theorem not_mem_spelledChars (hd : Separates d) (cs : List Char) : d ∉ spelledChars cs := by
  have hsigns : ∀ word ∈ [['P', 'l', 'u', 's'], ['M', 'i', 'n', 'u', 's'], ['A', 't'], []],
      word.all Char.isAlphanum = true := by decide
  have hword : d ∉ (splitSignChars cs).1 := by
    intro hmem
    refine hd.ne_of_isAlphanum (List.all_eq_true.mp (hsigns (splitSignChars cs).1 ?_) d hmem) rfl
    unfold splitSignChars
    split <;> simp
  intro hmem
  rcases List.mem_append.mp hmem with hmem | hmem
  · exact hword hmem
  · exact hd.not_mem_properChars _ hmem

theorem lacks_spelled (hd : Separates d) (s : String) : Lacks d (spelled s) :=
  lacks_ofList.mpr (not_mem_spelledChars hd _)

theorem lacks_identifier (hd : Separates d) (s : String) : Lacks d (identifier s) := by
  refine lacks_ofList.mpr ?_
  have hspelled := not_mem_spelledChars hd s.toList
  have hvalue : Lacks d "Value" := hd.lacks (by decide)
  unfold identifierChars
  split
  · exact hvalue
  · rename_i c rest hcs
    rw [hcs] at hspelled
    split
    · intro hmem
      rcases List.mem_cons.mp hmem with hn | hmem
      · exact hd.ne_of_isAlphanum (by decide) hn
      · exact hspelled hmem
    · exact hspelled

theorem mem_singularReversed {c : Char} {cs : List Char} (h : c ∈ singularReversed cs) : c = 'y' ∨ c ∈ cs := by
  revert h
  fun_cases singularReversed cs with
  | case11 =>
    intro h
    exact .inr h
  | _ =>
    simp only [List.mem_cons]
    tauto

theorem lacks_singular (hd : Separates d) {s : String} (h : Lacks d s) : Lacks d (singular s) := by
  refine lacks_ofList.mpr ?_
  intro hmem
  rcases mem_singularReversed (List.mem_reverse.mp hmem) with hy | hmem
  · exact hd.ne_of_isAlphanum (by decide) hy
  · exact h (List.mem_reverse.mp hmem)

end Name

theorem lacks_componentTypeName {d : Char} (hd : Separates d) (key : String) (s : Option Schema) :
    Lacks d (componentTypeName key s) := by
  unfold componentTypeName
  split
  · exact Name.lacks_singular hd (Name.lacks_identifier hd _)
  · exact Name.lacks_identifier hd _

/-! ## Response keys -/

section

variable {d : Char}

namespace Status

theorem not_mem_of_decimal (hd : Separates d) {cs : List Char} {n : Nat} (h : decimal? cs = some n) : d ∉ cs := by
  unfold decimal? at h
  split at h
  · cases h
  · rename_i hdigits
    intro hmem
    simp only [Bool.or_eq_true, Bool.not_eq_true', not_or, Bool.not_eq_false, List.all_eq_true] at hdigits
    exact hd.ne_of_isAlphanum (by simp [Char.isAlphanum, hdigits.2 _ hmem]) rfl

theorem lacks_of_parse (hd : Separates d) (hplus : d ≠ '+') {key : String} {status : Status}
    (h : parse? key = some status) : Lacks d key := by
  cases status with
  | default =>
    rw [parse_default_iff.mp h]
    exact hd.lacks (by decide)
  | range n =>
    obtain ⟨c, a, b, hkey, ha, hb, hlow, hhigh, -⟩ := parse_range h
    have hletter : ∀ {x : Char}, isX x = true → x.isAlphanum = true := by
      intro x hx
      simp only [isX, Bool.or_eq_true, beq_iff_eq] at hx
      rcases hx with rfl | rfl
      · decide
      · decide
    have hdigit : c.isDigit = true := by
      simp only [Char.isDigit, Bool.and_eq_true, decide_eq_true_eq, ge_iff_le, UInt32.le_iff_toNat_le]
      exact ⟨Nat.le_trans (by decide) hlow, Nat.le_trans hhigh (by decide)⟩
    rw [Lacks, hkey]
    intro hmem
    simp only [List.mem_cons, List.not_mem_nil, or_false] at hmem
    rcases hmem with heq | heq | heq
    · exact hd.ne_of_isAlphanum (by simp [Char.isAlphanum, hdigit]) heq
    · exact hd.ne_of_isAlphanum (hletter ha) heq
    · exact hd.ne_of_isAlphanum (hletter hb) heq
  | code n =>
    obtain ⟨hn, -, -⟩ := parse_code h
    unfold unsigned? at hn
    split at hn
    · rename_i rest hkey
      rw [Lacks, hkey]
      intro hmem
      rcases List.mem_cons.mp hmem with heq | hmem
      · exact hplus heq
      · exact not_mem_of_decimal hd hn hmem
    · exact not_mem_of_decimal hd hn

end Status

theorem lacks_responseComponentName (hd : Separates d) (key : String) : Lacks d (responseComponentName key) :=
  (Name.lacks_proper hd key).append (hd.lacks (by decide))

theorem lacks_inlineResponseName (hd : Separates d) (hplus : d ≠ '+') {operationName key : String} {status : Status}
    (sch : Schema) (hname : Lacks d operationName) (hkey : Status.parse? key = some status) :
    Lacks d (inlineResponseName operationName key sch) := by
  have htitle : Lacks d ((sch.title.map Name.proper).getD "") := by
    cases sch.title with
    | none => exact List.not_mem_nil
    | some title => exact Name.lacks_proper hd title
  have hupper : Lacks d (key.map Char.toUpper) := by
    intro hmem
    rw [String.toList_map] at hmem
    obtain ⟨c, hc, heq⟩ := List.mem_map.mp hmem
    exact Status.lacks_of_parse hd hplus hkey (hd.eq_of_asciiUpper heq ▸ hc)
  have hresponse : Lacks d "Response" := hd.lacks (by decide)
  unfold inlineResponseName
  dsimp only
  split
  · exact (hname.append htitle).append hresponse
  · split
    · exact hname.append (hd.lacks (by decide))
    · exact (hname.append hupper).append hresponse

end

end ClientGen

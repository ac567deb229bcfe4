import Mathlib
import ClientGen.Proofs.Names.Letter
import ClientGen.Request

/-
  ClientGen.Proofs.Request.Accepted — accepted requests and the settings made of them.

  A request is checked before anything else, and the settings made of it once more before the
  package is generated. The second check repeats the first for the package, the module path and a
  client name that is given. A client name that is not given is the package in proper form, which
  the first check does not look at: the underscores of the package are gone in it, so it is an
  identifier exactly if the character behind the leading underscores is a letter
  (`isIdentifier_proper_iff`). Hence an accepted request has accepted settings exactly if it
  `NamesClient` (`settings_check_iff`), and one for the package `_` has not
  (`underscore_accepted_then_refused`).
-/

namespace ClientGen

open Unicode

namespace Name

/-! ## Identifiers -/

theorem isAlphanum_toLower {c : Char} (h : c.isAlphanum = true) : c.toLower.isAlphanum = true := by
  simp only [Char.isAlphanum, Bool.or_eq_true, Char.isAlpha_toLower_eq_isAlpha] at h ⊢
  refine h.imp_right ?_
  intro hdigit
  rwa [Char.toLower_eq_of_not_isUpper (not_cased_of_isDigit hdigit).1]

theorem isAlphanum_toUpper {c : Char} (h : c.isAlphanum = true) : c.toUpper.isAlphanum = true := by
  simp only [Char.isAlphanum, Bool.or_eq_true, Char.isAlpha_toUpper_eq_isAlpha] at h ⊢
  refine h.imp_right ?_
  intro hdigit
  rwa [Char.toUpper_eq_of_not_isLower (not_cased_of_isDigit hdigit).2]

theorem isIdentifierPart_of_start {c : Char} (h : isIdentifierStart c = true) : isIdentifierPart c = true := by
  simp only [isIdentifierStart, isIdentifierPart, Char.isAlphanum, Bool.or_eq_true] at h ⊢
  tauto

theorem parts_of_isIdentifier {s : String} (h : isIdentifier s = true) : ∀ c ∈ s.toList, isIdentifierPart c = true := by
  unfold isIdentifier at h
  split at h
  · cases h
  · rename_i c rest heq
    simp only [Bool.and_eq_true, List.all_eq_true] at h
    rw [heq]
    exact List.forall_mem_cons.mpr ⟨isIdentifierPart_of_start h.1, h.2⟩

/-- What stands for a part of an identifier is a letter or a digit. -/
theorem isAlphanum_of_standsFor {c d : Char} (hc : isIdentifierPart c = true) (h : StandsFor d c) :
    d.isAlphanum = true := by
  have hascii : c.toNat < 0x80 := by
    simp only [isIdentifierPart, Bool.or_eq_true, beq_iff_eq] at hc
    rcases hc with hc | rfl
    · exact lt_of_isAlphanum hc
    · decide
  rcases h with ⟨hupper, hmem⟩ | ⟨halnum, rfl⟩
  · rw [toLower_ascii hascii, List.mem_singleton] at hmem
    rw [isUppercase_ascii hascii] at hupper
    have halnum : c.isAlphanum = true := by simp [Char.isAlphanum, Char.isAlpha, hupper]
    exact hmem ▸ isAlphanum_toLower halnum
  · rwa [isAlphanumeric_ascii hascii] at halnum

/-- The proper form of an identifier has letters and digits only. -/
theorem isAlphanum_of_mem_properChars {cs : List Char} (hcs : ∀ c ∈ cs, isIdentifierPart c = true) {d : Char}
    (h : d ∈ properChars cs) : d.isAlphanum = true := by
  obtain ⟨word, hword, hmem⟩ := List.mem_flatMap.mp h
  have hall : ∀ d ∈ word, d.isAlphanum = true := by
    intro d hd
    obtain ⟨c, hc, hstands⟩ := mem_words hword hd
    exact isAlphanum_of_standsFor (hcs c hc) hstands
  cases word with
  | nil => cases hmem
  | cons first rest =>
    obtain ⟨hfirst, hrest⟩ := List.forall_mem_cons.mp hall
    rcases List.mem_append.mp hmem with hmem | hmem
    · rw [toUpper_ascii (lt_of_isAlphanum hfirst), List.mem_singleton] at hmem
      exact hmem ▸ isAlphanum_toUpper hfirst
    · exact hrest d hmem

/-! ## The first character -/

/-- The first word begins with the first letter or digit, in small form. -/
theorem scanWords_starts {c : Char} {rest : List Char} {prev : Option Char} (h : c.isAlphanum = true) :
    ∃ more words, scanWords prev [] (c :: rest) = (c.toLower :: more) :: words := by
  have halnum : isAlphanumeric c = true := by
    rw [isAlphanumeric_ascii (lt_of_isAlphanum h)]
    exact h
  have hstarts := @scanWords_of_some (c :: rest) prev c (List.find?_cons_of_pos halnum)
  rwa [smallForm_ascii (lt_of_isAlphanum h)] at hstarts

theorem scanWords_underscore (prev : Option Char) (rest : List Char) :
    scanWords prev [] ('_' :: rest) = scanWords (some '_') [] rest := by
  have hupper : isUppercase '_' = false := by decide
  have halnum : isAlphanumeric '_' = false := by decide
  simp [scanWords, hupper, halnum, flushWord]

/-- Underscores in front make no word. -/
theorem scanWords_dropUnderscores (prev : Option Char) (cs : List Char) :
    ∃ prev', scanWords prev [] cs = scanWords prev' [] (cs.dropWhile (· == '_')) := by
  induction cs generalizing prev with
  | nil => exact ⟨prev, rfl⟩
  | cons c rest ih =>
    by_cases hc : c = '_'
    · subst hc
      rw [scanWords_underscore, List.dropWhile_cons_of_pos (by decide)]
      exact ih _
    · rw [List.dropWhile_cons_of_neg (by simpa using hc)]
      exact ⟨prev, rfl⟩

/-- The first character that is no underscore. -/
def firstSolid (s : String) : Option Char := (s.toList.dropWhile (· == '_')).head?

theorem properChars_starts {s : String} (hs : ∀ c ∈ s.toList, isIdentifierPart c = true) :
    (properChars s.toList).head? = (firstSolid s).map Char.toUpper := by
  obtain ⟨prev, hprev⟩ := scanWords_dropUnderscores none s.toList
  unfold firstSolid properChars words
  rw [hprev]
  cases hrest : s.toList.dropWhile (· == '_') with
  | nil => rfl
  | cons c rest =>
    have hne : c ≠ '_' := by
      have hhead := List.head?_dropWhile_not (· == '_') s.toList
      rw [hrest] at hhead
      simpa using hhead
    have hmem : c ∈ s.toList := (List.dropWhile_sublist _).mem (hrest ▸ List.mem_cons_self)
    have halnum : c.isAlphanum = true := by
      have hpart := hs c hmem
      simpa [isIdentifierPart, hne] using hpart
    obtain ⟨more, words, heq⟩ := @scanWords_starts c rest prev halnum
    have hlower : c.toLower.toNat < 0x80 := lt_of_isAlphanum (isAlphanum_toLower halnum)
    simp [heq, capitalize, toUpper_ascii hlower]

/-- The proper form of an identifier begins with its first letter or digit. -/
theorem isIdentifier_proper_iff {s : String} (h : isIdentifier s = true) :
    isIdentifier (proper s) = true ↔ (firstSolid s).any Char.isAlpha = true := by
  have hparts := parts_of_isIdentifier h
  have hhead := properChars_starts hparts
  have halnum : ∀ d ∈ properChars s.toList, d.isAlphanum = true := fun d => isAlphanum_of_mem_properChars hparts
  unfold isIdentifier proper
  rw [String.toList_ofList]
  generalize properChars s.toList = cs at hhead halnum
  cases cs with
  | nil =>
    rw [Option.map_eq_none_iff.mp hhead.symm]
    simp
  | cons d rest =>
    obtain ⟨c, hc, rfl⟩ := Option.map_eq_some_iff.mp hhead.symm
    obtain ⟨hfirst, hrest⟩ := List.forall_mem_cons.mp halnum
    have hstart : isIdentifierStart c.toUpper = c.isAlpha := by
      have hne : c.toUpper ≠ '_' := by
        intro heq
        rw [heq] at hfirst
        cases hfirst
      simp [isIdentifierStart, hne, Char.isAlpha_toUpper_eq_isAlpha]
    have hall : rest.all isIdentifierPart = true := by
      refine List.all_eq_true.mpr ?_
      intro d hd
      simp [isIdentifierPart, hrest d hd]
    simp [hstart, hall, hc]

end Name

/-! ## Requests -/

namespace Request

/-- The client has a name of its own, or one that the package lends it. -/
def NamesClient (r : Request) : Prop := r.client.isSome = true ∨ (Name.firstSolid r.package).any Char.isAlpha = true

instance (r : Request) : Decidable r.NamesClient := inferInstanceAs (Decidable (_ ∨ _))

/-- What an accepted request has. -/
structure Accepted (r : Request) : Prop where
  source : Unicode.isBlankText r.source = false
  modulePath : Unicode.isBlankText r.modulePath = false
  package : Name.isIdentifier r.package = true
  client : ∀ name ∈ r.client, Name.isIdentifier name = true

theorem accepted_of_check {r : Request} (h : r.check = .ok ()) : r.Accepted := by
  unfold check at h
  split at h
  · cases h
  · split at h
    · cases h
    · split at h
      · cases h
      · split at h
        · cases h
        · rename_i hsource hmodule _ hpackage
          refine ⟨by simpa using hsource, by simpa using hmodule, by simpa using hpackage, ?_⟩
          intro name hname
          rw [Option.mem_def.mp hname] at h
          dsimp only at h
          split at h
          · assumption
          · cases h

namespace Accepted

variable {r : Request}

theorem package_ne_empty (h : r.Accepted) : r.package.isEmpty = false := by
  cases hempty : r.package.isEmpty with
  | false => rfl
  | true =>
    have hpackage := h.package
    rw [String.isEmpty_iff.mp hempty] at hpackage
    cases hpackage

/-- The service is named by an identifier exactly if the client is named. -/
theorem isIdentifier_service_iff (h : r.Accepted) : Name.isIdentifier r.config.service = true ↔ r.NamesClient := by
  unfold NamesClient config
  cases hclient : r.client with
  | none => simpa using Name.isIdentifier_proper_iff h.package
  | some name => simpa using h.client name hclient

/-- Of the settings only the name of the service is left to be refused. -/
theorem config_check (h : r.Accepted) :
    r.config.check = if r.NamesClient then .ok () else .error (.serviceName r.config.service) := by
  have hpackage : Name.isIdentifier r.config.package = true := h.package
  have hempty : r.config.package.isEmpty = false := h.package_ne_empty
  by_cases hnamed : r.NamesClient
  · have hservice := h.isIdentifier_service_iff.mpr hnamed
    simp [Config.check, hempty, hpackage, hservice, hnamed]
  · have hservice : Name.isIdentifier r.config.service = false := by
      simpa using mt h.isIdentifier_service_iff.mp hnamed
    simp [Config.check, hempty, hpackage, hservice, hnamed]

theorem settings_check (h : r.Accepted) : r.settings.check = r.config.check := by
  unfold Settings.check
  rw [show r.settings.config = r.config from rfl, show r.settings.modulePath = r.modulePath from rfl, h.modulePath]
  cases r.config.check <;> rfl

end Accepted

end Request

/-- The settings of an accepted request are accepted exactly if its client has a name of its own or
    one that the package lends it; else they are refused for the name of the service. -/
theorem settings_check_iff {r : Request} (h : r.check = .ok ()) :
    (r.config.check = .ok () ∧ r.settings.check = .ok () ↔ r.NamesClient) ∧
      (¬ r.NamesClient → r.settings.check = .error (.serviceName (Name.proper r.package))) := by
  have haccepted := Request.accepted_of_check h
  rw [haccepted.settings_check, haccepted.config_check]
  constructor
  · split <;> simp_all
  · intro hnot
    have hclient : r.client = none := by
      cases hc : r.client with
      | none => rfl
      | some name => exact absurd (.inl (by rw [hc]; rfl)) hnot
    rw [if_neg hnot, Request.config, hclient]
    rfl

/-- A package whose underscores stand around a letter. -/
def underscoredPackage : Request := ⟨"api.yaml", "out", "example.com/pets", "__pet_v2", none, none, false⟩

theorem settings_check_iff_underscored : underscoredPackage.check = .ok () ∧ underscoredPackage.NamesClient ∧
    underscoredPackage.config.check = .ok () ∧ underscoredPackage.settings.check = .ok () := by
  have hcheck : underscoredPackage.check = .ok () := by decide
  have hnamed : underscoredPackage.NamesClient := by decide
  exact ⟨hcheck, hnamed, (settings_check_iff hcheck).1.mpr hnamed⟩

/-- A package without a letter. -/
def underscorePackage : Request := ⟨"api.yaml", "out", "example.com/pets", "_", none, none, false⟩

theorem underscore_accepted_then_refused : underscorePackage.check = .ok () ∧
    underscorePackage.config.check = .error (.serviceName "") := by
  decide

end ClientGen

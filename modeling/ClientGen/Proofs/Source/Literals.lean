import ClientGen.Go.Literal
import ClientGen.Json.Reader

/-
  ClientGen.Proofs.Source.Literals — the literals of Go source, read back.

  An interpreted literal stands in double quotes and has escapes. A raw one stands in back quotes,
  has no escapes, and loses its carriage returns. `readLiteral` reads a literal from the front of a
  source, and gives what it says together with what follows it. Of the escapes of Go the reader
  knows those that stand in generated source, and refuses the others.
  - An escape is read as the character it was made of, whatever stands behind it
    (`readQuoted_escape`); four hex digits are enough for a control character
    (`hex4?_hex4`).
  - So every text is read back from its literal, and what follows the literal is left as it is
    (`literal_read_back`): no text ends its literal early, and two texts have two literals.
-/

namespace ClientGen.Source

open Json (hex4? hexDigit hexValue?)

/-! ## Reading -/

/-- The letters behind a backslash and what they stand for. -/
def escapes : List (Char × Char) := [('"', '"'), ('\\', '\\'), ('n', '\n'), ('r', '\r'), ('t', '\t')]

def escaped? (c : Char) : Option Char := escapes.lookup c

/-- The character of a code point; a surrogate is none. -/
def character? (n : Nat) : Option Char := if n.isValidChar then some (Char.ofNat n) else none

/-- A character in front of what is read. -/
def before (c : Char) (r : List Char × List Char) : List Char × List Char := (c :: r.1, r.2)

/-- The text up to the closing quote, and what follows the quote. -/
def readQuoted : List Char → Option (List Char × List Char)
  | [] => none
  | '"' :: rest => some ([], rest)
  | '\\' :: 'u' :: a :: b :: c :: d :: rest =>
    ((hex4? a b c d).bind character?).bind fun x => (readQuoted rest).map (before x)
  | '\\' :: e :: rest => (escaped? e).bind fun x => (readQuoted rest).map (before x)
  | c :: rest => if c = '\\' ∨ c = '\n' then none else (readQuoted rest).map (before c)

/-- The text up to the closing back quote, and what follows it. -/
def readRaw : List Char → Option (List Char × List Char)
  | [] => none
  | c :: rest =>
    if c = '\x60' then some ([], rest)
    else if c = '\r' then readRaw rest
    else (readRaw rest).map (before c)

def readLiteral : List Char → Option (List Char × List Char)
  | '"' :: rest => readQuoted rest
  | '\x60' :: rest => readRaw rest
  | _ => none

/-- What may stand between the quotes of an interpreted literal. -/
inductive Body : List Char → Prop where
  | nil : Body []
  | plain {c : Char} {rest : List Char} : c ≠ '"' → c ≠ '\\' → Go.isControl c = false → Body rest → Body (c :: rest)
  | letter {c : Char} {rest : List Char} : (escaped? c).isSome = true → Body rest → Body ('\\' :: c :: rest)
  | code {a b c d : Char} {rest : List Char} : (∀ x ∈ [a, b, c, d], (hexValue? x).isSome = true) → Body rest →
      Body ('\\' :: 'u' :: a :: b :: c :: d :: rest)

/-! ## Code points -/

theorem hexValue?_hexDigit (n : Nat) : hexValue? (hexDigit (n % 16)) = some (n % 16) := by
  have hall : ∀ k < 16, hexValue? (hexDigit k) = some k := by decide
  exact hall (n % 16) (Nat.mod_lt n (by decide))

theorem isControl_hexDigit (n : Nat) : Go.isControl (hexDigit (n % 16)) = false := by
  have hall : ∀ k < 16, Go.isControl (hexDigit k) = false := by decide
  exact hall (n % 16) (Nat.mod_lt n (by decide))

theorem hex4?_hex4 {n : Nat} (h : n < 65536) :
    hex4? (hexDigit (n / 4096 % 16)) (hexDigit (n / 256 % 16)) (hexDigit (n / 16 % 16)) (hexDigit (n % 16)) =
      some n := by
  simp only [hex4?, hexValue?_hexDigit, Option.bind_eq_bind, Option.bind_some, Option.pure_def, Option.some.injEq]
  omega

theorem character?_toNat (c : Char) : character? c.toNat = some c := by
  have hvalid : c.toNat.isValidChar := c.valid
  rw [character?, if_pos hvalid, Char.ofNat_toNat]

theorem lt_of_isControl {c : Char} (h : Go.isControl c = true) : c.toNat < 65536 := by
  simp [Go.isControl] at h
  omega

/-! ## Escapes -/

/-- A character is written as a letter behind a backslash, by its code point, or as it is. -/
theorem escape_cases (c : Char) :
    (∃ e, escaped? e = some c ∧ Go.escape c = ['\\', e]) ∨
    (Go.isControl c = true ∧ Go.escape c = '\\' :: 'u' :: Go.hex4 c.toNat) ∨
    (c ≠ '"' ∧ c ≠ '\\' ∧ Go.isControl c = false ∧ Go.escape c = [c]) := by
  by_cases hquote : c = '"'
  · subst hquote
    exact .inl ⟨'"', rfl, rfl⟩
  by_cases hescape : c = '\\'
  · subst hescape
    exact .inl ⟨'\\', rfl, rfl⟩
  by_cases hfeed : c = '\n'
  · subst hfeed
    exact .inl ⟨'n', rfl, rfl⟩
  by_cases hreturn : c = '\r'
  · subst hreturn
    exact .inl ⟨'r', rfl, rfl⟩
  by_cases htab : c = '\t'
  · subst htab
    exact .inl ⟨'t', rfl, rfl⟩
  by_cases hcontrol : Go.isControl c = true
  · exact .inr (.inl ⟨hcontrol, by simp [Go.escape, hquote, hescape, hfeed, hreturn, htab, hcontrol]⟩)
  · refine .inr (.inr ⟨hquote, hescape, by simpa using hcontrol, ?_⟩)
    simp [Go.escape, hquote, hescape, hfeed, hreturn, htab, hcontrol]

theorem isControl_of_escaped? {e c : Char} (h : escaped? e = some c) : Go.isControl e = false := by
  have hall : ∀ p ∈ escapes, Go.isControl p.1 = false := by decide
  obtain ⟨before, after, heq, -⟩ := List.lookup_eq_some_iff.mp h
  have hmem : (e, c) ∈ escapes := by simp [heq]
  exact hall (e, c) hmem

theorem readQuoted_letter {e c : Char} (h : escaped? e = some c) (rest : List Char) :
    readQuoted ('\\' :: e :: rest) = (readQuoted rest).map (before c) := by
  have hu : e ≠ 'u' := by
    intro hc
    have hnone : escaped? 'u' = none := rfl
    rw [hc, hnone] at h
    cases h
  simp [readQuoted, hu, h]

theorem readQuoted_plain {c : Char} (hquote : c ≠ '"') (hescape : c ≠ '\\') (hfeed : c ≠ '\n') (rest : List Char) :
    readQuoted (c :: rest) = (readQuoted rest).map (before c) := by
  simp [readQuoted, hescape, hfeed]

theorem readQuoted_code (a b c d : Char) (rest : List Char) :
    readQuoted ('\\' :: 'u' :: a :: b :: c :: d :: rest) =
      ((hex4? a b c d).bind character?).bind fun x => (readQuoted rest).map (before x) := rfl

/-- Reading takes the escape of a character, and nothing of what stands behind it. -/
theorem readQuoted_escape (c : Char) (rest : List Char) :
    readQuoted (Go.escape c ++ rest) = (readQuoted rest).map (before c) := by
  rcases escape_cases c with ⟨e, he, hescape⟩ | ⟨hcontrol, hescape⟩ | ⟨hquote, hbackslash, hplain, hescape⟩
  · rw [hescape]
    exact readQuoted_letter he rest
  · have hcode := hex4?_hex4 (lt_of_isControl hcontrol)
    rw [hescape]
    simp only [Go.hex4, List.cons_append, List.nil_append]
    rw [readQuoted_code, hcode, Option.bind_some, character?_toNat, Option.bind_some]
  · have hfeed : c ≠ '\n' := by
      intro hc
      simp [hc, Go.isControl] at hplain
    rw [hescape]
    exact readQuoted_plain hquote hbackslash hfeed rest

theorem body_escape (c : Char) {rest : List Char} (h : Body rest) : Body (Go.escape c ++ rest) := by
  rcases escape_cases c with ⟨e, he, hescape⟩ | ⟨hcontrol, hescape⟩ | ⟨hquote, hbackslash, hplain, hescape⟩
  · rw [hescape]
    exact .letter (by simp [he]) h
  · rw [hescape]
    exact .code (by simp [hexValue?_hexDigit]) h
  · rw [hescape]
    exact .plain hquote hbackslash hplain h

theorem isControl_escape {c x : Char} (h : x ∈ Go.escape c) : Go.isControl x = false := by
  rcases escape_cases c with ⟨e, he, hescape⟩ | ⟨-, hescape⟩ | ⟨-, -, hplain, hescape⟩
  · simp only [hescape, List.mem_cons, List.not_mem_nil, or_false] at h
    rcases h with rfl | rfl
    · decide
    · exact isControl_of_escaped? he
  · simp only [hescape, Go.hex4, List.mem_cons, List.not_mem_nil, or_false] at h
    rcases h with rfl | rfl | rfl | rfl | rfl | rfl
    · decide
    · decide
    · exact isControl_hexDigit _
    · exact isControl_hexDigit _
    · exact isControl_hexDigit _
    · exact isControl_hexDigit _
  · simp only [hescape, List.mem_singleton] at h
    rwa [h]

/-! ## Literals -/

theorem readQuoted_escapes (text following : List Char) :
    readQuoted (text.flatMap Go.escape ++ '"' :: following) = some (text, following) := by
  induction text with
  | nil => rfl
  | cons c text ih => simp [List.append_assoc, readQuoted_escape, ih, before]

theorem body_escapes (text : List Char) : Body (text.flatMap Go.escape) := by
  induction text with
  | nil => exact .nil
  | cons c text ih => exact body_escape c ih

theorem toList_literal (text : String) :
    (Go.literal text).toList = '"' :: text.toList.flatMap Go.escape ++ ['"'] := by
  simp [Go.literal, Go.literalChars]

theorem readLiteral_literal (text : String) (following : List Char) :
    readLiteral ((Go.literal text).toList ++ following) = some (text.toList, following) := by
  simpa [toList_literal, readLiteral] using readQuoted_escapes text.toList following

/-- A text is written between quotes without a control character or a quote of its own, and is
    read back from there whatever follows. -/
theorem literal_read_back (text : String) :
    (∃ body, (Go.literal text).toList = '"' :: body ++ ['"'] ∧ Body body ∧ ∀ c ∈ body, Go.isControl c = false) ∧
    (∀ following, readLiteral ((Go.literal text).toList ++ following) = some (text.toList, following)) ∧
    ∀ other, Go.literal other = Go.literal text → other = text := by
  refine ⟨⟨_, toList_literal text, body_escapes text.toList, ?_⟩, readLiteral_literal text, ?_⟩
  · intro x hx
    obtain ⟨c, -, hx⟩ := List.mem_flatMap.mp hx
    exact isControl_escape hx
  intro other h
  have hread := readLiteral_literal other []
  rw [h, readLiteral_literal text []] at hread
  simpa [String.toList_inj] using hread.symm

end ClientGen.Source

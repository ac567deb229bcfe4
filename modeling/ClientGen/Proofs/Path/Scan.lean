import ClientGen.Model.Path

/-
  ClientGen.Proofs.Path.Scan — what scanning a path makes of a name in braces.

  The scan holds back literal text, and perhaps a brace with the word characters after it; `held`
  is all of that as text.
  - Nothing is lost: the pieces, written one after another, are the path (`written_ofPath`).
  - What stands before a name in braces decides pieces and a text held back, whatever follows
    (`scanPath_append`). So a name of word characters becomes a placeholder wherever it stands
    (`scanPath_placeholder`), and any other name stays in a literal piece (`scanPath_literal`).
  - `binds_ofPath_iff` and `leaves_ofPath` say so for a place in a path.
-/

namespace ClientGen

/-- The names that a placeholder can have. -/
def IsWord (name : List Char) : Prop := name ≠ [] ∧ ∀ c ∈ name, Unicode.isWordChar c = true

instance (name : List Char) : Decidable (IsWord name) :=
  decidable_of_iff ((!name.isEmpty && name.all Unicode.isWordChar) = true) (by simp [IsWord])

/-! ## One character -/

/-- The text that a scan holds back, in reverse. -/
def held (literal : List Char) : Option (List Char) → List Char
  | none => literal
  | some w => w ++ '\x7b' :: literal

theorem not_isWordChar_open : Unicode.isWordChar '\x7b' = false := by decide

theorem not_isWordChar_close : Unicode.isWordChar '\x7d' = false := by decide

theorem flushLiteral_nil : flushLiteral [] = [] := rfl

theorem flushLiteral_of_ne_nil {text : List Char} (h : text ≠ []) : flushLiteral text = [.literal text.reverse] := by
  simp [flushLiteral, h]

theorem mem_flushLiteral {text : List Char} {piece : PathPiece} :
    piece ∈ flushLiteral text ↔ text ≠ [] ∧ piece = .literal text.reverse := by
  by_cases h : text = []
  · simp [h, flushLiteral_nil]
  · simp [flushLiteral_of_ne_nil h, h]

theorem written_flushLiteral (text : List Char) : (flushLiteral text).flatMap PathPiece.written = text.reverse := by
  cases text with
  | nil => rfl
  | cons c rest => simp [flushLiteral, PathPiece.written]

theorem scanPath_nil (literal : List Char) (name : Option (List Char)) :
    scanPath literal name [] = flushLiteral (held literal name) := by
  cases name <;> rfl

/-- An opening brace drops any name begun before it. -/
theorem scanPath_open (literal : List Char) (name : Option (List Char)) (rest : List Char) :
    scanPath literal name ('\x7b' :: rest) = scanPath (held literal name) (some []) rest := by
  cases name <;> simp [scanPath, held, not_isWordChar_open]

theorem scanPath_word {c : Char} (hc : Unicode.isWordChar c = true) (literal w rest : List Char) :
    scanPath literal (some w) (c :: rest) = scanPath literal (some (c :: w)) rest := by
  rw [scanPath, if_pos hc]

theorem scanPath_close {w : List Char} (hw : w ≠ []) (literal rest : List Char) :
    scanPath literal (some w) ('\x7d' :: rest) =
      flushLiteral literal ++ .placeholder w.reverse :: scanPath [] none rest := by
  simp [scanPath, not_isWordChar_close, hw]

/-- Any other character turns what is held back into literal text. -/
theorem scanPath_plain {c : Char} {literal : List Char} {name : Option (List Char)} (hopen : c ≠ '\x7b')
    (hword : ∀ w, name = some w → Unicode.isWordChar c = false ∧ (c = '\x7d' → w = [])) (rest : List Char) :
    scanPath literal name (c :: rest) = scanPath (c :: held literal name) none rest := by
  cases name with
  | none => simp [scanPath, held, hopen]
  | some w =>
    obtain ⟨hc, hclose⟩ := hword w rfl
    simp only [scanPath, hc, Bool.false_eq_true, if_false, if_neg hopen]
    rw [if_neg (by simpa using hclose)]
    rfl

/-- The four things that reading a character can do. -/
theorem read_cases (c : Char) (name : Option (List Char)) :
    c = '\x7b' ∨ (∃ w, name = some w ∧ Unicode.isWordChar c = true) ∨
      (∃ w, name = some w ∧ w ≠ [] ∧ c = '\x7d') ∨
      c ≠ '\x7b' ∧ ∀ w, name = some w → Unicode.isWordChar c = false ∧ (c = '\x7d' → w = []) := by
  by_cases hopen : c = '\x7b'
  · exact .inl hopen
  · cases name with
    | none => exact .inr (.inr (.inr ⟨hopen, by simp⟩))
    | some w =>
      by_cases hc : Unicode.isWordChar c = true
      · exact .inr (.inl ⟨w, rfl, hc⟩)
      · by_cases hclose : c = '\x7d' ∧ w ≠ []
        · exact .inr (.inr (.inl ⟨w, rfl, hclose.2, hclose.1⟩))
        · refine .inr (.inr (.inr ⟨hopen, ?_⟩))
          rintro _ ⟨⟩
          exact ⟨by simpa using hc, by simpa using hclose⟩

/-! ## A whole path -/

/-- Writing the pieces gives back what was held and what was read. -/
theorem written_scanPath (literal : List Char) (name : Option (List Char)) (cs : List Char) :
    (scanPath literal name cs).flatMap PathPiece.written = (held literal name).reverse ++ cs := by
  induction cs generalizing literal name with
  | nil => rw [scanPath_nil, written_flushLiteral, List.append_nil]
  | cons c cs ih =>
    rcases read_cases c name with rfl | ⟨w, rfl, hc⟩ | ⟨w, rfl, hw, rfl⟩ | ⟨hopen, hword⟩
    · rw [scanPath_open, ih]; simp [held]
    · rw [scanPath_word hc, ih]; simp [held]
    · rw [scanPath_close hw, List.flatMap_append, List.flatMap_cons, written_flushLiteral, ih]
      simp [held, PathPiece.written]
    · rw [scanPath_plain hopen hword, ih]; simp [held]

theorem PathTemplate.written_ofPath (path : String) :
    (ofPath path).pieces.flatMap PathPiece.written = path.toList := written_scanPath [] none path.toList

/-- Every placeholder is a word, as long as the name begun consists of word characters. -/
theorem isWord_of_mem_scanPath {literal : List Char} {name : Option (List Char)} {cs word : List Char}
    (hname : ∀ w, name = some w → ∀ c ∈ w, Unicode.isWordChar c = true)
    (h : .placeholder word ∈ scanPath literal name cs) : IsWord word := by
  have hflush (text : List Char) : .placeholder word ∉ flushLiteral text := by simp [mem_flushLiteral]
  induction cs generalizing literal name with
  | nil =>
    rw [scanPath_nil] at h
    exact absurd h (hflush _)
  | cons c cs ih =>
    rcases read_cases c name with rfl | ⟨w, rfl, hc⟩ | ⟨w, rfl, hw, rfl⟩ | ⟨hopen, hword⟩
    · rw [scanPath_open] at h
      exact ih (by simp) h
    · rw [scanPath_word hc] at h
      refine ih ?_ h
      rintro _ ⟨⟩
      exact List.forall_mem_cons.mpr ⟨hc, hname w rfl⟩
    · rw [scanPath_close hw] at h
      rcases List.mem_append.mp h with h | h
      · exact absurd h (hflush _)
      · rcases List.mem_cons.mp h with h | h
        · injection h with h
          subst h
          exact ⟨by simpa using hw, by simpa using hname w rfl⟩
        · exact ih (by simp) h
    · rw [scanPath_plain hopen hword] at h
      exact ih (by simp) h

/-- Reading `before` gives pieces and holds text back, whatever comes next. -/
theorem scanPath_append (literal : List Char) (name : Option (List Char)) (before : List Char) :
    ∃ front literal' name', (∀ rest, scanPath literal name (before ++ rest) = front ++ scanPath literal' name' rest) ∧
      front.flatMap PathPiece.written ++ (held literal' name').reverse = (held literal name).reverse ++ before := by
  suffices h : ∃ front literal' name', ∀ rest,
      scanPath literal name (before ++ rest) = front ++ scanPath literal' name' rest by
    obtain ⟨front, literal', name', h⟩ := h
    have hwritten := congrArg (List.flatMap PathPiece.written) (h [])
    simp only [List.append_nil, List.flatMap_append, written_scanPath] at hwritten
    exact ⟨front, literal', name', h, hwritten.symm⟩
  induction before generalizing literal name with
  | nil => exact ⟨[], literal, name, fun _ => rfl⟩
  | cons c cs ih =>
    simp only [List.cons_append]
    rcases read_cases c name with rfl | ⟨w, rfl, hc⟩ | ⟨w, rfl, hw, rfl⟩ | ⟨hopen, hword⟩
    · simp only [scanPath_open]
      exact ih _ _
    · simp only [scanPath_word hc]
      exact ih _ _
    · obtain ⟨front, literal', name', h⟩ := ih [] none
      refine ⟨flushLiteral literal ++ .placeholder w.reverse :: front, literal', name', fun rest => ?_⟩
      simp [scanPath_close hw, h]
    · simp only [scanPath_plain hopen hword]
      exact ih _ _

/-! ## A name in braces -/

theorem scanPath_words {word : List Char} (h : ∀ c ∈ word, Unicode.isWordChar c = true) (literal w rest : List Char) :
    scanPath literal (some w) (word ++ rest) = scanPath literal (some (word.reverse ++ w)) rest := by
  induction word generalizing w with
  | nil => rfl
  | cons c word ih =>
    obtain ⟨hc, hword⟩ := List.forall_mem_cons.mp h
    rw [List.cons_append, scanPath_word hc, ih hword]
    simp

theorem scanPath_placeholder {word : List Char} (h : IsWord word) (literal : List Char) (name : Option (List Char))
    (rest : List Char) :
    scanPath literal name ((PathPiece.placeholder word).written ++ rest) =
      flushLiteral (held literal name) ++ .placeholder word :: scanPath [] none rest := by
  simp only [PathPiece.written, List.cons_append, List.append_assoc, List.nil_append]
  rw [scanPath_open, scanPath_words h.2, List.append_nil, scanPath_close (by simpa using h.1), List.reverse_reverse]

theorem scanPath_unopened {text : List Char} (h : '\x7b' ∉ text) (literal rest : List Char) :
    scanPath literal none (text ++ rest) = scanPath (text.reverse ++ literal) none rest := by
  induction text generalizing literal with
  | nil => rfl
  | cons c text ih =>
    simp only [List.mem_cons, not_or] at h
    rw [List.cons_append, scanPath_plain (Ne.symm h.1) (by simp), ih h.2]
    simp [held]

/-- A name begun in braces that is no word ends as literal text, with the brace that closes it. -/
theorem scanPath_unnamed {name w : List Char} (hopen : '\x7b' ∉ name) (hclose : '\x7d' ∉ name)
    (h : w ++ name = [] ∨ ∃ c ∈ name, Unicode.isWordChar c = false) (literal rest : List Char) :
    scanPath literal (some w) (name ++ '\x7d' :: rest) =
      scanPath ('\x7d' :: name.reverse ++ held literal (some w)) none rest := by
  induction name generalizing w with
  | nil =>
    obtain rfl : w = [] := by simpa using h
    exact scanPath_plain (by decide) (by simp [not_isWordChar_close]) rest
  | cons c name ih =>
    simp only [List.mem_cons, not_or] at hopen hclose
    rw [List.cons_append]
    by_cases hc : Unicode.isWordChar c = true
    · have hrest : ∃ c ∈ name, Unicode.isWordChar c = false := by simpa [hc] using h
      rw [scanPath_word hc, ih hopen.2 hclose.2 (.inr hrest)]
      simp [held]
    · have hplain : ∀ w', some w = some w' → Unicode.isWordChar c = false ∧ (c = '\x7d' → w' = []) :=
        fun _ _ => ⟨by simpa using hc, fun he => absurd he.symm hclose.1⟩
      have hunopened : '\x7b' ∉ name ++ ['\x7d'] := by simp [hopen.2]
      have hscan := scanPath_unopened hunopened (c :: held literal (some w)) rest
      rw [scanPath_plain (Ne.symm hopen.1) hplain]
      simpa using hscan

theorem scanPath_literal {name : List Char} (hopen : '\x7b' ∉ name) (hclose : '\x7d' ∉ name) (h : ¬ IsWord name)
    (literal : List Char) (begun : Option (List Char)) (rest : List Char) :
    scanPath literal begun ((PathPiece.placeholder name).written ++ rest) =
      scanPath ((PathPiece.placeholder name).written.reverse ++ held literal begun) none rest := by
  have hname : [] ++ name = [] ∨ ∃ c ∈ name, Unicode.isWordChar c = false := by
    by_cases hnil : name = []
    · exact .inl hnil
    · exact .inr (by simpa [IsWord, hnil] using h)
  have hscan := scanPath_unnamed hopen hclose hname (held literal begun) rest
  simp only [PathPiece.written, List.cons_append, List.append_assoc, List.nil_append, scanPath_open]
  simpa [held] using hscan

theorem exists_held (literal : List Char) (name : Option (List Char)) :
    ∃ more, held literal name = more ++ literal := by
  cases name with
  | none => exact ⟨[], rfl⟩
  | some w => exact ⟨w ++ ['\x7b'], by simp [held]⟩

/-- Literal text held back begins the next piece. -/
theorem scanPath_begins {literal : List Char} (h : literal ≠ []) (name : Option (List Char)) (cs : List Char) :
    ∃ text back, scanPath literal name cs = .literal (literal.reverse ++ text) :: back := by
  induction cs generalizing literal name with
  | nil =>
    obtain ⟨more, hmore⟩ := exists_held literal name
    exact ⟨more.reverse, [], by rw [scanPath_nil, hmore, flushLiteral_of_ne_nil (by simp [h])]; simp⟩
  | cons c cs ih =>
    rcases read_cases c name with rfl | ⟨w, rfl, hc⟩ | ⟨w, rfl, hw, rfl⟩ | ⟨hopen, hword⟩
    · obtain ⟨more, hmore⟩ := exists_held literal name
      obtain ⟨text, back, hscan⟩ := ih (List.append_ne_nil_of_right_ne_nil more h) (some [])
      exact ⟨more.reverse ++ text, back, by rw [scanPath_open, hmore, hscan]; simp⟩
    · rw [scanPath_word hc]
      exact ih h _
    · exact ⟨[], .placeholder w.reverse :: scanPath [] none cs, by rw [scanPath_close hw, flushLiteral_of_ne_nil h]; simp⟩
    · obtain ⟨more, hmore⟩ := exists_held literal name
      obtain ⟨text, back, hscan⟩ := ih (List.cons_ne_nil c (more ++ literal)) none
      exact ⟨more.reverse ++ c :: text, back, by rw [scanPath_plain hopen hword, hmore, hscan]; simp⟩

/-! ## Places in a path -/

namespace PathTemplate

/-- Between `before` and `after`, the template has a placeholder of this name. -/
def Binds (t : PathTemplate) (before name after : List Char) : Prop :=
  ∃ front back, t.pieces = front ++ .placeholder name :: back ∧
    front.flatMap PathPiece.written = before ∧ back.flatMap PathPiece.written = after

/-- Between `before` and `after`, the template has the name and its braces inside a literal piece. -/
def Leaves (t : PathTemplate) (before name after : List Char) : Prop :=
  ∃ front text more back,
    t.pieces = front ++ .literal (text ++ (PathPiece.placeholder name).written ++ more) :: back ∧
      front.flatMap PathPiece.written ++ text = before ∧ more ++ back.flatMap PathPiece.written = after

variable {path : String} {before name after : List Char}

theorem parameters_eq (t : PathTemplate) : t.parameters = t.placeholders.map Name.camel := by
  unfold parameters parts placeholders
  rw [List.filterMap_map, List.map_filterMap]
  congr 1
  funext piece
  cases piece <;> rfl

theorem mem_placeholders_of_binds {t : PathTemplate} (h : t.Binds before name after) :
    String.ofList name ∈ t.placeholders := by
  obtain ⟨front, back, hpieces, -⟩ := h
  rw [placeholders, hpieces]
  exact List.mem_filterMap.mpr ⟨.placeholder name, by simp, rfl⟩

theorem param_mem_parts_of_binds {t : PathTemplate} (h : t.Binds before name after) :
    .param (Name.camel (String.ofList name)) ∈ t.parts := by
  obtain ⟨front, back, hpieces, -⟩ := h
  rw [parts, hpieces]
  exact List.mem_map.mpr ⟨.placeholder name, by simp, rfl⟩

/-- A name in braces becomes a placeholder exactly if it is a word. -/
theorem binds_ofPath_iff (hpath : path.toList = before ++ (PathPiece.placeholder name).written ++ after) :
    (ofPath path).Binds before name after ↔ IsWord name := by
  constructor
  · rintro ⟨front, back, hpieces, -⟩
    have hmem : .placeholder name ∈ (ofPath path).pieces := by rw [hpieces]; simp
    exact isWord_of_mem_scanPath (by simp) hmem
  · intro hword
    obtain ⟨front, literal, begun, hscan, hfront⟩ := scanPath_append [] none before
    refine ⟨front ++ flushLiteral (held literal begun), scanPath [] none after, ?_, ?_, ?_⟩
    · show scanPath [] none path.toList = _
      rw [hpath, List.append_assoc, hscan, scanPath_placeholder hword, List.append_assoc]
    · rw [List.flatMap_append, written_flushLiteral, hfront]
      rfl
    · rw [written_scanPath]
      rfl

/-- A name in braces that is no word, and has no braces of its own, stays literal text. -/
theorem leaves_ofPath (hpath : path.toList = before ++ (PathPiece.placeholder name).written ++ after)
    (hopen : '\x7b' ∉ name) (hclose : '\x7d' ∉ name) (hword : ¬ IsWord name) :
    (ofPath path).Leaves before name after := by
  obtain ⟨front, literal, begun, hscan, hfront⟩ := scanPath_append [] none before
  have hpieces : (ofPath path).pieces =
      front ++ scanPath ((PathPiece.placeholder name).written.reverse ++ held literal begun) none after := by
    show scanPath [] none path.toList = _
    rw [hpath, List.append_assoc, hscan, scanPath_literal hopen hclose hword]
  have hheld : (PathPiece.placeholder name).written.reverse ++ held literal begun ≠ [] := by simp [PathPiece.written]
  obtain ⟨more, back, hbegins⟩ := scanPath_begins hheld none after
  refine ⟨front, (held literal begun).reverse, more, back, ?_, hfront, ?_⟩
  · rw [hpieces, hbegins]
    simp
  · have hwritten := congrArg (List.flatMap PathPiece.written) hbegins
    rw [written_scanPath] at hwritten
    simpa [PathPiece.written, held] using hwritten.symm

end PathTemplate

end ClientGen

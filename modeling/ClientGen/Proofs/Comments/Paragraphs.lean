import ClientGen.Proofs.Comments.Lines

/-
  ClientGen.Proofs.Comments.Paragraphs — what of a text is in its comment.

  A comment has the lines of its text that are not empty once they are cleaned, in order. What
  happens to the empty ones is told by how many stand in front of each of the others (`spaced`):
  one stays where there was any, and none stays in front of the first or behind the last
  (`spaced_collapse`).
  - A cleaned line has no character that cleaning replaces, and none of the later steps brings
    back what an earlier one took away (`tidy_cleanLine`). Such a line is left alone
    (`cleanLine_of_tidy`).
  - What cleaning takes away is spacing: all other characters of a text are in its comment, the
    typographic ones as ASCII (`visible_commentLines`).
-/

namespace ClientGen.Text

/-! ## Empty lines -/

/-- The lines that are not empty, each with the number of empty lines in front of it. -/
def spacedFrom (empties : Nat) : List (List Char) → List (Nat × List Char)
  | [] => []
  | line :: rest => if line.isEmpty then spacedFrom (empties + 1) rest else (empties, line) :: spacedFrom 0 rest

def spaced (lines : List (List Char)) : List (Nat × List Char) := spacedFrom 0 lines

/-- One empty line for many. -/
def single (entry : Nat × List Char) : Nat × List Char := (if entry.1 = 0 then 0 else 1, entry.2)

/-- No empty line in front of the first line, and one for many in front of the others. -/
def tighten : List (Nat × List Char) → List (Nat × List Char)
  | [] => []
  | (_, line) :: rest => (0, line) :: rest.map single

variable {lines : List (List Char)} {line : List Char}

theorem lines_spacedFrom (empties : Nat) (lines : List (List Char)) :
    (spacedFrom empties lines).map (·.2) = lines.filter (!·.isEmpty) := by
  induction lines generalizing empties with
  | nil => rfl
  | cons line rest ih =>
    by_cases hempty : line.isEmpty = true
    · simp [spacedFrom, hempty, ih]
    · simp [spacedFrom, hempty, ih]

theorem lines_tighten (entries : List (Nat × List Char)) : (tighten entries).map (·.2) = entries.map (·.2) := by
  cases entries with
  | nil => rfl
  | cons entry rest => simp [tighten, single]

/-- Behind a line, where `empties` have been read so far and at most one of them has been kept. -/
theorem spacedFrom_collapseFrom (empties : Nat) (lines : List (List Char)) :
    spacedFrom (if empties = 0 then 0 else 1) (collapseFrom (empties != 0) lines) =
      (spacedFrom empties lines).map single := by
  induction lines generalizing empties with
  | nil => simp [collapseFrom, spacedFrom]
  | cons line rest ih =>
    by_cases hempty : line.isEmpty = true
    · have hrest := ih (empties + 1)
      by_cases hnone : empties = 0
      · simp [collapseFrom, spacedFrom, hempty, hnone] at hrest ⊢
        exact hrest
      · simp [collapseFrom, spacedFrom, hempty, hnone] at hrest ⊢
        exact hrest
    · have hrest := ih 0
      simp [collapseFrom, spacedFrom, hempty, single] at hrest ⊢
      exact hrest

/-- In front of the first line none is kept. -/
theorem spaced_collapseFrom (empties : Nat) (lines : List (List Char)) :
    spaced (collapseFrom true lines) = tighten (spacedFrom empties lines) := by
  induction lines generalizing empties with
  | nil => rfl
  | cons line rest ih =>
    by_cases hempty : line.isEmpty = true
    · simpa [collapseFrom, spacedFrom, hempty] using ih (empties + 1)
    · have hrest := spacedFrom_collapseFrom 0 rest
      simpa [collapseFrom, spaced, spacedFrom, hempty, tighten] using hrest

theorem spacedFrom_concat_empty (hempty : line.isEmpty = true) (empties : Nat) (lines : List (List Char)) :
    spacedFrom empties (lines ++ [line]) = spacedFrom empties lines := by
  induction lines generalizing empties with
  | nil => simp [spacedFrom, hempty]
  | cons first rest ih => simp [spacedFrom, ih]

theorem spaced_rdropWhile (lines : List (List Char)) : spaced (lines.rdropWhile List.isEmpty) = spaced lines := by
  induction lines using List.reverseRecOn with
  | nil => rfl
  | append_singleton rest line ih =>
    by_cases hempty : line.isEmpty = true
    · rw [List.rdropWhile_concat_pos _ _ _ hempty, ih, spaced, spaced, spacedFrom_concat_empty hempty]
    · rw [List.rdropWhile_concat_neg _ _ _ hempty]

theorem collapse_eq (lines : List (List Char)) : collapse lines = (collapseFrom true lines).rdropWhile List.isEmpty := rfl

theorem spaced_collapse (lines : List (List Char)) : spaced (collapse lines) = tighten (spaced lines) := by
  rw [collapse_eq, spaced_rdropWhile, spaced_collapseFrom 0, spaced]

theorem filter_collapse (lines : List (List Char)) :
    (collapse lines).filter (!·.isEmpty) = lines.filter (!·.isEmpty) := by
  rw [← lines_spacedFrom 0, ← spaced, spaced_collapse, lines_tighten, spaced, lines_spacedFrom]

theorem head?_collapseFrom (lines : List (List Char)) : (collapseFrom true lines).head? ≠ some [] := by
  induction lines with
  | nil => simp [collapseFrom]
  | cons line rest ih =>
    by_cases hempty : line.isEmpty = true
    · simpa [collapseFrom, hempty] using ih
    · have hne : line ≠ [] := by simpa using hempty
      simpa [collapseFrom, hempty] using hne

/-- No empty line stands in front of the first line. -/
theorem head?_collapse (lines : List (List Char)) : (collapse lines).head? ≠ some [] := by
  obtain ⟨dropped, hdropped⟩ := List.rdropWhile_prefix List.isEmpty (collapseFrom true lines)
  intro h
  apply head?_collapseFrom lines
  rw [← hdropped, List.head?_append, ← collapse_eq, h, Option.some_or]

/-- What is dropped at the end goes on to the last element that has to stay. -/
theorem not_of_getLast?_rdropWhile {α : Type} {p : α → Bool} {xs : List α} {x : α}
    (h : (xs.rdropWhile p).getLast? = some x) : p x = false := by
  obtain ⟨front, hfront⟩ := List.getLast?_eq_some_iff.mp h
  have hne : xs.rdropWhile p ≠ [] := by simp [hfront]
  have hstays := List.rdropWhile_last_not p xs hne
  simpa [hfront] using hstays

theorem getLast?_collapse (lines : List (List Char)) : (collapse lines).getLast? ≠ some [] := by
  intro h
  have hstays := not_of_getLast?_rdropWhile (collapse_eq lines ▸ h)
  simp at hstays

/-! ## Characters of a line -/

/-- The quotes, the dashes and the space that a comment has ASCII characters for. -/
def typographic : List Char := ['\u2018', '\u2019', '\u201C', '\u201D', '\u2013', '\u2014', '\u00A0']

/-- A line as it stands in a comment. -/
structure Tidy (line : List Char) : Prop where
  oneLine : '\n' ∉ line
  noTab : '\t' ∉ line
  noTerminator : ¬ ['*', '/'] <:+: line
  noSpaceBehind : line.getLast? ≠ some ' '
  plain : ∀ c ∈ line, c ∉ typographic

theorem plainChar_not_mem (c : Char) : plainChar c ∉ typographic := by
  unfold plainChar
  split
  · decide
  split
  · decide
  split
  · decide
  split
  · decide
  · simp_all [typographic]

theorem mem_expandTab {c d : Char} (h : d ∈ expandTab c) : d ≠ '\t' ∧ (d = ' ' ∨ d = c) := by
  unfold expandTab at h
  split at h
  · simp at h
    simp [h]
  · simp at h
    simp_all

/-- A character of a cleaned line is a space or a plain one of the line, and no tab. -/
theorem mem_cleanLine {c : Char} (h : c ∈ cleanLine line) : c ≠ '\t' ∧ (c = ' ' ∨ ∃ d, c = plainChar d) := by
  have hbroken := (Unicode.dropRight_sublist _ _).mem h
  rcases mem_breakTerminator hbroken with hspace | hmem
  · simp [hspace]
  · obtain ⟨d, hd, hc⟩ := List.mem_flatMap.mp hmem
    obtain ⟨e, -, rfl⟩ := List.mem_map.mp hd
    obtain ⟨htab, hspace | heq⟩ := mem_expandTab hc
    · exact ⟨htab, .inl hspace⟩
    · exact ⟨htab, .inr ⟨e, heq⟩⟩

theorem head?_breakTerminator (cs : List Char) : (breakTerminator cs).head? = cs.head? := by
  fun_cases breakTerminator cs <;> simp

theorem noTerminator_breakTerminator (cs : List Char) : ¬ ['*', '/'] <:+: breakTerminator cs := by
  induction cs using breakTerminator.induct with
  | case1 rest ih =>
    simp [breakTerminator, List.infix_cons_iff, ih]
  | case2 c rest hend ih =>
    rw [breakTerminator, List.infix_cons_iff]
    · intro h
      rcases h with h | h
      · obtain ⟨hstar, hslash⟩ := List.cons_prefix_cons.mp h
        obtain ⟨more, hmore⟩ := hslash
        have hhead : rest.head? = some '/' := by
          rw [← head?_breakTerminator, ← hmore]
          rfl
        obtain ⟨rest, rfl⟩ := List.head?_eq_some_iff.mp hhead
        exact hend rest hstar.symm rfl
      · exact ih h
    · exact hend
  | case3 => simp [breakTerminator]

theorem tidy_cleanLine (h : '\n' ∉ line) : Tidy (cleanLine line) where
  oneLine := newline_not_mem_cleanLine h
  noTab := by
    intro hmem
    exact (mem_cleanLine hmem).1 rfl
  noTerminator := by
    intro hwithin
    refine noTerminator_breakTerminator ((line.map plainChar).flatMap expandTab) (hwithin.trans ?_)
    exact (List.rdropWhile_prefix _ _).isInfix
  noSpaceBehind := by
    intro hlast
    have hstays := not_of_getLast?_rdropWhile hlast
    simp at hstays
  plain := by
    intro c hc
    obtain ⟨-, hspace | ⟨d, hd⟩⟩ := mem_cleanLine hc
    · rw [hspace]
      decide
    · rw [hd]
      exact plainChar_not_mem d

/-! ## What cleaning keeps -/

/-- The characters that take up space only. -/
def spacing : List Char := [' ', '\t', '\n', '\r']

def visible (cs : List Char) : List Char := cs.filter (· ∉ spacing)

@[simp] theorem visible_append (cs ds : List Char) : visible (cs ++ ds) = visible cs ++ visible ds := List.filter_append ..

theorem visible_flatten (lines : List (List Char)) : visible lines.flatten = lines.flatMap visible := by
  rw [visible, List.filter_flatten, List.flatMap_def]
  rfl

@[simp] theorem visible_expandTabs (cs : List Char) : visible (cs.flatMap expandTab) = visible cs := by
  induction cs with
  | nil => rfl
  | cons c rest ih =>
    have hc : visible (expandTab c) = visible [c] := by
      unfold expandTab
      split
      · simp_all [visible, spacing]
      · rfl
    rw [List.flatMap_cons, visible_append, hc, ih, ← visible_append, List.singleton_append]

@[simp] theorem visible_breakTerminator (cs : List Char) : visible (breakTerminator cs) = visible cs := by
  induction cs using breakTerminator.induct with
  | case1 rest ih => simpa [breakTerminator, visible, spacing] using ih
  | case2 c rest hend ih =>
    rw [breakTerminator]
    · rw [← List.singleton_append, visible_append, ih, ← visible_append, List.singleton_append]
    · exact hend
  | case3 => rfl

theorem visible_rdropWhile {p : Char → Bool} (hp : ∀ c, p c = true → c ∈ spacing) (cs : List Char) :
    visible (cs.rdropWhile p) = visible cs := by
  induction cs using List.reverseRecOn with
  | nil => rfl
  | append_singleton rest c ih =>
    by_cases hc : p c = true
    · have hnone : visible [c] = [] := by simp [visible, hp c hc]
      rw [List.rdropWhile_concat_pos _ _ _ hc, ih, visible_append, hnone, List.append_nil]
    · rw [List.rdropWhile_concat_neg _ _ _ hc]

/-- Cleaning a line changes its spacing, and puts ASCII characters for the typographic ones. -/
theorem visible_cleanLine (line : List Char) : visible (cleanLine line) = visible (line.map plainChar) := by
  have hspacing : ∀ c : Char, (c == ' ' || c == '\t') = true → c ∈ spacing := by simp +contextual [spacing]
  have hdropped := visible_rdropWhile hspacing (breakTerminator ((line.map plainChar).flatMap expandTab))
  rw [visible_breakTerminator, visible_expandTabs] at hdropped
  exact hdropped

theorem plainChar_of_not_mem {c : Char} (h : c ∉ typographic) : plainChar c = c := by
  simp only [typographic, List.mem_cons, List.not_mem_nil, or_false, not_or] at h
  simp [plainChar, h]

theorem expandTabs_of_not_mem {cs : List Char} (h : '\t' ∉ cs) : cs.flatMap expandTab = cs := by
  have hone : ∀ c ∈ cs, expandTab c = [c] := by
    intro c hc
    refine if_neg ?_
    rintro rfl
    exact h hc
  rw [List.flatMap_congr hone, ← List.map_eq_flatMap, List.map_id']

theorem breakTerminator_of_not_infix {cs : List Char} (h : ¬ ['*', '/'] <:+: cs) : breakTerminator cs = cs := by
  induction cs using breakTerminator.induct with
  | case1 rest ih => exact absurd ⟨[], rest, rfl⟩ h
  | case2 c rest hend ih =>
    rw [breakTerminator]
    · rw [ih fun hrest => h (hrest.trans (List.suffix_cons c rest).isInfix)]
    · exact hend
  | case3 => rfl

/-- Cleaning leaves a line alone that is fit for a comment. -/
theorem cleanLine_of_tidy (h : Tidy line) : cleanLine line = line := by
  have hplain : line.map plainChar = line := by
    rw [List.map_congr_left fun c hc => plainChar_of_not_mem (h.plain c hc), List.map_id']
  rw [cleanLine, hplain, expandTabs_of_not_mem h.noTab, breakTerminator_of_not_infix h.noTerminator]
  refine List.rdropWhile_eq_self_iff.mpr fun hne => ?_
  have hlast := List.getLast?_eq_some_getLast hne
  have hspace : line.getLast hne ≠ ' ' := fun he => h.noSpaceBehind (he ▸ hlast)
  have htab : line.getLast hne ≠ '\t' := fun he => h.noTab (he ▸ List.getLast_mem hne)
  simp [hspace, htab]

theorem cleanLine_cleanLine (h : '\n' ∉ line) : cleanLine (cleanLine line) = cleanLine line :=
  cleanLine_of_tidy (tidy_cleanLine h)

/-! ## Comments -/

/-- The lines of a text lack its line ends. -/
theorem visible_splitLinesFrom (current cs : List Char) :
    visible ((splitLinesFrom current cs).flatten.map plainChar) = visible ((current.reverse ++ cs).map plainChar) := by
  induction cs generalizing current with
  | nil =>
    by_cases hnone : current.isEmpty = true
    · simp_all [splitLinesFrom]
    · simp [splitLinesFrom, hnone]
  | cons c rest ih =>
    by_cases hc : c = '\n'
    · subst hc
      have hnewline : visible [plainChar '\n'] = [] := by decide
      have hreturn : visible [plainChar '\r'] = [] := by decide
      have hrest := ih []
      rw [List.reverse_nil, List.nil_append] at hrest
      unfold splitLinesFrom
      rw [if_pos rfl, List.flatten_cons, List.map_append, visible_append, hrest, List.map_append,
        visible_append, ← List.singleton_append (l := rest), List.map_append, visible_append, List.map_singleton,
        hnewline, List.nil_append]
      congr 1
      split
      · rw [List.reverse_cons, List.map_append, visible_append, List.map_singleton, hreturn, List.append_nil]
      · rfl
    · unfold splitLinesFrom
      rw [if_neg hc, ih, List.reverse_cons, List.append_assoc, List.singleton_append]

theorem lines_commentLines (text : String) :
    (commentLines text).map String.toList = collapse ((splitLines text.toList).map cleanLine) := by
  simp [commentLines, commentLineChars]

/-- Apart from spacing, a comment has the characters of its text, in order. -/
theorem visible_commentLines (text : String) :
    visible ((commentLines text).map String.toList).flatten = visible (text.toList.map plainChar) := by
  have hcleaned : ∀ line ∈ splitLines text.toList, visible (cleanLine line) = visible (line.map plainChar) :=
    fun line _ => visible_cleanLine line
  rw [lines_commentLines, ← List.flatten_filter_not_isEmpty, filter_collapse, List.flatten_filter_not_isEmpty,
    visible_flatten, List.flatMap_map, List.flatMap_congr hcleaned]
  have hsplit := visible_splitLinesFrom [] text.toList
  rw [List.map_flatten, visible_flatten, List.flatMap_map] at hsplit
  exact hsplit

/-- The lines of a comment are the cleaned lines of the text that are not empty, with one empty
    line between two of them if there was any, and all are fit for a comment. -/
theorem commentLines_paragraphs (text : String) :
    let cleaned := (splitLines text.toList).map cleanLine
    let lines := (commentLines text).map String.toList
    lines.filter (!·.isEmpty) = cleaned.filter (!·.isEmpty) ∧ spaced lines = tighten (spaced cleaned) ∧
      lines.head? ≠ some [] ∧ lines.getLast? ≠ some [] ∧ ∀ line ∈ lines, Tidy line := by
  intro cleaned lines
  have hlines : lines = collapse cleaned := lines_commentLines text
  rw [hlines]
  refine ⟨filter_collapse cleaned, spaced_collapse cleaned, head?_collapse cleaned, getLast?_collapse cleaned, ?_⟩
  intro line hline
  obtain ⟨raw, hraw, rfl⟩ := List.mem_map.mp ((collapse_sublist cleaned).mem hline)
  exact tidy_cleanLine (newline_not_mem_splitLinesFrom List.not_mem_nil raw hraw)

end ClientGen.Text

import ClientGen.Go.Declare
import ClientGen.Proofs.Names.Line

/-
  ClientGen.Proofs.Comments.Lines — free text in comments.

  A text is cut at its line feeds, and nothing that is done to a line afterwards makes one: a
  cleaned line has only characters of the line and spaces. So no line of a comment has a line
  feed (`oneLine_of_mem_commentLines`), nor has a text put on one line (`oneLine_singleLine`).
  Documentation puts a name in front of its first line (`oneLine_of_mem_namedDoc`).
-/

namespace ClientGen

theorem oneLine_intercalate {separator : String} {parts : List String} (hseparator : OneLine separator)
    (hparts : ∀ part ∈ parts, OneLine part) : OneLine (separator.intercalate parts) := by
  induction parts with
  | nil => exact List.not_mem_nil
  | cons first rest ih =>
    obtain ⟨hfirst, hrest⟩ := List.forall_mem_cons.mp hparts
    cases rest with
    | nil => exact hfirst
    | cons second rest =>
      rw [String.intercalate_cons_cons]
      exact (hfirst.append hseparator).append (ih hrest)

namespace Unicode

theorem dropRight_sublist (p : Char → Bool) (cs : List Char) : (dropRight p cs).Sublist cs := by
  have h := (List.dropWhile_sublist (l := cs.reverse) p).reverse
  rwa [List.reverse_reverse] at h

theorem oneLine_trim {s : String} (h : OneLine s) : OneLine (trim s) :=
  oneLine_ofList.mpr fun hmem =>
    h ((List.dropWhile_sublist _).mem ((dropRight_sublist _ _).mem hmem))

end Unicode

namespace Text

/-! ## Lines -/

theorem newline_not_mem_splitLinesFrom {cs current : List Char} (h : '\n' ∉ current) :
    ∀ line ∈ splitLinesFrom current cs, '\n' ∉ line := by
  induction cs generalizing current with
  | nil =>
    intro line hline
    unfold splitLinesFrom at hline
    split at hline
    · cases hline
    · rw [List.mem_singleton.mp hline, List.mem_reverse]
      exact h
  | cons c rest ih =>
    intro line hline
    unfold splitLinesFrom at hline
    split at hline
    · rcases List.mem_cons.mp hline with rfl | hline
      · split
        · rw [List.mem_reverse]
          exact fun hmem => h (List.mem_cons_of_mem _ hmem)
        · rw [List.mem_reverse]
          exact h
      · exact ih List.not_mem_nil line hline
    · rename_i hc
      have hcurrent : '\n' ∉ c :: current := by
        intro hmem
        rcases List.mem_cons.mp hmem with rfl | hmem
        · exact hc rfl
        · exact h hmem
      exact ih hcurrent line hline

/-! ## Cleaning -/

theorem eq_newline_of_plainChar {c : Char} (h : plainChar c = '\n') : c = '\n' := by
  unfold plainChar at h
  split at h
  · cases h
  · split at h
    · cases h
    · split at h
      · cases h
      · split at h
        · cases h
        · exact h

theorem mem_expandTab_newline {c : Char} (h : '\n' ∈ expandTab c) : c = '\n' := by
  unfold expandTab at h
  split at h
  · exact absurd h (by decide)
  · exact (List.mem_singleton.mp h).symm

theorem mem_breakTerminator {c : Char} {cs : List Char} (h : c ∈ breakTerminator cs) : c = ' ' ∨ c ∈ cs := by
  induction cs using breakTerminator.induct with
  | case1 rest ih =>
    simp only [breakTerminator, List.mem_cons] at h ⊢
    tauto
  | case2 d rest hend ih =>
    rw [breakTerminator] at h
    · simp only [List.mem_cons] at h ⊢
      tauto
    · exact hend
  | case3 => cases h

theorem newline_not_mem_cleanLine {line : List Char} (h : '\n' ∉ line) : '\n' ∉ cleanLine line := by
  intro hmem
  rcases mem_breakTerminator ((Unicode.dropRight_sublist _ _).mem hmem) with hspace | hmem
  · exact absurd hspace (by decide)
  · obtain ⟨c, hc, hnewline⟩ := List.mem_flatMap.mp hmem
    rw [mem_expandTab_newline hnewline] at hc
    obtain ⟨d, hd, hplain⟩ := List.mem_map.mp hc
    exact h (eq_newline_of_plainChar hplain ▸ hd)

/-! ## Comments -/

theorem collapseFrom_sublist (afterEmpty : Bool) (lines : List (List Char)) :
    (collapseFrom afterEmpty lines).Sublist lines := by
  induction lines generalizing afterEmpty with
  | nil => exact .slnil
  | cons line rest ih =>
    unfold collapseFrom
    split
    · exact (ih true).cons line
    · exact (ih line.isEmpty).cons_cons line

theorem collapse_sublist (lines : List (List Char)) : (collapse lines).Sublist lines := by
  have h := (List.dropWhile_sublist (l := (collapseFrom true lines).reverse) List.isEmpty).reverse
  rw [List.reverse_reverse] at h
  exact h.trans (collapseFrom_sublist true lines)

theorem oneLine_of_mem_commentLines {text line : String} (h : line ∈ commentLines text) : OneLine line := by
  obtain ⟨cs, hcs, rfl⟩ := List.mem_map.mp h
  obtain ⟨raw, hraw, rfl⟩ := List.mem_map.mp ((collapse_sublist _).mem hcs)
  exact oneLine_ofList.mpr (newline_not_mem_cleanLine (newline_not_mem_splitLinesFrom List.not_mem_nil raw hraw))

theorem oneLine_singleLine (text : String) : OneLine (singleLine text) := by
  refine oneLine_intercalate (by decide) ?_
  intro part hpart
  obtain ⟨line, hline, rfl⟩ := List.mem_map.mp (List.mem_of_mem_filter hpart)
  exact Unicode.oneLine_trim (oneLine_of_mem_commentLines hline)

end Text

/-! ## Documentation -/

namespace Go

theorem mem_lowerFirst_newline {cs : List Char} (h : '\n' ∈ lowerFirst cs) : '\n' ∈ cs := by
  unfold lowerFirst at h
  split at h
  · rename_i a b rest
    split at h
    · rcases List.mem_append.mp h with hfirst | hrest
      · rw [separates_newline.eq_of_toLower hfirst]
        exact List.mem_cons_self
      · exact List.mem_cons_of_mem a hrest
    · exact h
  · exact h

theorem oneLine_of_mem_plainDoc {documentation : Option String} {line : String}
    (h : line ∈ plainDoc documentation) : OneLine line := by
  cases documentation with
  | none => cases h
  | some text => exact Text.oneLine_of_mem_commentLines h

theorem oneLine_of_mem_namedDoc {name : String} (hname : OneLine name) {documentation : Option String}
    {line : String} (h : line ∈ namedDoc name documentation) : OneLine line := by
  cases documentation with
  | none => cases h
  | some text =>
    have hlines : ∀ line ∈ Text.commentLines text, OneLine line := fun _ => Text.oneLine_of_mem_commentLines
    unfold namedDoc at h
    simp only [Option.map_some] at h
    generalize Text.commentLines text = lines at h hlines
    cases lines with
    | nil => cases h
    | cons first rest =>
      obtain ⟨hfirst, hrest⟩ := List.forall_mem_cons.mp hlines
      have hlower : OneLine (String.ofList (lowerFirst first.toList)) :=
        oneLine_ofList.mpr fun hmem => hfirst (mem_lowerFirst_newline hmem)
      dsimp only at h
      split at h
      · exact hlines line h
      · rcases List.mem_cons.mp h with rfl | h
        · exact (hname.append (by decide)).append hlower
        · exact hrest line h

end Go

end ClientGen

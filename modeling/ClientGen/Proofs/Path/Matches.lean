import ClientGen.Proofs.Path.Scan
import Mathlib.Data.List.Chain

/-
  ClientGen.Proofs.Path.Matches — a path template as the matches of a pattern.

  The pattern is a word in braces. Its leftmost matches that do not overlap are a relation on texts
  (`LeftmostMatches`), which has one answer for each (`LeftmostMatches.unique`).
  - While a path is scanned, no match begins in the literal text that is held back, except for the
    brace that may open a placeholder. So the pieces are the matches with the text between them
    (`scanPath_matches`).
  - Whatever a template says about its path is read off the matches (`ofPath_splits`).
-/

namespace ClientGen

/-! ## Matches -/

/-- A word in braces stands at the beginning. -/
def Begins (text : List Char) : Prop := ∃ name after, IsWord name ∧ text = (PathPiece.placeholder name).written ++ after

/-- A word in braces stands somewhere in the text. -/
def HasMatch (text : List Char) : Prop := ∃ front back, text = front ++ back ∧ Begins back

/-- None begins in `before` when `text` follows. -/
def Unmatched (before text : List Char) : Prop := ∀ front back, before = front ++ back → back ≠ [] → ¬ Begins (back ++ text)

/-- The leftmost words in braces that do not overlap, each with the text between it and the one
    before, and what is left behind the last. -/
inductive LeftmostMatches : List Char → List (List Char × List Char) → List Char → Prop
  | none {text : List Char} : ¬ HasMatch text → LeftmostMatches text [] text
  | next {text before name after rest : List Char} {found : List (List Char × List Char)} :
      text = before ++ ((PathPiece.placeholder name).written ++ after) → IsWord name →
      Unmatched before ((PathPiece.placeholder name).written ++ after) → LeftmostMatches after found rest →
      LeftmostMatches text ((before, name) :: found) rest

variable {text before name after rest w : List Char} {found : List (List Char × List Char)}

/-- Where a word ends, whatever does not continue it follows. -/
theorem word_append_inj {u v rest rest' : List Char} (hu : ∀ c ∈ u, Unicode.isWordChar c = true)
    (hv : ∀ c ∈ v, Unicode.isWordChar c = true) (hrest : ∀ c ∈ rest.head?, Unicode.isWordChar c = false)
    (hrest' : ∀ c ∈ rest'.head?, Unicode.isWordChar c = false) (h : u ++ rest = v ++ rest') : u = v ∧ rest = rest' := by
  induction u generalizing v with
  | nil =>
    cases v with
    | nil => exact ⟨rfl, h⟩
    | cons d v =>
      rw [List.nil_append] at h
      have hd := hrest d (by rw [h]; rfl)
      rw [hv d List.mem_cons_self] at hd
      cases hd
  | cons c u ih =>
    cases v with
    | nil =>
      rw [List.nil_append] at h
      have hc := hrest' c (by rw [← h]; rfl)
      rw [hu c List.mem_cons_self] at hc
      cases hc
    | cons d v =>
      simp only [List.cons_append, List.cons.injEq] at h
      obtain ⟨rfl, h⟩ := h
      obtain ⟨rfl, hrests⟩ := ih (fun c hc => hu c (List.mem_cons_of_mem _ hc)) (fun c hc => hv c (List.mem_cons_of_mem _ hc)) h
      exact ⟨rfl, hrests⟩

theorem not_isWordChar_head_close (after : List Char) :
    ∀ c ∈ ('\x7d' :: after).head?, Unicode.isWordChar c = false := by
  rintro _ ⟨⟩
  exact not_isWordChar_close

theorem placeholder_append_inj {name' after' : List Char} (hname : IsWord name) (hname' : IsWord name')
    (h : (PathPiece.placeholder name).written ++ after = (PathPiece.placeholder name').written ++ after') :
    name = name' ∧ after = after' := by
  simp only [PathPiece.written, List.cons_append, List.append_assoc, List.nil_append, List.cons.injEq, true_and] at h
  obtain ⟨rfl, hafter⟩ :=
    word_append_inj hname.2 hname'.2 (not_isWordChar_head_close after) (not_isWordChar_head_close after') h
  exact ⟨rfl, (List.cons.inj hafter).2⟩

theorem not_begins_of_ne_open {c : Char} (hc : c ≠ '\x7b') : ¬ Begins (c :: text) := by
  rintro ⟨name, after, -, h⟩
  exact hc (List.cons.inj h).1

theorem unmatched_nil (text : List Char) : Unmatched [] text := by
  intro front back h hback
  exact absurd (List.append_eq_nil_iff.mp h.symm).2 hback

theorem unmatched_singleton {c : Char} (h : ¬ Begins (c :: text)) : Unmatched [c] text := by
  intro front back hsplit hback
  rcases List.append_eq_singleton_iff.mp hsplit.symm with ⟨rfl, rfl⟩ | ⟨-, rfl⟩
  · exact h
  · exact absurd rfl hback

theorem Unmatched.append {before more : List Char} (h : Unmatched before (more ++ text)) (hmore : Unmatched more text) :
    Unmatched (before ++ more) text := by
  intro front back hsplit hback
  rcases List.append_eq_append_iff.mp hsplit with ⟨between, rfl, hmiddle⟩ | ⟨between, hbefore, rfl⟩
  · exact hmore between back hmiddle hback
  · by_cases hbetween : between = []
    · subst hbetween
      exact hmore [] more rfl hback
    · rw [List.append_assoc]
      exact h front between hbefore hbetween

theorem Unmatched.cons {c : Char} (h : ¬ Begins (c :: before ++ text)) (hbefore : Unmatched before text) :
    Unmatched (c :: before) text := (unmatched_singleton h).append hbefore

theorem unmatched_of_unopened (h : '\x7b' ∉ before) (text : List Char) : Unmatched before text := by
  induction before with
  | nil => exact unmatched_nil text
  | cons c before ih =>
    simp only [List.mem_cons, not_or] at h
    exact (ih h.2).cons (not_begins_of_ne_open (Ne.symm h.1))

theorem not_hasMatch_of_unmatched (h : Unmatched text after) : ¬ HasMatch text := by
  rintro ⟨front, back, rfl, name, more, hname, rfl⟩
  refine h front _ rfl (by simp [PathPiece.written]) ⟨name, more ++ after, hname, ?_⟩
  rw [List.append_assoc]

theorem LeftmostMatches.unique {found' : List (List Char × List Char)} {rest' : List Char}
    (h : LeftmostMatches text found rest) (h' : LeftmostMatches text found' rest') : found = found' ∧ rest = rest' := by
  have hmatch {before name after : List Char} (hname : IsWord name) :
      HasMatch (before ++ ((PathPiece.placeholder name).written ++ after)) := ⟨before, _, rfl, name, after, hname, rfl⟩
  induction h generalizing found' rest' with
  | none hnone =>
    cases h' with
    | none _ => exact ⟨rfl, rfl⟩
    | next htext hname _ _ => exact absurd (htext ▸ hmatch hname) hnone
  | @next text before name after rest found htext hname hleft _ ih =>
    cases h' with
    | none hnone => exact absurd (htext ▸ hmatch hname) hnone
    | @next _ before' name' after' rest' found' htext' hname' hleft' hafter' =>
      rcases List.append_eq_append_iff.mp (htext.symm.trans htext') with ⟨between, rfl, hmore⟩ | ⟨between, rfl, hmore⟩
      · by_cases hbetween : between = []
        · subst hbetween
          obtain ⟨rfl, rfl⟩ := placeholder_append_inj hname hname' hmore
          obtain ⟨rfl, rfl⟩ := ih hafter'
          exact ⟨by rw [List.append_nil], rfl⟩
        · exact absurd ⟨name, after, hname, hmore.symm⟩ (hleft' before between rfl hbetween)
      · by_cases hbetween : between = []
        · subst hbetween
          obtain ⟨rfl, rfl⟩ := placeholder_append_inj hname hname' hmore.symm
          obtain ⟨rfl, rfl⟩ := ih hafter'
          exact ⟨by rw [List.append_nil], rfl⟩
        · exact absurd ⟨name', after', hname', hmore.symm⟩ (hleft before' between rfl hbetween)

/-! ## The scan -/

/-- The pieces of a text with these matches. -/
def piecesOf (found : List (List Char × List Char)) (rest : List Char) : List PathPiece :=
  found.flatMap (fun (before, name) => flushLiteral before.reverse ++ [.placeholder name]) ++ flushLiteral rest.reverse

theorem piecesOf_cons (before name : List Char) (found : List (List Char × List Char)) (rest : List Char) :
    piecesOf ((before, name) :: found) rest = flushLiteral before.reverse ++ .placeholder name :: piecesOf found rest := by
  simp [piecesOf]

theorem held_append (literal : List Char) (begun : Option (List Char)) : held literal begun = held [] begun ++ literal := by
  cases begun <;> simp [held]

/-- Whether what follows neither continues a name begun nor closes it. -/
def Drops (begun : Option (List Char)) (text : List Char) : Prop :=
  ∀ c ∈ text.head?, ∀ w, begun = some w → Unicode.isWordChar c = false ∧ (c = '\x7d' → w = [])

variable {literal : List Char} {begun : Option (List Char)}

/-- Then the brace that is held back opens nothing. -/
theorem unmatched_opened (hname : ∀ w, begun = some w → ∀ c ∈ w, Unicode.isWordChar c = true) (hdrops : Drops begun text) :
    Unmatched (held [] begun).reverse text := by
  cases begun with
  | none => exact unmatched_nil text
  | some w =>
    have hw : ∀ c ∈ w.reverse, Unicode.isWordChar c = true := fun c hc => hname w rfl c (List.mem_reverse.mp hc)
    have hunopened : '\x7b' ∉ w.reverse := fun hc => absurd (hw _ hc) (by simp [not_isWordChar_open])
    have hbegins : ¬ Begins ('\x7b' :: w.reverse ++ text) := by
      rintro ⟨word, after, hword, h⟩
      simp only [PathPiece.written, List.cons_append, List.append_assoc, List.nil_append, List.cons.injEq, true_and] at h
      obtain ⟨rfl, rfl⟩ := word_append_inj hw hword.2 (fun c hc => (hdrops c hc w rfl).1) (not_isWordChar_head_close after) h
      have hempty : w = [] := (hdrops '\x7d' rfl w rfl).2 rfl
      exact hword.1 (by rw [hempty]; rfl)
    have hopened : (held [] (some w)).reverse = '\x7b' :: w.reverse := by simp [held]
    rw [hopened]
    exact (unmatched_of_unopened hunopened text).cons hbegins

theorem unmatched_held (hname : ∀ w, begun = some w → ∀ c ∈ w, Unicode.isWordChar c = true) (hdrops : Drops begun text)
    (hliteral : Unmatched literal.reverse ((held [] begun).reverse ++ text)) : Unmatched (held literal begun).reverse text := by
  rw [held_append, List.reverse_append]
  exact hliteral.append (unmatched_opened hname hdrops)

/-- While a path is scanned, no match begins in the literal text held back. So the pieces are those of
    the leftmost matches. -/
theorem scanPath_matches {cs : List Char} (hname : ∀ w, begun = some w → ∀ c ∈ w, Unicode.isWordChar c = true)
    (hliteral : Unmatched literal.reverse ((held [] begun).reverse ++ cs)) :
    ∃ found rest, LeftmostMatches ((held literal begun).reverse ++ cs) found rest ∧
      scanPath literal begun cs = piecesOf found rest := by
  induction cs generalizing literal begun with
  | nil =>
    have hheld := unmatched_held hname (by simp [Drops]) hliteral
    refine ⟨[], (held literal begun).reverse, ?_, ?_⟩
    · rw [List.append_nil]
      exact .none (not_hasMatch_of_unmatched hheld)
    · rw [scanPath_nil]
      simp [piecesOf]
  | cons c cs ih =>
    rcases read_cases c begun with rfl | ⟨w, rfl, hc⟩ | ⟨w, rfl, hw, rfl⟩ | ⟨hopen, hword⟩
    · -- A second brace makes literal text of the first one and of its name.
      have hdrops : Drops begun ('\x7b' :: cs) := by
        rintro _ ⟨⟩ w -
        exact ⟨not_isWordChar_open, by simp⟩
      obtain ⟨found, rest, hmatches, hscan⟩ := @ih (held literal begun) (some []) (by simp) (unmatched_held hname hdrops hliteral)
      refine ⟨found, rest, ?_, by rw [scanPath_open, hscan]⟩
      simpa [held] using hmatches
    · have hcontinued : ∀ w', some (c :: w) = some w' → ∀ d ∈ w', Unicode.isWordChar d = true := by
        rintro _ ⟨⟩
        exact List.forall_mem_cons.mpr ⟨hc, hname w rfl⟩
      obtain ⟨found, rest, hmatches, hscan⟩ := ih hcontinued (by simpa [held] using hliteral)
      refine ⟨found, rest, ?_, by rw [scanPath_word hc, hscan]⟩
      simpa [held] using hmatches
    · have hleft : Unmatched literal.reverse ((PathPiece.placeholder w.reverse).written ++ cs) := by
        simpa [held, PathPiece.written] using hliteral
      have hplaceholder : IsWord w.reverse := ⟨by simpa using hw, by simpa using hname w rfl⟩
      obtain ⟨found, rest, hmatches, hscan⟩ := @ih [] none (by simp) (unmatched_nil _)
      refine ⟨(literal.reverse, w.reverse) :: found, rest, ?_, ?_⟩
      · exact .next (by simp [held, PathPiece.written]) hplaceholder hleft hmatches
      · rw [scanPath_close hw, hscan, piecesOf_cons, List.reverse_reverse]
    · have hdrops : Drops begun (c :: cs) := by
        rintro _ ⟨⟩
        exact hword
      have hheld : Unmatched (held (c :: held literal begun) none).reverse cs := by
        have hleft := unmatched_held hname hdrops hliteral
        have hsingle : Unmatched [c] cs := unmatched_singleton (not_begins_of_ne_open hopen)
        simpa [held] using Unmatched.append hleft hsingle
      obtain ⟨found, rest, hmatches, hscan⟩ := @ih (c :: held literal begun) none (by simp) hheld
      refine ⟨found, rest, ?_, by rw [scanPath_plain hopen hword, hscan]⟩
      simpa [held] using hmatches

/-! ## The template -/

/-- The text of some parts, with each argument written as the name in braces that stands for it. -/
def restored : List PathPart → List String → List Char
  | .literal text :: parts, names => text.toList ++ restored parts names
  | .param _ :: parts, name :: names => (PathPiece.placeholder name.toList).written ++ restored parts names
  | _, _ => []

/-- Whether there is an argument among two neighbours. -/
def PathPart.Apart : PathPart → PathPart → Prop
  | .literal _, .literal _ => False
  | _, _ => True

/-- A template that has one argument for each match of its path, and the text between them. -/
structure PathTemplate.Splits (t : PathTemplate) (found : List (List Char × List Char)) (rest : List Char) : Prop where
  restored : restored t.parts t.placeholders = t.raw.toList
  placeholders : t.placeholders = found.map fun (_, name) => String.ofList name
  parameters : t.parameters = found.map fun (_, name) => Name.camel (String.ofList name)
  expression : ∀ marker, (t.expression marker).toList = found.flatMap (fun (before, _) => before ++ marker.toList) ++ rest
  literals : ∀ text, .literal text ∈ t.parts → text ≠ "" ∧ ¬ HasMatch text.toList
  apart : t.parts.IsChain PathPart.Apart

theorem LeftmostMatches.not_hasMatch (h : LeftmostMatches text found rest) :
    ¬ HasMatch rest ∧ ∀ before name, (before, name) ∈ found → ¬ HasMatch before := by
  induction h with
  | none hnone => exact ⟨hnone, by simp⟩
  | next _ _ hleft _ ih =>
    refine ⟨ih.1, fun before' name' hmem => ?_⟩
    rcases List.mem_cons.mp hmem with hhead | hmem
    · cases hhead
      exact not_hasMatch_of_unmatched hleft
    · exact ih.2 before' name' hmem

section Pieces

variable (found : List (List Char × List Char)) (rest : List Char)

theorem restored_pieces (pieces : List PathPiece) :
    restored (pieces.map PathPiece.part) (pieces.filterMap PathPiece.placeholder?) = pieces.flatMap PathPiece.written := by
  induction pieces with
  | nil => rfl
  | cons piece pieces ih =>
    cases piece with
    | literal text =>
      rw [List.filterMap_cons_none rfl, List.map_cons, List.flatMap_cons, ← ih]
      simp [restored, PathPiece.part, PathPiece.written]
    | placeholder name =>
      rw [List.filterMap_cons_some (show PathPiece.placeholder? _ = some _ from rfl), List.map_cons, List.flatMap_cons, ← ih]
      simp [restored, PathPiece.part]

theorem placeholder?_piecesOf :
    (piecesOf found rest).filterMap PathPiece.placeholder? = found.map fun (_, name) => String.ofList name := by
  have hflush (text : List Char) : (flushLiteral text).filterMap PathPiece.placeholder? = [] := by
    by_cases h : text = []
    · rw [h]; rfl
    · rw [flushLiteral_of_ne_nil h]; rfl
  induction found with
  | nil => simpa [piecesOf] using hflush rest.reverse
  | cons m found ih =>
    obtain ⟨before, name⟩ := m
    rw [piecesOf_cons, List.filterMap_append, hflush, List.nil_append, List.filterMap_cons, ih]
    rfl

theorem mem_piecesOf {text : List Char} (h : .literal text ∈ piecesOf found rest) :
    text ≠ [] ∧ (text = rest ∨ ∃ name, (text, name) ∈ found) := by
  rcases List.mem_append.mp h with h | h
  · obtain ⟨⟨before, name⟩, hmem, h⟩ := List.mem_flatMap.mp h
    simp only [List.mem_append, mem_flushLiteral, List.mem_singleton, reduceCtorEq, or_false, List.reverse_reverse,
      PathPiece.literal.injEq, ne_eq, List.reverse_eq_nil_iff] at h
    obtain ⟨hne, rfl⟩ := h
    exact ⟨hne, .inr ⟨name, hmem⟩⟩
  · obtain ⟨hne, h⟩ := mem_flushLiteral.mp h
    rw [List.reverse_reverse, PathPiece.literal.injEq] at h
    exact ⟨by simpa [h] using hne, .inl h⟩

theorem isChain_piecesOf : ((piecesOf found rest).map PathPiece.part).IsChain PathPart.Apart := by
  have hflush (text : List Char) : ((flushLiteral text).map PathPiece.part).IsChain PathPart.Apart := by
    by_cases h : text = []
    · rw [h]; exact .nil
    · rw [flushLiteral_of_ne_nil h]; exact .singleton _
  induction found with
  | nil => simpa [piecesOf] using hflush rest.reverse
  | cons m found ih =>
    obtain ⟨before, name⟩ := m
    rw [piecesOf_cons, List.map_append, List.map_cons]
    refine (hflush before.reverse).append (ih.cons ?_) ?_
    · intro part _
      trivial
    · rintro part - _ ⟨⟩
      cases part <;> trivial

/-- What a piece is in the path once `marker` stands for every placeholder. -/
def PathPiece.marked (marker : List Char) : PathPiece → List Char
  | .literal text => text
  | .placeholder _ => marker

theorem marked_piecesOf (marker : List Char) :
    (piecesOf found rest).flatMap (PathPiece.marked marker) = found.flatMap (fun (before, _) => before ++ marker) ++ rest := by
  have hflush (text : List Char) : (flushLiteral text).flatMap (PathPiece.marked marker) = text.reverse := by
    by_cases h : text = []
    · rw [h]; rfl
    · rw [flushLiteral_of_ne_nil h]; simp [PathPiece.marked]
  induction found with
  | nil => simpa [piecesOf] using hflush rest.reverse
  | cons m found ih =>
    obtain ⟨before, name⟩ := m
    rw [piecesOf_cons, List.flatMap_append, hflush, List.flatMap_cons, ih]
    simp [PathPiece.marked]

end Pieces

theorem PathTemplate.expression_eq (t : PathTemplate) (marker : String) :
    (t.expression marker).toList = t.pieces.flatMap (PathPiece.marked marker.toList) := by
  unfold expression parts
  rw [String.toList_join, List.map_map, List.flatMap_map]
  congr 1
  funext piece
  cases piece with
  | literal text => exact String.toList_ofList
  | placeholder name => rfl

/-- A path is split at the leftmost matches of the pattern. -/
theorem PathTemplate.ofPath_splits (path : String) :
    ∃ found rest, LeftmostMatches path.toList found rest ∧
      (∀ found' rest', LeftmostMatches path.toList found' rest' → found' = found ∧ rest' = rest) ∧
      (ofPath path).Splits found rest := by
  have hscan := @scanPath_matches [] none path.toList (by simp) (unmatched_nil _)
  obtain ⟨found, rest, hmatches, hscan⟩ := hscan
  have hpieces : (ofPath path).pieces = piecesOf found rest := hscan
  have hplaceholders : (ofPath path).placeholders = found.map fun (_, name) => String.ofList name := by
    rw [placeholders, hpieces, placeholder?_piecesOf]
  refine ⟨found, rest, hmatches, fun found' rest' h => h.unique hmatches, ?_⟩
  exact {
    restored := by
      rw [parts, placeholders, restored_pieces, written_ofPath]
      rfl
    placeholders := hplaceholders
    parameters := by
      rw [parameters_eq, hplaceholders, List.map_map]
      rfl
    expression := fun marker => by rw [expression_eq, hpieces, marked_piecesOf]
    literals := fun text htext => by
      rw [parts, hpieces] at htext
      obtain ⟨piece, hpiece, hpart⟩ := List.mem_map.mp htext
      cases piece with
      | placeholder name => cases hpart
      | literal chars =>
        cases hpart
        obtain ⟨hne, hfrom⟩ := mem_piecesOf found rest hpiece
        have hnone : ¬ HasMatch chars := by
          rcases hfrom with rfl | ⟨name, hmem⟩
          · exact hmatches.not_hasMatch.1
          · exact hmatches.not_hasMatch.2 chars name hmem
        rw [String.toList_ofList]
        exact ⟨by simpa using hne, hnone⟩
    apart := by
      rw [parts, hpieces]
      exact isChain_piecesOf found rest }

-- The brace that opens last is the one that counts.
example : (PathTemplate.ofPath "/\x7ba\x7bpost_id\x7d\x7d").parts =
    [.literal "/\x7ba", .param "postId", .literal "\x7d"] := by decide +kernel

end ClientGen

import ClientGen.Proofs.Source.Methods

/-
  ClientGen.Proofs.Source.Calls — what the calls in Go source pass on.

  A function is called where its name stands in code, with no dot in front and an opening bracket
  behind. What is passed reaches to the next bracket that closes. The source is read as it is for
  the packages (`step`), so a text that looks like a call is none.
  - A literal calls nothing (`passed_literal`), and a call with a word passes on that word
    (`passed_call`), whatever follows.
  - So the expression of a path passes `pathParam` one identifier for each placeholder
    (`passedTo_pathExpression`).
-/

namespace ClientGen.Source

/-- What the calls of a function pass on, from where the reader is. -/
def passed (function : List Char) (m : Mode) : List Char → List String
  | [] => []
  | c :: rest =>
    let more := passed function (step m c).1 rest
    if m = .code false function ∧ c = '(' then String.ofList (rest.takeWhile (· ≠ ')')) :: more else more

/-- What is passed to a function in a source, from left to right. -/
def passedTo (function source : String) : List String := passed function.toList start source.toList

variable {function word : List Char} {m : Mode} {c : Char}

theorem passed_of_ne_open (hc : c ≠ '(') (rest : List Char) :
    passed function m (c :: rest) = passed function (step m c).1 rest := by
  rw [passed, if_neg fun h => hc h.2]

/-- Nothing in a text is a call. -/
theorem passed_quoted (escaped : Bool) (c : Char) (rest : List Char) :
    passed function (.quoted escaped) (c :: rest) = passed function (step (.quoted escaped) c).1 rest := by
  rw [passed, if_neg (by simp)]

theorem passed_word (h : ∀ c ∈ word, isWord c = true) (afterDot : Bool) (before rest : List Char) :
    passed function (.code afterDot before) (word ++ rest) = passed function (.code afterDot (before ++ word)) rest := by
  induction word generalizing before with
  | nil => rw [List.nil_append, List.append_nil]
  | cons c word ih =>
    obtain ⟨hc, hword⟩ := List.forall_mem_cons.mp h
    have hopen : c ≠ '(' := by
      rintro rfl
      exact absurd hc (by decide)
    have hstep : step (.code afterDot before) c = (.code afterDot (before ++ [c]), none) := by
      rw [step, stepCode, if_pos hc]
    rw [List.cons_append, passed_of_ne_open hopen, hstep, ih hword, List.append_assoc, List.singleton_append]

/-- A word in brackets behind the name of the function. -/
theorem passed_call (hfunction : ∀ c ∈ function, isWord c = true) (hword : ∀ c ∈ word, isWord c = true)
    (rest : List Char) :
    passed function start (function ++ '(' :: (word ++ ')' :: rest)) =
      String.ofList word :: passed function start rest := by
  have hclose : ∀ c ∈ word, decide (c ≠ ')') = true := by
    intro c hc
    refine decide_eq_true ?_
    rintro rfl
    exact absurd (hword _ hc) (by decide)
  have htaken : (word ++ ')' :: rest).takeWhile (· ≠ ')') = word := by
    rw [List.takeWhile_append_of_pos hclose, List.takeWhile_cons_of_neg (by simp), List.append_nil]
  have hopened : step (.code false function) '(' = (start, none) := rfl
  have hclosed : step (.code false word) ')' = (start, none) := rfl
  rw [start, passed_word hfunction, List.nil_append, passed, if_pos ⟨rfl, rfl⟩, htaken, hopened, start, passed_word hword,
    List.nil_append, passed_of_ne_open (by decide), hclosed, start]

/-! ## Literals -/

theorem passed_escape (c : Char) (rest : List Char) :
    passed function (.quoted false) (Go.escape c ++ rest) = passed function (.quoted false) rest := by
  have hplain {d : Char} (hquote : d ≠ '"') (hescape : d ≠ '\\') (rest : List Char) :
      passed function (.quoted false) (d :: rest) = passed function (.quoted false) rest := by
    rw [passed_quoted]
    simp [step, hquote, hescape]
  have hescaped (d : Char) (rest : List Char) :
      passed function (.quoted false) ('\\' :: d :: rest) = passed function (.quoted false) rest := by
    have hstep : (step (.quoted false) '\\').1 = .quoted true := rfl
    rw [passed_quoted, hstep, passed_quoted]
    rfl
  have hdigit (n : Nat) (rest : List Char) :
      passed function (.quoted false) (Json.hexDigit (n % 16) :: rest) = passed function (.quoted false) rest :=
    hplain (hexDigit_inside n).1 (hexDigit_inside n).2 rest
  rcases escape_cases c with ⟨e, -, hescape⟩ | ⟨-, hescape⟩ | ⟨hquote, hbackslash, -, hescape⟩
  · rw [hescape]
    exact hescaped e rest
  · rw [hescape]
    exact (hescaped 'u' _).trans ((hdigit _ _).trans ((hdigit _ _).trans ((hdigit _ _).trans (hdigit _ _))))
  · rw [hescape]
    exact hplain hquote hbackslash rest

theorem passed_literal (s : String) (rest : List Char) :
    passed function start ((Go.literal s).toList ++ rest) = passed function start rest := by
  have hbody (cs : List Char) : passed function (.quoted false) (cs.flatMap Go.escape ++ '"' :: rest) =
      passed function start rest := by
    induction cs with
    | nil => exact passed_quoted false '"' rest
    | cons c cs ih => rw [List.flatMap_cons, List.append_assoc, passed_escape, ih]
  have hopened : step start '"' = (.quoted false, none) := rfl
  rw [Go.literal, String.toList_ofList, Go.literalChars, List.append_assoc, List.cons_append, List.singleton_append,
    passed_of_ne_open (by decide), hopened, hbody]

end ClientGen.Source

namespace ClientGen

/-- The argument that a part of a path stands for. -/
def PathPart.argument? : PathPart → Option String
  | .literal _ => none
  | .param argument => some argument

theorem PathTemplate.parameters_of_parts (t : PathTemplate) : t.parameters = t.parts.filterMap PathPart.argument? := rfl

end ClientGen

namespace ClientGen.Go

open Source

theorem passed_pathPartText (part : PathPart) (rest : List Char) :
    passed "pathParam".toList start ((pathPartText part).toList ++ rest) =
      part.argument?.toList.map argumentName ++ passed "pathParam".toList start rest := by
  cases part with
  | literal text => exact passed_literal text rest
  | param argument =>
    have hfunction : ∀ c ∈ "pathParam".toList, isWord c = true := List.all_eq_true.mp (by rfl)
    have hcall := passed_call hfunction (isWord_argumentName argument) rest
    rw [String.ofList_toList] at hcall
    simpa [pathPartText, PathPart.argument?] using hcall

/-- The expression of a path passes the identifiers of its placeholders, one after another. -/
theorem passedTo_pathExpression (t : PathTemplate) :
    passedTo "pathParam" (pathExpression t) = t.parameters.map argumentName := by
  have hplus (rest : List Char) :
      passed "pathParam".toList start (" + ".toList ++ rest) = passed "pathParam".toList start rest := rfl
  have hparts (parts : List PathPart) : passedTo "pathParam" (" + ".intercalate (parts.map pathPartText)) =
      (parts.filterMap PathPart.argument?).map argumentName := by
    unfold passedTo
    induction parts with
    | nil => rfl
    | cons part rest ih =>
      have hfirst := passed_pathPartText part
      have hnames : ((part :: rest).filterMap PathPart.argument?).map argumentName =
          part.argument?.toList.map argumentName ++ (rest.filterMap PathPart.argument?).map argumentName := by
        cases part <;> rfl
      rw [hnames]
      cases rest with
      | nil => simpa [passed] using hfirst []
      | cons next rest =>
        rw [List.map_cons, List.map_cons, String.intercalate_cons_cons, String.toList_append, String.toList_append,
          List.append_assoc, hfirst, hplus, ← List.map_cons, ih]
  unfold pathExpression
  rw [t.parameters_of_parts]
  split
  · rename_i hnone
    rw [hnone]
    rfl
  · exact hparts t.parts

end ClientGen.Go

import ClientGen.Go.Method
import ClientGen.Proofs.Names.Line
import ClientGen.Proofs.Response.Arrangement

/-
  ClientGen.Proofs.Response.Result — the code of a method returns the result of the method.

  The result is settled where an operation is mapped: it is the type of the first success that
  declares a JSON schema. The code looks for that response again, among all of the method and by
  status and type (`Go.isPrimary`). Wherever there is a result it finds one (`mapOperation_primary`),
  and the case of this one alone decodes the payload (`Go.decodesPayload_caseLines`).
  Values in code are counted as they are read: a comma separates two of them unless a bracket is
  open (`Go.commas`). The only names in what is returned are those of types, and they have neither
  commas nor brackets (`Go.Atomic`).
-/

namespace ClientGen

namespace Go

/-! ## Counting values -/

def opening : List Char := ['(', '[', '\x7b']

def closing : List Char := [')', ']', '\x7d']

/-- The commas of a list of values, inside so many brackets; the list ends with the bracket around it. -/
def commas : Nat → List Char → Nat
  | _, [] => 0
  | depth, c :: rest =>
    if c ∈ opening then commas (depth + 1) rest
    else if c ∈ closing then if depth = 0 then 0 else commas (depth - 1) rest
    else (if c = ',' ∧ depth = 0 then 1 else 0) + commas depth rest

def countValues (values : List Char) : Nat := if values.isEmpty then 0 else commas 0 values + 1

/-- How many values a line returns, if it is a return statement. -/
def returnedValues? (line : String) : Option Nat :=
  ("return".toList.isPrefixOf? (line.toList.dropWhile (· == '\t'))).bind fun rest =>
    match rest with
    | [] => some 0
    | c :: values => if c = ' ' then some (countValues values) else none

/-- How many values a result has. More than one stand in parentheses. -/
def resultValues (result : String) : Nat :=
  match result.toList with
  | '(' :: values => countValues values
  | values => countValues values

/-- The line that decodes a payload into `out`. -/
def decodeLine : String := "if err := decodeJSON(resp.Body, &out); err != nil \x7b"

/-- The lines read the payload into `out` and return it. -/
def DecodesPayload (lines : List String) : Prop := decodeLine ∈ lines ∧ "return &out, nil" ∈ lines

/-- Every return statement of the lines has this many values, and they end with one. -/
structure Returns (values : Nat) (lines : List String) : Prop where
  each : ∀ line ∈ lines, ∀ n, returnedValues? line = some n → n = values
  ends : ∃ line, lines.getLast? = some line ∧ returnedValues? line = some values

/-- A text that is read as part of one value, wherever it stands. -/
def Atomic (s : String) : Prop := ∀ c ∈ s.toList, c ∉ opening ∧ c ∉ closing ∧ c ≠ ','

section

variable {depth : Nat} {cs ds : List Char} {s t line : String}

theorem commas_append (h : ∀ c ∈ cs, c ∉ opening ∧ c ∉ closing) :
    commas depth (cs ++ ds) = commas depth cs + commas depth ds := by
  induction cs with
  | nil => simp [commas]
  | cons c rest ih =>
    obtain ⟨hopening, hclosing⟩ := h c List.mem_cons_self
    have hrest := ih fun d hd => h d (List.mem_cons_of_mem c hd)
    simp only [List.cons_append, commas, if_neg hopening, if_neg hclosing, hrest, Nat.add_assoc]

theorem Atomic.commas_eq (h : Atomic s) : commas depth s.toList = 0 := by
  rw [Atomic] at h
  generalize s.toList = cs at h ⊢
  induction cs with
  | nil => rfl
  | cons c rest ih =>
    obtain ⟨hopening, hclosing, hcomma⟩ := h c List.mem_cons_self
    have hrest := ih fun d hd => h d (List.mem_cons_of_mem c hd)
    simp [commas, hopening, hclosing, hcomma, hrest]

/-- A name in front of more is not counted. -/
theorem Atomic.commas_append (h : Atomic s) : commas depth (s.toList ++ ds) = commas depth ds := by
  have hbrackets : ∀ c ∈ s.toList, c ∉ opening ∧ c ∉ closing := fun c hc => ⟨(h c hc).1, (h c hc).2.1⟩
  rw [Go.commas_append hbrackets, h.commas_eq, Nat.zero_add]

theorem atomic_of_lacks (h : ∀ d, Separates d → d ≠ '+' → Lacks d s) : Atomic s := by
  have hmarks : (opening ++ closing ++ [',']).all (fun d => decide (Separates d ∧ d ≠ '+')) = true := by decide
  intro c hc
  have hmark : c ∉ opening ++ closing ++ [','] := by
    intro hmark
    obtain ⟨hseparates, hplus⟩ := of_decide_eq_true (List.all_eq_true.mp hmarks c hmark)
    exact h c hseparates hplus hc
  simpa only [List.mem_append, List.mem_singleton, not_or, and_assoc] using hmark

theorem returnedValues?_return (values : String) (hvalues : values.toList ≠ []) :
    returnedValues? ("return " ++ values) = some (commas 0 values.toList + 1) := by
  have hreturn : ("return " ++ values).toList = 'r' :: 'e' :: 't' :: 'u' :: 'r' :: 'n' :: ' ' :: values.toList := by
    rw [String.toList_append]
    rfl
  have hrest : "return".toList.isPrefixOf? (("return " ++ values).toList.dropWhile (· == '\t')) =
      some (' ' :: values.toList) := by
    rw [hreturn]
    rfl
  rw [returnedValues?, hrest, Option.bind_some]
  simp [countValues, hvalues]

/-- A line that begins with anything but a tab or the letter of `return` is no return statement. -/
theorem returnedValues?_other {c : Char} (hline : line.toList = c :: cs) (htab : c ≠ '\t') (hreturn : c ≠ 'r') :
    returnedValues? line = none := by
  have hletter : ('r' == c) = false := by simpa using hreturn.symm
  have hkept : line.toList.dropWhile (· == '\t') = c :: cs := by
    rw [hline, List.dropWhile_cons_of_neg (by simpa using htab)]
  have hnone : "return".toList.isPrefixOf? (c :: cs) = none := by
    show ['r', 'e', 't', 'u', 'r', 'n'].isPrefixOf? (c :: cs) = none
    rw [List.isPrefixOf?, hletter]
    rfl
  rw [returnedValues?, hkept, hnone, Option.bind_none]

end

/-! ## The lines of a case -/

namespace Returns

variable {values : Nat} {lines : List String} {line : String}

theorem last (h : returnedValues? line = some values) : Returns values [line] where
  each := by
    intro other hother n hn
    rw [List.mem_singleton.mp hother, h] at hn
    exact (Option.some.inj hn).symm
  ends := ⟨line, rfl, h⟩

/-- A line in front that is no return statement, or one with as many values. -/
theorem cons (hline : ∀ n, returnedValues? line = some n → n = values) (h : Returns values lines) :
    Returns values (line :: lines) where
  each := List.forall_mem_cons.mpr ⟨hline, h.each⟩
  ends := by
    obtain ⟨l, hlast, hl⟩ := h.ends
    refine ⟨l, ?_, hl⟩
    rw [List.getLast?_cons, hlast]
    rfl

theorem cons_other (hline : returnedValues? line = none) (h : Returns values lines) : Returns values (line :: lines) :=
  h.cons fun n hn => by rw [hline] at hn; cases hn

theorem cons_return (hline : returnedValues? line = some values) (h : Returns values lines) :
    Returns values (line :: lines) :=
  h.cons fun n hn => by rw [hline] at hn; exact (Option.some.inj hn).symm

end Returns

section

variable {zero name goType result value : String} {model : ApiModel} {primary : Bool} {r : Response}

/-- One value behind what stands for the result. -/
theorem returnedValues?_zero (hzero : ∀ c ∈ zero.toList, c ∉ opening ∧ c ∉ closing) (hsome : value.toList ≠ [])
    (hone : commas 0 value.toList = 0) :
    returnedValues? ("return " ++ zero ++ value) = some (commas 0 zero.toList + 1) := by
  rw [String.append_assoc, returnedValues?_return, String.toList_append, commas_append hzero, hone, Nat.add_zero]
  simp [hsome]

theorem returnedValues?_tab (line : String) : returnedValues? ("\t" ++ line) = returnedValues? line := by
  have htab : ("\t" ++ line).toList = '\t' :: line.toList := by
    rw [String.toList_append]
    rfl
  rw [returnedValues?, htab, List.dropWhile_cons]
  rfl

theorem returnedValues?_indented (hzero : ∀ c ∈ zero.toList, c ∉ opening ∧ c ∉ closing) (hsome : value.toList ≠ [])
    (hone : commas 0 value.toList = 0) :
    returnedValues? ("\treturn " ++ zero ++ value) = some (commas 0 zero.toList + 1) := by
  have htab : "\treturn " ++ zero ++ value = "\t" ++ ("return " ++ zero ++ value) := by
    simp only [← String.append_assoc]
    rfl
  rw [htab, returnedValues?_tab, returnedValues?_zero hzero hsome hone]

theorem returns_decodeLines (hzero : ∀ c ∈ zero.toList, c ∉ opening ∧ c ∉ closing)
    (hresult : returnedValues? result = some (commas 0 zero.toList + 1)) :
    Returns (commas 0 zero.toList + 1) (decodeLines name goType zero result) := by
  have herr : returnedValues? ("\treturn " ++ zero ++ "err") = some (commas 0 zero.toList + 1) :=
    returnedValues?_indented hzero (by decide) (by decide)
  have hvar : returnedValues? ("var " ++ name ++ " " ++ goType) = none :=
    returnedValues?_other (by simp only [String.toList_append]; rfl) (by decide) (by decide)
  have hif : returnedValues? ("if err := decodeJSON(resp.Body, &" ++ name ++ "); err != nil \x7b") = none :=
    returnedValues?_other (by simp only [String.toList_append]; rfl) (by decide) (by decide)
  exact (((Returns.last hresult).cons_other (by decide)).cons_return herr |>.cons_other hif).cons_other hvar

theorem returnedValues?_apiError (hzero : ∀ c ∈ zero.toList, c ∉ opening ∧ c ∉ closing) :
    returnedValues? (apiError zero) = some (commas 0 zero.toList + 1) :=
  returnedValues?_zero hzero (by decide) (by decide)

theorem returns_errorLines (hzero : ∀ c ∈ zero.toList, c ∉ opening ∧ c ∉ closing) {d : Declaration}
    (hname : Atomic d.name) : Returns (commas 0 zero.toList + 1) (errorLines zero d) := by
  have he : returnedValues? ("return " ++ zero ++ "&e") = some (commas 0 zero.toList + 1) :=
    returnedValues?_zero hzero (by decide) (by decide)
  unfold errorLines
  split
  · rename_i name _ _
    have hvalue : "return " ++ zero ++ "&" ++ name ++ "\x7b\x7d" = "return " ++ zero ++ ("&" ++ name ++ "\x7b\x7d") := by
      simp only [String.append_assoc]
    have hname : Atomic name := hname
    have hchars : ("&" ++ name ++ "\x7b\x7d").toList = '&' :: (name.toList ++ ['\x7b', '\x7d']) := by
      simp only [String.toList_append]
      rfl
    have hone : commas 0 ("&" ++ name ++ "\x7b\x7d").toList = 0 := by
      rw [hchars, commas, if_neg (by decide), if_neg (by decide), hname.commas_append]
      decide
    exact .last (hvalue ▸ returnedValues?_zero hzero (by simp [hchars]) hone)
  · refine (Returns.last he).cons_other ?_
    exact returnedValues?_other (by simp only [String.toList_append]; rfl) (by decide) (by decide)
  · exact returns_decodeLines hzero he

/-- A case of a method returns as many values as the result has, if names are not read as more. -/
theorem returns_caseLines (hzero : ∀ c ∈ zero.toList, c ∉ opening ∧ c ∉ closing)
    (hprimary : primary = true → commas 0 zero.toList = 1)
    (hnames : ∀ d, errorDeclaration? model r = some d → Atomic d.name) :
    Returns (commas 0 zero.toList + 1) (caseLines model zero primary r) := by
  have hnil : returnedValues? ("return " ++ zero ++ "nil") = some (commas 0 zero.toList + 1) :=
    returnedValues?_zero hzero (by decide) (by decide)
  unfold caseLines
  split
  · rename_i hp
    refine returns_decodeLines hzero ?_
    rw [hprimary hp]
    decide
  · split
    · have hlast : Returns (commas 0 zero.toList + 1) [apiError zero] := .last (returnedValues?_apiError hzero)
      refine ((hlast.cons_other (by decide)).cons_return ?_).cons_other (by decide)
      exact returnedValues?_indented hzero (by decide) (by decide)
    · split
      · exact .last hnil
      · cases hd : errorDeclaration? model r with
        | none => exact .last (returnedValues?_apiError hzero)
        | some d => exact returns_errorLines hzero (hnames d hd)

/-- The line that decodes is no line that begins otherwise. -/
theorem decodeLine_ne {line : String} {c : Char} {cs : List Char} (hline : line.toList = c :: cs) (hc : c ≠ 'i') :
    decodeLine ≠ line := by
  rintro rfl
  exact hc (List.cons.inj (hline.symm.trans (rfl : decodeLine.toList = 'i' :: _))).1

theorem decodeLine_ne_return (zero value : String) : decodeLine ≠ "return " ++ zero ++ value :=
  decodeLine_ne (by simp only [String.toList_append]; rfl) (by decide)

theorem decodeLine_ne_indented (zero value : String) : decodeLine ≠ "\treturn " ++ zero ++ value :=
  decodeLine_ne (by simp only [String.toList_append]; rfl) (by decide)

theorem decodeLine_not_mem_errorLines (zero : String) (d : Declaration) : decodeLine ∉ errorLines zero d := by
  unfold errorLines
  split
  · rename_i name _ _
    rw [List.mem_singleton]
    exact decodeLine_ne (by simp only [String.toList_append]; rfl) (by decide)
  · rename_i name _ _
    have hcast : decodeLine ≠ "e := " ++ name ++ "(resp.Body)" :=
      decodeLine_ne (by simp only [String.toList_append]; rfl) (by decide)
    simp only [List.mem_cons, List.not_mem_nil, or_false, not_or]
    exact ⟨hcast, decodeLine_ne_return zero "&e"⟩
  · have hvar : decodeLine ≠ "var e " ++ d.name :=
      decodeLine_ne (by rw [String.toList_append]; rfl) (by decide)
    simp only [decodeLines, List.mem_cons, List.not_mem_nil, or_false, not_or]
    exact ⟨hvar, by decide, decodeLine_ne_indented zero "err", by decide, decodeLine_ne_return zero "&e"⟩

/-- Only the case of the result decodes the payload. -/
theorem decodesPayload_caseLines : DecodesPayload (caseLines model zero primary r) ↔ primary = true := by
  constructor
  · rintro ⟨hdecode, -⟩
    by_contra hprimary
    rw [caseLines, if_neg hprimary] at hdecode
    split at hdecode
    · simp only [List.mem_cons, List.not_mem_nil, or_false] at hdecode
      rcases hdecode with h | h | h | h
      · exact absurd h (by decide)
      · exact decodeLine_ne_indented zero "nil" h
      · exact absurd h (by decide)
      · exact decodeLine_ne_return zero _ h
    · split at hdecode
      · exact decodeLine_ne_return zero "nil" (List.mem_singleton.mp hdecode)
      · split at hdecode
        · exact decodeLine_ne_return zero _ (List.mem_singleton.mp hdecode)
        · exact decodeLine_not_mem_errorLines _ _ hdecode
  · intro hprimary
    rw [caseLines, if_pos hprimary]
    constructor
    · exact List.mem_cons_of_mem _ List.mem_cons_self
    · simp [decodeLines]

end

end Go

/-! ## The response of the result -/

/-- Types that are names, none of which is read as more than one value. -/
def Response.NamedAtomic (r : Response) : Prop := ∀ t, r.type = some t → ∃ name, t = .named name ∧ Go.Atomic name

namespace Resolve

variable {doc : Document} {fuel : Nat} {s s' : Session}

/-- A response refers to a component or has a name of its own. -/
theorem responses_namedAtomic {operationId operationName : String} {rs : List (String × RefOr ResponseSpec)}
    {ms : List MappedResponse} {ds : List Declaration} (hname : ∀ d, Separates d → Lacks d operationName)
    (h : Runs (responses doc fuel operationId operationName rs) s (ms, ds) s') :
    ∀ m ∈ ms, m.response.NamedAtomic := by
  induction rs generalizing s ms ds with
  | nil =>
    simp only [responses, runs_pure, Prod.mk.injEq] at h
    obtain ⟨⟨rfl, -⟩, -⟩ := h
    simp
  | cons e rest ih =>
    obtain ⟨m, own, t, more, moreDs, hone, hrest, rfl, -⟩ := runs_responses_cons h
    obtain ⟨status, hkey, htype, -⟩ := runs_response hone
    refine List.forall_mem_cons.mpr ⟨?_, ih hrest⟩
    intro type hsome
    rcases runs_responseType htype with ⟨target, -, htype, -⟩ | ⟨_, -, -, htype, -⟩ | ⟨_, _, target, -, -, -, htype, -⟩ |
        ⟨_, sch, -, -, htype, -⟩
    · refine ⟨_, Option.some.inj (hsome.symm.trans htype), ?_⟩
      exact Go.atomic_of_lacks fun d hd _ => lacks_responseComponentName hd _
    · rw [hsome] at htype
      cases htype
    · refine ⟨_, Option.some.inj (hsome.symm.trans htype), ?_⟩
      exact Go.atomic_of_lacks fun d hd _ => lacks_componentTypeName hd _ _
    · refine ⟨_, Option.some.inj (hsome.symm.trans htype), ?_⟩
      exact Go.atomic_of_lacks fun d hd hplus => lacks_inlineResponseName hd hplus sch (hname d hd) hkey

end Resolve

namespace Go

variable {model : ApiModel} {m : Method} {i : Nat} {r : Response}

theorem isPrimary_iff : isPrimary m r = true ↔
    r.isDefault = false ∧ 200 ≤ r.sortKey ∧ r.sortKey < 300 ∧ ∃ t, r.type = some t ∧ m.responseType = some t := by
  simp only [isPrimary, Bool.and_eq_true, Bool.not_eq_true', decide_eq_true_eq, beq_iff_eq, Option.isSome_iff_exists,
    and_assoc]
  refine and_congr_right fun _ => and_congr_right fun _ => and_congr_right fun _ => ?_
  constructor
  · rintro ⟨⟨t, ht⟩, heq⟩
    exact ⟨t, ht, heq ▸ ht⟩
  · rintro ⟨t, ht, hresult⟩
    exact ⟨⟨t, ht⟩, ht.trans hresult.symm⟩

theorem getElem?_cases (zero : String) : (cases model m zero)[i]? = m.responses[i]?.map fun r =>
    ⟨caseLabel r.status, caseLines model zero (m.responses.findIdx? (isPrimary m) == some i) r⟩ := by
  simp only [cases, List.getElem?_map, List.getElem?_zipIdx, Option.map_map, Nat.zero_add]
  rfl

theorem atomic_of_errorDeclaration? (hr : r.NamedAtomic) {d : Declaration} (h : errorDeclaration? model r = some d) :
    Atomic d.name := by
  obtain ⟨hlookup, -⟩ := Option.filter_eq_some_iff.mp h
  obtain ⟨name, hname, hfind⟩ := Option.bind_eq_some_iff.mp hlookup
  obtain ⟨t, ht, hdeclared⟩ := Option.bind_eq_some_iff.mp hname
  obtain ⟨n, rfl, hatomic⟩ := hr t ht
  obtain rfl := Option.some.inj hdeclared
  have hfound : model.declarations.find? (·.name = n) = some d := hfind
  have hnamed : d.name = n := of_decide_eq_true (List.find?_some hfound :)
  exact hnamed ▸ hatomic

theorem zeroText_noBracket (m : Method) : ∀ c ∈ (zeroText m).toList, c ∉ opening ∧ c ∉ closing := by
  have hnil : "nil, ".toList = ['n', 'i', 'l', ',', ' '] := rfl
  unfold zeroText
  split
  · simp [hnil, opening, closing]
  · exact List.forall_mem_nil _

theorem commas_zeroText (m : Method) : commas 0 (zeroText m).toList = if m.responseType.isSome then 1 else 0 := by
  unfold zeroText
  split <;> decide

/-- The result has one value more than what stands for it in front of an error. -/
theorem resultValues_eq (hnamed : ∀ t, m.responseType = some t → ∃ name, t = .named name ∧ Atomic name) :
    resultValues (method model m).result = commas 0 (zeroText m).toList + 1 := by
  rw [commas_zeroText]
  unfold method
  cases htype : m.responseType with
  | none =>
    show resultValues "error" = 1
    decide
  | some t =>
    obtain ⟨name, rfl, hatomic⟩ := hnamed t htype
    show resultValues ("(*" ++ name ++ ", error)") = 2
    have hchars : ("(*" ++ name ++ ", error)").toList = '(' :: '*' :: (name.toList ++ ", error)".toList) := by
      simp only [String.toList_append]
      rfl
    have hvalues : commas 0 ('*' :: (name.toList ++ ", error)".toList)) = 1 := by
      rw [commas, if_neg (by decide), if_neg (by decide), hatomic.commas_append]
      decide
    rw [resultValues, hchars]
    simp only [countValues, List.isEmpty_cons, hvalues]
    rfl

end Go

namespace Resolve

variable {doc : Document} {fuel : Nat} {s s' : Session}

/-- Whichever success gives the method its result has the type of the result. -/
theorem success_of_resultType? {ms : List MappedResponse} {t : TypeRef}
    (h : MappedResponse.resultType? ms = some t) : ∃ m ∈ ms, m.response.isDefault = false ∧
      200 ≤ m.response.sortKey ∧ m.response.sortKey < 300 ∧ m.response.type = some t := by
  obtain ⟨m, hfind, htype⟩ := Option.bind_eq_some_iff.mp h
  have hsuccess := List.find?_some hfind
  simp only [MappedResponse.isSuccess, Bool.and_eq_true, Bool.not_eq_true', decide_eq_true_eq, and_assoc] at hsuccess
  obtain ⟨hdefault, hlow, hhigh, -⟩ := hsuccess
  exact ⟨m, List.mem_of_find?_eq_some hfind, hdefault, hlow, hhigh, htype⟩

variable {httpMethod : HttpMethod} {path : String} {op : Operation} {ofPath : List (RefOr ParameterSpec)}
  {m : MappedOperation}

theorem mapOperation_namedAtomic (h : Runs (mapOperation doc fuel httpMethod path op ofPath) s m s') :
    ∀ r ∈ m.method.responses, r.NamedAtomic := by
  obtain ⟨_, _, _, ms, -, -, -, hr, -, hresponses, -⟩ := runs_mapOperation h
  rw [hresponses]
  intro r hmem
  obtain ⟨mapped, hmapped, rfl⟩ := List.mem_map.mp hmem
  rcases MappedResponse.mem_arrange hmapped with hdeclared | rfl
  · exact responses_namedAtomic (fun d hd => Name.lacks_proper hd _) hr mapped hdeclared
  · intro t ht
    cases ht

/-- Where a method has a result, the code finds the response of it. -/
theorem mapOperation_primary (h : Runs (mapOperation doc fuel httpMethod path op ofPath) s m s') {t : TypeRef}
    (htype : m.method.responseType = some t) : ∃ i r, m.method.responses[i]? = some r ∧
      m.method.responses.findIdx? (Go.isPrimary m.method) = some i ∧ Go.isPrimary m.method r = true := by
  obtain ⟨_, _, _, ms, -, -, -, -, -, hresponses, hresult, -⟩ := runs_mapOperation h
  obtain ⟨mapped, hmem, hdefault, hlow, hhigh, hmapped⟩ := success_of_resultType? (hresult.symm.trans htype)
  have hin : mapped.response ∈ m.method.responses := hresponses ▸ List.mem_map_of_mem hmem
  have hprimary : Go.isPrimary m.method mapped.response = true :=
    Go.isPrimary_iff.mpr ⟨hdefault, hlow, hhigh, t, hmapped, htype⟩
  have hsome : (m.method.responses.findIdx? (Go.isPrimary m.method)).isSome = true := by
    rw [List.findIdx?_isSome]
    exact List.any_eq_true.mpr ⟨_, hin, hprimary⟩
  obtain ⟨i, hi⟩ := Option.isSome_iff_exists.mp hsome
  obtain ⟨hlt, hfound, -⟩ := List.findIdx?_eq_some_iff_getElem.mp hi
  exact ⟨i, _, List.getElem?_eq_getElem hlt, hi, hfound⟩

end Resolve

/-- The case at `i` reads the payload into a variable of type `t` and returns it, and no other case does. -/
structure Go.DecodesOnlyAt (cases : List Go.Case) (t : TypeRef) (i : Nat) : Prop where
  declares : ∃ c, cases[i]? = some c ∧ "var out " ++ Go.typeName t ∈ c.lines
  only : ∀ (j : Nat) (c : Go.Case), cases[j]? = some c → (Go.DecodesPayload c.lines ↔ j = i)

/-- The code of a method agrees with the method about the result. -/
structure Go.ReturnsResult (code : Go.GoMethod) (m : Method) : Prop where
  values : Go.resultValues code.result = if m.responseType.isSome then 2 else 1
  /-- The payload of one success is decoded, and that has the type of the result. -/
  decodes : ∀ t, m.responseType = some t → ∃ (i : Nat) (r : Response), m.responses[i]? = some r ∧
    r.isDefault = false ∧ 200 ≤ r.sortKey ∧ r.sortKey < 300 ∧ r.type = some t ∧ Go.DecodesOnlyAt code.cases t i
  nothing : m.responseType = none → ∀ c ∈ code.cases, ¬ Go.DecodesPayload c.lines
  returns : ∀ c ∈ code.cases, Go.Returns (Go.resultValues code.result) c.lines

open Resolve in
/-- The code of a method has two values as its result exactly when the method has a result. Then one
    case decodes the payload, into the type of the result, and it is that of a success that has this
    type; without a result no case does. Every case ends with a return statement, and all of them
    return as many values as the result has. -/
theorem method_returns_result {doc : Document} {fuel : Nat} {s s' : Session} {httpMethod : HttpMethod} {path : String}
    {op : Operation} {ofPath : List (RefOr ParameterSpec)} {m : MappedOperation}
    (h : Runs (mapOperation doc fuel httpMethod path op ofPath) s m s') (model : ApiModel) :
    Go.ReturnsResult (Go.method model m.method) m.method := by
  have hnamed := mapOperation_namedAtomic h
  have hresult : ∀ t, m.method.responseType = some t → ∃ name, t = .named name ∧ Go.Atomic name := by
    intro t ht
    obtain ⟨i, r, hr, -, hprimary⟩ := mapOperation_primary h ht
    obtain ⟨-, -, -, u, hu, htype⟩ := Go.isPrimary_iff.mp hprimary
    exact hnamed r (List.mem_of_getElem? hr) t (hu.trans (htype.symm.trans ht))
  have hvalues : Go.resultValues (Go.method model m.method).result = Go.commas 0 (Go.zeroText m.method).toList + 1 :=
    Go.resultValues_eq hresult
  constructor
  case values =>
    rw [hvalues, Go.commas_zeroText]
    split <;> rfl
  case decodes =>
    intro t ht
    obtain ⟨i, r, hr, hi, hprimary⟩ := mapOperation_primary h ht
    obtain ⟨hdefault, hlow, hhigh, u, hu, htype⟩ := Go.isPrimary_iff.mp hprimary
    obtain rfl : u = t := Option.some.inj (htype.symm.trans ht)
    refine ⟨i, r, hr, hdefault, hlow, hhigh, hu, ⟨_, (Go.getElem?_cases _).trans (congrArg _ hr), ?_⟩, ?_⟩
    · simp [hi, Go.caseLines, Go.decodeLines, hu]
    · intro j other hj
      rw [Go.method, Go.getElem?_cases] at hj
      obtain ⟨r', -, rfl⟩ := Option.map_eq_some_iff.mp hj
      rw [Go.decodesPayload_caseLines, hi, beq_iff_eq, Option.some.injEq]
      exact eq_comm
  case nothing =>
    intro hnone c hc hdecodes
    obtain ⟨j, hj⟩ := List.mem_iff_getElem?.mp hc
    rw [Go.method, Go.getElem?_cases] at hj
    obtain ⟨r, -, rfl⟩ := Option.map_eq_some_iff.mp hj
    obtain ⟨hlt, hfound, -⟩ :=
      List.findIdx?_eq_some_iff_getElem.mp (beq_iff_eq.mp (Go.decodesPayload_caseLines.mp hdecodes))
    obtain ⟨-, -, -, t, -, htype⟩ := Go.isPrimary_iff.mp hfound
    rw [hnone] at htype
    cases htype
  case returns =>
    intro c hc
    obtain ⟨j, hj⟩ := List.mem_iff_getElem?.mp hc
    rw [Go.method, Go.getElem?_cases] at hj
    obtain ⟨r, hr, rfl⟩ := Option.map_eq_some_iff.mp hj
    rw [hvalues]
    refine Go.returns_caseLines (Go.zeroText_noBracket _) ?_ ?_
    · intro hprimary
      obtain ⟨hlt, hfound, -⟩ := List.findIdx?_eq_some_iff_getElem.mp (beq_iff_eq.mp hprimary)
      obtain ⟨-, -, -, t, -, htype⟩ := Go.isPrimary_iff.mp hfound
      rw [Go.commas_zeroText, htype]
      rfl
    · intro d hd
      exact Go.atomic_of_errorDeclaration? (hnamed r (List.mem_of_getElem? hr)) hd

open Resolve in
theorem method_returns_result_twoSuccesses :
    ∃ m s', Runs (mapOperation emptyDocument 2 .get "/a" twoSuccesses []) .start m s' ∧
      m.method.responseType = some (.named "F2XXResponse") ∧
      Go.ReturnsResult (Go.method ⟨"p", "P", "t", "1", none, [], [], []⟩ m.method) m.method := by
  have hpasses : passes (mapOperation emptyDocument 2 .get "/a" twoSuccesses []) .start
      (fun m _ => m.method.responseType = some (.named "F2XXResponse")) = true := by decide +kernel
  obtain ⟨m, s', h, htype⟩ := exists_runs_of_passes hpasses
  exact ⟨m, s', h, of_decide_eq_true htype, method_returns_result h _⟩

end ClientGen

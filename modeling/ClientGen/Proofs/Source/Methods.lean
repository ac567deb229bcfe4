import ClientGen.Proofs.Source.Declarations
import ClientGen.Proofs.Source.Files

/-
  ClientGen.Proofs.Source.Methods — what a method names and what is imported for it.

  Every method takes a context and names its HTTP method. Beside that it names `time`, if the type
  of a path parameter or of the result does (`readable_method`). The only case that writes a type
  is the one for the result, so the cases name nothing more (`reads_caseLines`).
-/

namespace ClientGen.Go

open Source

variable {m : ApiModel} {x : Method} {text zero path : String} {used : List String}

/-! ## Arguments -/

theorem lacks_argumentName {d : Char} (hd : Separates d) (hunderscore : d ≠ '_') (name : String) :
    Lacks d (argumentName name) := by
  have hcamel : Lacks d (Name.camel name) := Name.lacks_camel hd name
  have hletter : Lacks d "p" := hd.lacks (by decide)
  have hlast : Lacks d "_" := lacks_ofList.mpr (by simpa using hunderscore)
  unfold argumentName
  dsimp only
  split_ifs
  · exact hcamel.append hlast
  · exact hcamel
  · exact (hletter.append hcamel).append hlast
  · exact hletter.append hcamel

theorem isWord_argumentName (name : String) : ∀ c ∈ (argumentName name).toList, isWord c = true := by
  intro c hc
  by_contra hword
  simp only [isWord, Bool.or_eq_true, beq_iff_eq, Bool.not_eq_true', decide_eq_false_iff_not, not_or, not_not] at hword
  exact lacks_argumentName hword.2 hword.1 name hc

theorem unmarked_argumentName (name : String) : Unmarked (argumentName name) := by
  have hmarks : marks.all (fun d => !isWord d) = true := by rfl
  intro c hc hmark
  simpa [isWord_argumentName name c hc] using List.all_eq_true.mp hmarks c hmark

theorem scans_argument {name type : String} (hname : Unmarked name) (htype : Scans Fresh type InCode used) :
    Scans InCode (", " ++ name ++ " " ++ type) InCode used := by
  have hcomma : Scans InCode ", " Fresh [] := .of_delimited (by decide)
  have hspace : Scans InCode " " Fresh [] := .of_delimited (by decide)
  exact ((hcomma.append (scans_unmarked hname).fresh).append hspace).silentAppend htype

theorem scans_join {α : Type} {items : List α} {write : α → String} {uses : α → List String}
    (h : ∀ a ∈ items, Scans InCode (write a) InCode (uses a)) :
    Scans InCode (String.join (items.map write)) InCode (items.flatMap uses) := by
  induction items with
  | nil => exact .nil
  | cons a rest ih =>
    obtain ⟨hfirst, hothers⟩ := List.forall_mem_cons.mp h
    rw [List.map_cons, String.join_cons]
    exact hfirst.append (ih hothers)

/-- Behind the path parameters, no argument names anything. -/
theorem arguments_eq (htypes : ∀ t ∈ x.types, t.In Unmarked)
    (hnamed : ∀ a ∈ x.queryParams.toList ++ x.body.toList, ∃ name, a.type = .named name) :
    ∃ others, arguments x = x.pathParams.map (fun a => (argumentName a.name, typeName a.type)) ++ others ∧
      ∀ p ∈ others, Unmarked p.1 ∧ Silent p.2 := by
  have hparams : Unmarked "params" := .of_chars (by decide)
  have hbody : Unmarked "body" := .of_chars (by decide)
  have hstar : Scans Fresh "*" Fresh [] := .of_chars (by decide)
  have hbytes : Scans Fresh "[]byte" InCode [] :=
    Scans.weaken (.of_chars (by decide)) (fun _ => id) fun _ hm => ⟨false, ['b', 'y', 't', 'e'], hm⟩
  have hdeclared : ∀ a ∈ x.queryParams.toList ++ x.body.toList, Unmarked (typeName a.type) := by
    intro a ha
    have hmem : a.type ∈ x.types := by
      simp only [Method.types, List.mem_append]
      rcases List.mem_append.mp ha with ha | ha
      · exact .inl (.inl (.inl (.inr (List.mem_map_of_mem ha))))
      · exact .inl (.inl (.inr (List.mem_map_of_mem ha)))
    obtain ⟨name, hname⟩ := hnamed a ha
    rw [hname]
    exact TypeRef.in_named.mp (hname ▸ htypes a.type hmem)
  refine ⟨_, List.append_assoc _ _ _, ?_⟩
  intro p hp
  rcases List.mem_append.mp hp with hp | hp
  · obtain ⟨a, ha, rfl⟩ := List.mem_map.mp hp
    have htype := hdeclared a (List.mem_append_left _ ha)
    exact ⟨hparams, (hstar.append (scans_unmarked htype).fresh).silent⟩
  · split at hp
    · rename_i a ha
      have htype := hdeclared a (List.mem_append_right _ (ha ▸ List.mem_cons_self))
      rw [List.mem_singleton.mp hp]
      exact ⟨hbody, (scans_unmarked htype).fresh.silent⟩
    · split at hp
      · rw [List.mem_singleton.mp hp]
        exact ⟨hbody, hbytes.silent⟩
      · cases hp

/-- The arguments name what the types of the path parameters do. -/
theorem scans_arguments (htypes : ∀ t ∈ x.types, t.In Unmarked)
    (hnamed : ∀ a ∈ x.queryParams.toList ++ x.body.toList, ∃ name, a.type = .named name) :
    Scans InCode (String.join ((arguments x).map fun (name, type) => ", " ++ name ++ " " ++ type)) InCode
      (x.pathParams.flatMap fun a => typeImports (typeName a.type)) := by
  obtain ⟨others, heq, hothers⟩ := arguments_eq htypes hnamed
  have hpath : ∀ a ∈ x.pathParams, a.type.In Unmarked := by
    intro a ha
    refine htypes a.type ?_
    simp only [Method.types, List.mem_append]
    exact .inl (.inl (.inl (.inl (List.mem_map_of_mem ha))))
  have hsilent := scans_join fun p hp => scans_argument (hothers p hp).1 (hothers p hp).2.scans
  rw [heq, List.map_append, List.map_map, String.join_append]
  refine Scans.appendSilent ?_ (hsilent.congr fun path => by simp)
  exact scans_join fun a ha => scans_argument (unmarked_argumentName a.name) (scans_typeName (hpath a ha))

/-! ## The call -/

theorem scans_pathPartText (p : PathPart) : Scans Fresh (pathPartText p) Fresh [] := by
  cases p with
  | literal text => exact (scans_literal text).fresh
  | param argument =>
    have hopen : Scans Fresh "pathParam(" Fresh [] := .of_chars (by decide)
    have hclose : Scans InCode ")" Fresh [] := .of_delimited (by decide)
    exact (hopen.append (scans_unmarked (unmarked_argumentName argument)).fresh).append hclose

theorem silent_pathExpression (t : PathTemplate) : Silent (pathExpression t) := by
  unfold pathExpression
  split
  · exact silent_literal "/"
  · have hplus : Scans Fresh " + " Fresh [] := .of_chars (by decide)
    have hparts : ∀ parts : List PathPart, Scans Fresh (" + ".intercalate (parts.map pathPartText)) Fresh [] := by
      intro parts
      induction parts with
      | nil => exact .nil
      | cons p rest ih =>
        cases rest with
        | nil => exact scans_pathPartText p
        | cons q rest =>
          rw [List.map_cons, List.map_cons, String.intercalate_cons_cons]
          exact ((scans_pathPartText p).append hplus).append ih
    exact (hparts t.parts).inCode.silent

theorem scans_methodConstant (method : HttpMethod) : Scans Fresh (methodConstant method) InCode ["net/http"] := by
  have hscan : ∃ word, Scans Fresh (methodConstant method) (At (.code true word)) ["net/http"] := by
    cases method <;> exact ⟨_, .of_chars (by rfl)⟩
  obtain ⟨word, hword⟩ := hscan
  exact hword.weaken (fun _ => id) fun _ hm => ⟨true, word, hm⟩

/-! ## Cases -/

/-- Lines of code, each read on its own, that name the packages `used`. -/
def Reads (lines : List String) (used : List String) : Prop :=
  (∀ line ∈ lines, Settles line) ∧ ∀ path, path ∈ lines.flatMap packagesIn ↔ path ∈ used

theorem reads_cons {line : String} {lines : List String} (h : Scans Fresh line InCode used)
    (hrest : ∀ line ∈ lines, Silent line) : Reads (line :: lines) used := by
  constructor
  · exact List.forall_mem_cons.mpr ⟨h.settles, fun line hline => (hrest line hline).1⟩
  · intro path
    have hnone : path ∉ lines.flatMap packagesIn := by
      intro hmem
      obtain ⟨line, hline, hin⟩ := List.mem_flatMap.mp hmem
      rw [(hrest line hline).2] at hin
      cases hin
    rw [List.flatMap_cons, List.mem_append, h.mem_packagesIn, or_iff_left hnone]

theorem reads_silent {lines : List String} (h : ∀ line ∈ lines, Silent line) : Reads lines [] := by
  cases lines with
  | nil => exact ⟨List.forall_mem_nil _, fun _ => Iff.rfl⟩
  | cons line lines =>
    obtain ⟨hfirst, hothers⟩ := List.forall_mem_cons.mp h
    exact reads_cons hfirst.scans hothers

/-- What is written directly behind a text that ends at the beginning of a word. -/
theorem silent_behind {before : String} (hbefore : Scans Fresh before Fresh [])
    (hzero : Scans Fresh zero Fresh []) {rest : String} (hrest : Scans Fresh rest InCode []) :
    Silent (before ++ zero ++ rest) :=
  ((hbefore.append hzero).append hrest).silent

theorem scans_zeroText (x : Method) : Scans Fresh (zeroText x) Fresh [] := by
  unfold zeroText
  split
  · exact .of_chars (by decide)
  · exact .nil

/-- The payload is read into a variable of its type. -/
theorem reads_decodeLines {name goType result : String} (hname : Unmarked name)
    (hzero : Scans Fresh zero Fresh []) (htype : Scans Fresh goType InCode used) (hresult : Silent result) :
    Reads (decodeLines name goType zero result) used := by
  have hvar : Scans Fresh "var " Fresh [] := .of_chars (by decide)
  have hspace : Scans InCode " " Fresh [] := .of_delimited (by decide)
  have hdecode : Scans Fresh "if err := decodeJSON(resp.Body, &" Fresh [] := .of_chars (by decide)
  have hfailed : Scans InCode "); err != nil \x7b" Fresh [] := .of_delimited (by decide)
  have hclose : Scans Fresh "\x7d" Fresh [] := .of_chars (by decide)
  have hword : Scans Fresh name InCode [] := (scans_unmarked hname).fresh
  refine reads_cons (((hvar.append hword).append hspace).silentAppend htype) ?_
  simp only [List.forall_mem_cons]
  have hif := ((hdecode.append hword).append hfailed).inCode.silent
  refine ⟨hif, ?_, hclose.inCode.silent, hresult, List.forall_mem_nil _⟩
  exact silent_behind (.of_chars (by decide)) hzero (scans_unmarked (.of_chars (by decide))).fresh

theorem silent_apiError (hzero : Scans Fresh zero Fresh []) : Silent (apiError zero) := by
  have hrest : Scans Fresh "&APIError\x7bStatusCode: resp.StatusCode, Body: resp.Body\x7d" Fresh [] :=
    .of_chars (by decide)
  exact silent_behind (.of_chars (by decide)) hzero hrest.inCode

/-- An error is returned under the name of its declaration. -/
theorem reads_errorLines (hzero : Scans Fresh zero Fresh []) {d : Declaration} (hname : Unmarked d.name) :
    Reads (errorLines zero d) [] := by
  have hown : Scans Fresh "&e" InCode [] := (scans_unmarked (.of_chars (by decide))).fresh
  have hresult : Silent ("return " ++ zero ++ "&e") := silent_behind (.of_chars (by decide)) hzero hown
  unfold errorLines
  split
  · have hreturn : Scans Fresh "return " Fresh [] := .of_chars (by decide)
    have hpointer : Scans Fresh "&" Fresh [] := .of_chars (by decide)
    have hclose : Scans InCode "\x7b\x7d" Fresh [] := .of_delimited (by decide)
    have hopen : Scans Fresh ("return " ++ zero ++ "&") Fresh [] := (hreturn.append hzero).append hpointer
    refine reads_silent (List.forall_mem_singleton.mpr ?_)
    exact ((hopen.append (scans_unmarked hname).fresh).append hclose).inCode.silent
  · have hopen : Scans Fresh "e := " Fresh [] := .of_chars (by decide)
    have hclose : Scans InCode "(resp.Body)" Fresh [] := .of_delimited (by decide)
    refine reads_silent ?_
    simp only [List.forall_mem_cons]
    exact ⟨((hopen.append (scans_unmarked hname).fresh).append hclose).inCode.silent, hresult, List.forall_mem_nil _⟩
  · exact reads_decodeLines (.of_chars (by decide)) hzero (scans_unmarked hname).fresh hresult

/-- The case for the result writes its type. -/
theorem reads_resultLines (hzero : Scans Fresh zero Fresh []) {r : Response} {t : TypeRef}
    (hr : r.type = some t) (ht : t.In Unmarked) : Reads (caseLines m zero true r) (typeImports (typeName t)) := by
  have hreturn : Scans Fresh "return &out, " Fresh [] := .of_chars (by decide)
  have hnil : Scans Fresh "nil" InCode [] := (scans_unmarked (.of_chars (by decide))).fresh
  rw [caseLines, if_pos rfl, hr]
  exact reads_decodeLines (.of_chars (by decide)) hzero (scans_typeName ht) (hreturn.append hnil).silent

/-- No other case writes a type. -/
theorem reads_otherLines (h : m.Plain) (hzero : Scans Fresh zero Fresh []) (r : Response) :
    Reads (caseLines m zero false r) [] := by
  have hnil : Scans Fresh "nil" InCode [] := (scans_unmarked (.of_chars (by decide))).fresh
  have hreturn {before : String} (hbefore : Scans Fresh before Fresh []) : Silent (before ++ zero ++ "nil") :=
    silent_behind hbefore hzero hnil
  have hsuccess : Scans Fresh "if resp.StatusCode >= 200 && resp.StatusCode < 300 \x7b" Fresh [] :=
    .of_chars (by decide)
  have hclose : Scans Fresh "\x7d" Fresh [] := .of_chars (by decide)
  unfold caseLines
  rw [if_neg Bool.false_ne_true]
  split_ifs
  · refine reads_silent ?_
    simp only [List.forall_mem_cons]
    exact ⟨hsuccess.inCode.silent, hreturn (.of_chars (by decide)), hclose.inCode.silent, silent_apiError hzero,
      List.forall_mem_nil _⟩
  · exact reads_silent (List.forall_mem_singleton.mpr (hreturn (.of_chars (by decide))))
  · split
    · exact reads_silent (List.forall_mem_singleton.mpr (silent_apiError hzero))
    · rename_i d hd
      have hfound := (Option.filter_eq_some_iff.mp hd).1
      obtain ⟨name, -, hname⟩ := Option.bind_eq_some_iff.mp hfound
      exact reads_errorLines hzero (h.declarations d (List.mem_of_find?_eq_some hname))

theorem silent_caseLabel (status : Status) : Silent (caseLabel status) := by
  have hnumber (n : Nat) : Scans Fresh (toString n) InCode [] :=
    scans_number fun c hc => .inl (isDigit_of_mem_toString hc)
  have hcolon : Scans InCode ":" Fresh [] := .of_delimited (by decide)
  cases status with
  | code n =>
    have hequal : Scans Fresh "case resp.StatusCode == " Fresh [] := .of_chars (by decide)
    exact ((hequal.append (hnumber n)).append hcolon).inCode.silent
  | range n =>
    have hfrom : Scans Fresh "case resp.StatusCode >= " Fresh [] := .of_chars (by decide)
    have hto : Scans InCode " && resp.StatusCode < " Fresh [] := .of_delimited (by decide)
    exact ((((hfrom.append (hnumber n)).append hto).append (hnumber (n + 100))).append hcolon).inCode.silent
  | default =>
    have hdefault : Scans Fresh "default:" Fresh [] := .of_chars (by decide)
    exact hdefault.inCode.silent

/-- The cases name nothing beside what the type of the result does. -/
theorem readable_cases (h : m.Plain) (hzero : Scans Fresh zero Fresh [])
    (hresult : ∀ t ∈ x.responseType, t.In Unmarked) :
    ∀ c ∈ cases m x zero, c.Readable ∧ ∀ path ∈ c.uses, ∃ t ∈ x.responseType, path ∈ typeImports (typeName t) := by
  intro c hc
  obtain ⟨⟨r, i⟩, hr, rfl⟩ := List.mem_map.mp hc
  obtain ⟨-, hlabel⟩ := silent_caseLabel r.status
  have hlines : ∃ used, Reads (caseLines m zero (x.responses.findIdx? (isPrimary x) == some i) r) used ∧
      ∀ path ∈ used, ∃ t ∈ x.responseType, path ∈ typeImports (typeName t) := by
    cases hprimary : x.responses.findIdx? (isPrimary x) == some i with
    | false => exact ⟨[], reads_otherLines h hzero r, List.forall_mem_nil _⟩
    | true =>
      obtain ⟨hlt, hp, -⟩ := List.findIdx?_eq_some_iff_getElem.mp (beq_iff_eq.mp hprimary)
      obtain ⟨-, -, hat⟩ := List.mem_zipIdx hr
      have hown : isPrimary x r = true := by simpa [hat] using hp
      simp only [isPrimary, Bool.and_eq_true, beq_iff_eq, Option.isSome_iff_exists] at hown
      obtain ⟨⟨-, t, ht⟩, heq⟩ := hown
      have hmem : t ∈ x.responseType := heq ▸ ht
      exact ⟨typeImports (typeName t), reads_resultLines hzero ht (hresult t hmem), fun path hpath => ⟨t, hmem, hpath⟩⟩
  obtain ⟨used, ⟨hsettles, huses⟩, hfrom⟩ := hlines
  refine ⟨⟨(silent_caseLabel r.status).1, hsettles⟩, ?_⟩
  intro path hpath
  rw [Case.uses, hlabel, List.nil_append, huses] at hpath
  exact hfrom path hpath

/-! ## Methods -/

theorem scans_result (h : ∀ t ∈ x.responseType, t.In Unmarked) :
    Scans Fresh (method m x).result InCode (x.responseType.toList.flatMap fun t => typeImports (typeName t)) := by
  have hopen : Scans Fresh "(*" Fresh [] := .of_chars (by decide)
  have hclose : Scans InCode ", error)" Fresh [] := .of_delimited (by decide)
  have herror : Scans Fresh "error" InCode [] := (scans_unmarked (.of_chars (by decide))).fresh
  unfold method
  dsimp only
  cases hresult : x.responseType with
  | none => exact herror
  | some t =>
    rw [Option.toList_some, List.flatMap_singleton]
    exact ((hopen.silentAppend (scans_typeName (h t hresult))).appendSilent hclose).inCode

theorem silent_queryArgument (isSome : Bool) : Silent (if isSome then "params.Values()" else "nil") := by
  have hvalues : Scans Fresh "params.Values()" Fresh [] := .of_chars (by decide)
  have hnil : Scans Fresh "nil" InCode [] := (scans_unmarked (.of_chars (by decide))).fresh
  split
  · exact hvalues.inCode.silent
  · exact hnil.silent

theorem silent_bodyArgument (hasBody : Bool) : Silent (if hasBody then "body" else "nil") := by
  have hbody : Scans Fresh "body" InCode [] := (scans_unmarked (.of_chars (by decide))).fresh
  have hnil : Scans Fresh "nil" InCode [] := (scans_unmarked (.of_chars (by decide))).fresh
  split
  · exact hbody.silent
  · exact hnil.silent

/-- A method names what is imported for it. -/
theorem readable_method (h : m.Plain) (hx : x ∈ m.methods) :
    (method m x).Readable ∧ ∀ path, path ∈ (method m x).uses ↔ path ∈ ["context", "net/http"] ++ methodImports x := by
  have htypes : ∀ t ∈ x.types, t.In Unmarked :=
    fun t ht => h.types t (List.mem_append_right _ (List.mem_flatMap.mpr ⟨x, hx, ht⟩))
  have hresultType : ∀ t ∈ x.responseType, t.In Unmarked := by
    intro t ht
    refine htypes t ?_
    simp only [Method.types, List.mem_append]
    exact .inl (.inr (Option.mem_toList.mpr ht))
  have harguments := scans_arguments htypes (h.arguments x hx)
  have hresult := scans_result (m := m) hresultType
  have hcall := scans_methodConstant x.httpMethod
  have hpath := silent_pathExpression x.path
  have hquery := silent_queryArgument x.queryParams.isSome
  have hbody := silent_bodyArgument (x.body.isSome || x.hasBody)
  have hcases := readable_cases h (scans_zeroText x) hresultType
  constructor
  · constructor
    case name => exact h.methods x hx
    case arguments => exact harguments.congr fun path => (harguments.fresh.mem_packagesIn path).symm
    case result => exact hresult.settles
    case zero => exact scans_zeroText x
    case httpMethod => exact hcall.settles
    case path => exact hpath.1
    case query => exact hquery.1
    case body => exact hbody.1
    case cases => exact fun c hc => (hcases c hc).1
  · intro path
    have hargumentUses : path ∈ packagesIn (method m x).arguments ↔ _ := harguments.fresh.mem_packagesIn path
    have hcaseUses : path ∈ (method m x).cases.flatMap (·.uses) →
        path ∈ x.responseType.toList.flatMap fun t => typeImports (typeName t) := by
      intro hmem
      obtain ⟨c, hc, hin⟩ := List.mem_flatMap.mp hmem
      obtain ⟨t, ht, hused⟩ := (hcases c hc).2 path hin
      exact List.mem_flatMap.mpr ⟨t, Option.mem_toList.mpr ht, hused⟩
    have hcallUses : path ∈ packagesIn (method m x).httpMethod ↔ path ∈ ["net/http"] := hcall.mem_packagesIn path
    have hpathUses : packagesIn (method m x).path = [] := hpath.2
    have hqueryUses : packagesIn (method m x).query = [] := hquery.2
    have hbodyUses : packagesIn (method m x).body = [] := hbody.2
    rw [GoMethod.uses, methodImports, hpathUses, hqueryUses, hbodyUses]
    simp only [List.cons_append, List.nil_append, List.append_nil, List.mem_cons, List.mem_append, List.not_mem_nil,
      or_false, hargumentUses, hresult.mem_packagesIn, hcallUses]
    grind

end ClientGen.Go

import ClientGen.Proofs.Source.Rendered

/-
  ClientGen.Proofs.Source.Files — the packages that the methods of a service and whole files name.

  A method names `context` for its first argument, and what its arguments, its result, the call and
  its cases name (`GoMethod.uses`). The head of a file names nothing, as import paths are texts. So
  a file names what its declarations and its methods name (`emits_typesNodes`, `emits_groupingNodes`).
-/

namespace ClientGen

namespace Go

open Source

def Case.uses (c : Case) : List String := packagesIn c.label ++ c.lines.flatMap packagesIn

structure Case.Readable (c : Case) : Prop where
  label : Settles c.label
  lines : ∀ line ∈ c.lines, Settles line

/-- Every method has a context. -/
def GoMethod.uses (m : GoMethod) : List String :=
  "context" :: packagesIn m.arguments ++ packagesIn m.result ++ packagesIn m.httpMethod ++ packagesIn m.path ++
    packagesIn m.query ++ packagesIn m.body ++ m.cases.flatMap (·.uses)

structure GoMethod.Readable (m : GoMethod) : Prop where
  name : Unmarked m.name
  /-- The arguments stand directly behind the type of the context. -/
  arguments : Scans InCode m.arguments InCode (packagesIn m.arguments)
  result : Settles m.result
  /-- What follows is written directly behind it. -/
  zero : Scans Fresh m.zero Fresh []
  httpMethod : Settles m.httpMethod
  path : Settles m.path
  query : Settles m.query
  body : Settles m.body
  cases : ∀ c ∈ m.cases, c.Readable

structure Service.Readable (s : Service) : Prop where
  typeName : Unmarked s.typeName
  methods : ∀ m ∈ s.methods, m.Readable

def File.uses (f : File) : List String :=
  f.declarations.flatMap (·.uses) ++ f.service.toList.flatMap (·.methods.flatMap (·.uses))

structure File.Readable (f : File) : Prop where
  imports : ∀ path ∈ f.imports, Scans (At (.quoted false)) path (At (.quoted false)) []
  declarations : ∀ d ∈ f.declarations, d.Readable
  service : ∀ s ∈ f.service, s.Readable
  doc : ∀ t ∈ f.docLines, OneLine t

end Go

namespace Template

open Source Go Json

variable {scope : Scope} {rest : List Node} {post : Mode → Prop} {used : List String}

/-! ## Methods -/

theorem emits_caseLines (c : Case) (h : c.Readable) (scope : Scope) :
    Emits (("case", c.toJson) :: scope)
      [.lines ["", "\t"], .value ["case", "label"],
        .each "line" ["case", "lines"] [.lines ["", "\t\t"], .value ["line"]]] InCode InCode c.uses := by
  have hbelow : Scans InCode "\n\t" Fresh [] := .of_delimited (by decide)
  have hdeeper : Scans InCode "\n\t\t" Fresh [] := .of_delimited (by decide)
  have hline : ∀ line ∈ c.lines, Emits (("line", .str line) :: ("case", c.toJson) :: scope)
      [.lines ["", "\t\t"], .value ["line"]] InCode InCode (packagesIn line) := by
    intro line hin
    refine .silent hdeeper ?_
    rw [← List.append_nil (packagesIn line)]
    exact .code (by simp) (h.lines line hin) .nil
  refine .silent hbelow ?_
  refine .code (lookup?_object (by simp) rfl) h.label ?_
  rw [← List.append_nil (c.lines.flatMap _)]
  exact .each (lookup?_object (by simp) rfl) hline .nil

theorem emits_methodNodes (m : GoMethod) {typeName : String} (h : m.Readable) (hdoc : ∀ t ∈ m.doc, OneLine t)
    (htype : lookup? scope ["file", "service", "type_name"] = some (.str typeName)) (htypeName : Unmarked typeName) :
    Emits (("method", m.toJson) :: scope) methodNodes InCode InCode m.uses := by
  have hgap : Scans InCode "\n\n" Fresh [] := .of_delimited (by decide)
  have hfunc : Scans Fresh "func (s *" Fresh [] := .of_chars (by decide)
  have hparen : Scans InCode ") " Fresh [] := .of_delimited (by decide)
  have hcontext : Scans InCode "(ctx context.Context" InCode ["context"] :=
    (Scans.of_delimited (by decide)).weaken (fun _ => id) fun _ hm =>
      ⟨true, "Context".toList, hm⟩
  have hcall : Scans InCode " \x7b\n\tresp, err := s.client.do(ctx, " Fresh [] :=
    .of_delimited (by decide)
  have hcomma : Scans InCode ", " Fresh [] := .of_delimited (by decide)
  have hfailed : Scans InCode ")\n\tif err != nil \x7b\n\t\treturn " Fresh [] :=
    .of_delimited (by decide)
  have hswitch : Scans Fresh "err\n\t\x7d\n\tswitch \x7b" Fresh [] := .of_chars (by decide)
  have hclose : Scans InCode "\n\t\x7d\n\x7d" Fresh [] := .of_delimited (by decide)
  have hall : Emits (("method", m.toJson) :: scope) methodNodes InCode InCode
      (["context"] ++ (packagesIn m.arguments ++ (packagesIn m.result ++ (packagesIn m.httpMethod ++
        (packagesIn m.path ++ (packagesIn m.query ++ (packagesIn m.body ++ (m.cases.flatMap (·.uses) ++ [])))))))) := by
    refine .silent hgap ?_
    refine emits_docLines (lookup?_object (by simp) rfl) hdoc ?_
    refine .silent hfunc ?_
    refine .name (by simp [htype]) htypeName ?_
    refine .silent hparen ?_
    refine .name (lookup?_object (by simp) rfl) h.name ?_
    refine .text hcontext ?_
    refine .value (lookup?_object (by simp) rfl) h.arguments ?_
    refine .silent hparen ?_
    refine .code (lookup?_object (by simp) rfl) h.result ?_
    refine .silent hcall ?_
    refine .code (lookup?_object (by simp) rfl) h.httpMethod ?_
    refine .silent hcomma ?_
    refine .code (lookup?_object (by simp) rfl) h.path ?_
    refine .silent hcomma ?_
    refine .code (lookup?_object (by simp) rfl) h.query ?_
    refine .silent hcomma ?_
    refine .code (lookup?_object (by simp) rfl) h.body ?_
    refine .silent hfailed ?_
    refine .silentValue (lookup?_object (by simp) rfl) h.zero ?_
    refine .silent hswitch ?_
    refine Emits.fresh ?_
    refine .each (lookup?_object (by simp) rfl) (fun c hc => emits_caseLines c (h.cases c hc) _) ?_
    exact Emits.inCode (.silent hclose .nil)
  refine hall.congr ?_
  intro path
  simp only [GoMethod.uses, List.append_assoc, List.append_nil, List.cons_append, List.nil_append]

/-! ## Files -/

section

variable {f : File} {p : String}

/-- Import paths are texts, which name nothing. -/
theorem emits_importNodes (hf : HasFile scope f)
    (himports : ∀ path ∈ f.imports, Scans (At (.quoted false)) path (At (.quoted false)) [])
    (hrest : Emits scope rest Fresh post used) : Emits scope (importNodes :: rest) Fresh post used := by
  have hopen : Scans Fresh "\nimport (" Fresh [] := .of_chars (by decide)
  have hquote : Scans InCode "\n\t\"" (At (.quoted false)) [] := .of_delimited (by decide)
  have hunquote : Scans (At (.quoted false)) "\"" Fresh [] := .of_chars (by decide)
  have hclose : Scans InCode "\n)\n" Fresh [] := .of_delimited (by decide)
  have hpath : ∀ path ∈ f.imports, Emits (("path", .str path) :: scope)
      [.lines ["", "\t\""], .value ["path"], .text "\""] InCode InCode [] := by
    intro path hin
    refine .silent hquote ?_
    refine .silentValue (by simp) (himports path hin) ?_
    exact .silent hunquote (Emits.inCode .nil)
  refine .cond (eval_holds _) ?_
  split
  · refine .silent hopen ?_
    refine Emits.fresh ?_
    exact .silentEach hf.imports hpath (.silent hclose hrest)
  · exact hrest

theorem emits_headNodes (hf : HasFile scope f) (hpackage : lookup? scope ["package"] = some (.str p)) (hp : Unmarked p)
    (himports : ∀ path ∈ f.imports, Scans (At (.quoted false)) path (At (.quoted false)) [])
    (hrest : Emits scope rest Fresh post used) : Emits scope (headNodes ++ rest) Fresh post used := by
  have hfirst : Scans Fresh "// Code generated by sdkgen. DO NOT EDIT.\n\npackage " Fresh [] :=
    .of_chars (by decide)
  have hfeed : Scans InCode "\n" Fresh [] := .of_delimited (by decide)
  refine .silent hfirst ?_
  refine .name hpackage hp ?_
  refine .silent hfeed ?_
  exact emits_importNodes hf himports hrest

theorem emits_declarationsNode (hf : HasFile scope f) (hpackage : lookup? scope ["package"] = some (.str p))
    (hp : Unmarked p) (h : ∀ d ∈ f.declarations, d.Readable)
    (hdoc : ∀ t ∈ f.declarations.flatMap (·.docLines), OneLine t) (hrest : Emits scope rest InCode post used) :
    Emits scope (declarationsNode :: rest) InCode post (f.declarations.flatMap (·.uses) ++ used) := by
  have hgap : Scans InCode "\n\n" Fresh [] := .of_delimited (by decide)
  refine .each hf.declarations ?_ hrest
  intro d hd
  refine .silent hgap ?_
  refine Emits.inCode ?_
  refine emits_declarationNodes d ?_ hp (h d hd) fun t ht => hdoc t (List.mem_flatMap.mpr ⟨d, hd, ht⟩)
  simp [hpackage]

theorem emits_typesNodes (hf : HasFile scope f) (hpackage : lookup? scope ["package"] = some (.str p)) (hp : Unmarked p)
    (h : f.Readable) (hservice : f.service = none) : Emits scope typesNodes Fresh Fresh f.uses := by
  have hfeed : Scans InCode "\n" Fresh [] := .of_delimited (by decide)
  have hdoc : ∀ t ∈ f.declarations.flatMap (·.docLines), OneLine t := fun t ht => h.doc t (List.mem_append_left _ ht)
  rw [File.uses, hservice]
  refine emits_headNodes hf hpackage hp h.imports ?_
  refine Emits.fresh ?_
  exact emits_declarationsNode hf hpackage hp h.declarations hdoc (.silent hfeed .nil)

theorem emits_groupingNodes {s : Service} (hf : HasFile scope f) (hpackage : lookup? scope ["package"] = some (.str p))
    (hp : Unmarked p) (h : f.Readable) (hservice : f.service = some s) :
    Emits scope groupingNodes Fresh Fresh f.uses := by
  obtain ⟨htypeName, hmethods⟩ := h.service s hservice
  have hdoc : ∀ t ∈ f.declarations.flatMap (·.docLines), OneLine t := fun t ht => h.doc t (List.mem_append_left _ ht)
  have hlines : ∀ t ∈ s.docLines, OneLine t := by
    intro t ht
    refine h.doc t (List.mem_append_right _ ?_)
    rwa [hservice, Option.toList_some, List.flatMap_singleton]
  obtain ⟨hown, hothers⟩ := List.forall_mem_append.mp hlines
  have htype : lookup? scope ["file", "service", "type_name"] = some (.str s.typeName) := by
    apply hf.service hservice
    simp [Service.toJson, get?_object, List.lookup]
  have hindent : Scans Ended "\n//" (At .line) [] := .of_lineFeed (by decide)
  have hbelow : Scans Ended "\ntype " Fresh [] := .of_lineFeed (by decide)
  have hstruct : Scans InCode " struct \x7b\n\tclient *Client\n\x7d" Fresh [] :=
    .of_delimited (by decide)
  have hfeed : Scans InCode "\n" Fresh [] := .of_delimited (by decide)
  have hmethod : ∀ m ∈ s.methods, Emits (("method", m.toJson) :: scope) methodNodes InCode InCode m.uses := by
    intro m hm
    exact emits_methodNodes m (hmethods m hm) (fun t ht => hothers t (List.mem_flatMap.mpr ⟨m, hm, ht⟩)) htype htypeName
  rw [File.uses, hservice, Option.toList_some, List.flatMap_singleton]
  refine emits_headNodes hf hpackage hp h.imports ?_
  refine Emits.fresh (Emits.ofEnded ?_)
  refine emits_docLinesBelow ?_ hown hindent ?_
  · apply hf.service hservice
    simp [Service.toJson, get?_object, List.lookup]
  refine .silent hbelow ?_
  refine .name htype htypeName ?_
  refine .silent hstruct ?_
  refine Emits.fresh ?_
  refine emits_declarationsNode hf hpackage hp h.declarations hdoc ?_
  rw [← List.append_nil (s.methods.flatMap _)]
  refine .each ?_ hmethod (.silent hfeed .nil)
  apply hf.service hservice
  simp [Service.toJson, get?_object, List.lookup]

end

end Template

end ClientGen

import ClientGen.Proofs.Package.Rendering
import ClientGen.Proofs.Source.Scan

/-
  ClientGen.Proofs.Source.Rendered — the packages that a rendered file names.

  A file names what its templates name around its pieces, and what the pieces name that stand in
  code (`GoDeclaration.uses`, `GoMethod.uses`). That holds of pieces that can be read on their own
  (`Readable`): names have no marks, types and statements end in code, tags and messages name
  nothing. Most notably a sum type names `encoding/json` once for each of its variants.
  - `Emits scope nodes pre post used`: nodes can be rendered, and their text is read as in `Scans`.
  - There is one lemma for each template, up to whole files (`emits_typesNodes`, `emits_groupingNodes`).
-/

namespace ClientGen

namespace Template

open Source

variable {scope : Scope} {item s : String} {path : Path} {v : Json} {b : Bool} {c : Condition}
  {nodes rest yes no body : List Node} {pre pre' mid post post' : Mode → Prop} {used used' : List String}

/-! ## Texts of nodes -/

theorem renderAll_append (scope : Scope) (nodes rest : List Node) :
    renderAll scope (nodes ++ rest) = (do return (← renderAll scope nodes) ++ (← renderAll scope rest)) := by
  induction nodes with
  | nil =>
    simp only [List.nil_append, renderAll, bind, Except.bind, pure, Except.pure]
    cases renderAll scope rest with
    | error e => rfl
    | ok text => simp
  | cons node nodes ih =>
    rw [List.cons_append, renderAll, ih, renderAll]
    simp only [bind, Except.bind, pure, Except.pure]
    cases node.render scope with
    | error e => rfl
    | ok text =>
      cases renderAll scope nodes with
      | error e => rfl
      | ok more =>
        cases renderAll scope rest with
        | error e => rfl
        | ok last => simp [String.append_assoc]

/-- A condition stands for the branch that it selects. -/
theorem renderAll_cond (h : c.eval scope = .ok b) :
    renderAll scope (.cond c yes no :: rest) = renderAll scope ((if b then yes else no) ++ rest) := by
  rw [renderAll_append, renderAll, Node.render, h]
  cases b with
  | true => rfl
  | false => rfl

/-! ## What nodes emit -/

/-- Nodes can be rendered, and their text leads from where `pre` holds to where `post` holds. -/
def Emits (scope : Scope) (nodes : List Node) (pre post : Mode → Prop) (used : List String) : Prop :=
  ∃ text, renderAll scope nodes = .ok text ∧ Scans pre text post used

namespace Emits

theorem nil : Emits scope [] pre pre [] := ⟨"", rfl, .nil⟩

theorem weaken (h : Emits scope nodes pre post used) (hpre : ∀ m, pre' m → pre m) (hpost : ∀ m, post m → post' m) :
    Emits scope nodes pre' post' used := by
  obtain ⟨text, hrender, hscan⟩ := h
  exact ⟨text, hrender, hscan.weaken hpre hpost⟩

theorem fresh (h : Emits scope nodes InCode post used) : Emits scope nodes Fresh post used :=
  h.weaken (fun _ => inCode_of_fresh) fun _ => id

theorem inCode (h : Emits scope nodes pre Fresh used) : Emits scope nodes pre InCode used :=
  h.weaken (fun _ => id) fun _ => inCode_of_fresh

/-- Code is among the places where a line feed leads back to code. -/
theorem ofEnded (h : Emits scope nodes Ended post used) : Emits scope nodes InCode post used :=
  h.weaken (fun _ => .inl) fun _ => id

theorem congr (h : Emits scope nodes pre post used) (heq : ∀ p, p ∈ used ↔ p ∈ used') :
    Emits scope nodes pre post used' := by
  obtain ⟨text, hrender, hscan⟩ := h
  exact ⟨text, hrender, hscan.congr heq⟩

theorem cons {node : Node} {text : String} (hnode : node.render scope = .ok text) (htext : Scans pre text mid used)
    (hrest : Emits scope rest mid post used') : Emits scope (node :: rest) pre post (used ++ used') := by
  obtain ⟨more, hrender, hmore⟩ := hrest
  refine ⟨text ++ more, ?_, htext.append hmore⟩
  rw [renderAll, hnode, hrender]
  rfl

theorem append (h : Emits scope nodes pre mid used) (hrest : Emits scope rest mid post used') :
    Emits scope (nodes ++ rest) pre post (used ++ used') := by
  obtain ⟨text, hrender, htext⟩ := h
  obtain ⟨more, hrender', hmore⟩ := hrest
  refine ⟨text ++ more, ?_, htext.append hmore⟩
  rw [renderAll_append, hrender, hrender']
  rfl

theorem appendSilent (h : Emits scope nodes pre mid used) (hrest : Emits scope rest mid post []) :
    Emits scope (nodes ++ rest) pre post used := List.append_nil used ▸ h.append hrest

theorem cond (hc : c.eval scope = .ok b) (h : Emits scope ((if b then yes else no) ++ rest) pre post used) :
    Emits scope (.cond c yes no :: rest) pre post used := by
  obtain ⟨text, hrender, htext⟩ := h
  exact ⟨text, (renderAll_cond hc).trans hrender, htext⟩

theorem text (hs : Scans pre s mid used) (hrest : Emits scope rest mid post used') :
    Emits scope (.text s :: rest) pre post (used ++ used') := cons rfl hs hrest

/-- A text that names nothing. -/
theorem silent (hs : Scans pre s mid []) (hrest : Emits scope rest mid post used) :
    Emits scope (.text s :: rest) pre post used := cons rfl hs hrest

theorem value (hv : lookup? scope path = some (.str s)) (hs : Scans pre s mid used)
    (hrest : Emits scope rest mid post used') : Emits scope (.value path :: rest) pre post (used ++ used') := by
  refine cons ?_ hs hrest
  rw [Node.render, require, hv]
  rfl

theorem silentValue (hv : lookup? scope path = some (.str s)) (hs : Scans pre s mid [])
    (hrest : Emits scope rest mid post used) : Emits scope (.value path :: rest) pre post used := value hv hs hrest

/-- Every round of a loop begins where the one before it ends. -/
theorem each {α : Type} {toJson : α → Json} {items : List α} {uses : α → List String}
    (hv : lookup? scope path = some (.arr (items.map toJson)))
    (hbody : ∀ x ∈ items, Emits ((item, toJson x) :: scope) body mid mid (uses x))
    (hrest : Emits scope rest mid post used) :
    Emits scope (.each item path body :: rest) mid post (items.flatMap uses ++ used) := by
  have hrounds : ∃ text, joinRounds (fun v => renderAll ((item, v) :: scope) body) (items.map toJson) = .ok text ∧
      Scans mid text mid (items.flatMap uses) := by
    clear hv hrest
    induction items with
    | nil => exact ⟨"", rfl, .nil⟩
    | cons x items ih =>
      obtain ⟨hfirst, hothers⟩ := List.forall_mem_cons.mp hbody
      obtain ⟨text, hrender, htext⟩ := hfirst
      obtain ⟨more, hmore, hscan⟩ := ih hothers
      refine ⟨text ++ more, ?_, htext.append hscan⟩
      rw [List.map_cons, joinRounds, hrender, hmore]
      rfl
  obtain ⟨text, hrender, htext⟩ := hrounds
  refine cons ?_ htext hrest
  rw [Node.render, require, hv]
  exact hrender

theorem silentEach {α : Type} {toJson : α → Json} {items : List α}
    (hv : lookup? scope path = some (.arr (items.map toJson)))
    (hbody : ∀ x ∈ items, Emits ((item, toJson x) :: scope) body mid mid [])
    (hrest : Emits scope rest mid post used) : Emits scope (.each item path body :: rest) mid post used := by
  refine (each hv hbody hrest).congr ?_
  intro p
  rw [List.flatMap_eq_nil_iff.mpr fun _ _ => rfl, List.nil_append]

/-- A name, which is followed by more code. -/
theorem name (hv : lookup? scope path = some (.str s)) (hs : Unmarked s) (hrest : Emits scope rest InCode post used) :
    Emits scope (.value path :: rest) Fresh post used := silentValue hv (scans_unmarked hs).fresh hrest

/-- A piece of code, which names what it names on its own. -/
theorem code (hv : lookup? scope path = some (.str s)) (hs : Settles s) (hrest : Emits scope rest InCode post used) :
    Emits scope (.value path :: rest) Fresh post (packagesIn s ++ used) := value hv hs.scans hrest

end Emits

/-! ## Comments -/

section

variable {texts : List String} {indent : String}

/-- Behind the two slashes of a comment. -/
theorem emits_commentBody (hs : OneLine s) (hrest : Emits (("line", .str s) :: scope) rest (At .line) post used) :
    Emits (("line", .str s) :: scope) (commentBody :: rest) (At .line) post used := by
  have hline : lookup? (("line", Json.str s) :: scope) ["line"] = some (.str s) := by simp
  have hspace : Scans (At .line) " " (At .line) [] := .of_chars (by decide)
  refine .cond (eval_holds _) ?_
  split
  · exact .silent hspace (.silentValue hline (scans_comment hs) hrest)
  · exact hrest

theorem emits_docLines (hv : lookup? scope path = some (Json.ofTexts texts)) (h : ∀ t ∈ texts, OneLine t)
    (hrest : Emits scope rest Fresh post used) : Emits scope (docLines path :: rest) Fresh post used := by
  have hslashes : Scans Fresh "//" (At .line) [] := .of_chars (by decide)
  have hend : Scans (At .line) "\n" Fresh [] := .of_chars (by decide)
  refine .silentEach hv ?_ hrest
  intro t ht
  exact .silent hslashes (emits_commentBody (h t ht) (.silent hend .nil))

/-- The lines below stand behind code or behind a comment. -/
theorem emits_docLinesBelow (hv : lookup? scope path = some (Json.ofTexts texts)) (h : ∀ t ∈ texts, OneLine t)
    (hindent : Scans Ended ("\n".intercalate ["", indent ++ "//"]) (At .line) [])
    (hrest : Emits scope rest Ended post used) : Emits scope (docLinesBelow indent path :: rest) Ended post used := by
  refine .silentEach hv ?_ hrest
  intro t ht
  have hbody : Emits (("line", .str t) :: scope) [commentBody] (At .line) (At .line) [] :=
    emits_commentBody (h t ht) .nil
  exact .silent hindent (hbody.weaken (fun _ => id) fun _ => .inr)

end

end Template

/-! ## What files name -/

namespace Go

open Source

/-- Fields and variants are written with their types. -/
def GoField.uses (f : GoField) : List String := packagesIn f.type

structure GoField.Readable (f : GoField) : Prop where
  name : Unmarked f.name
  type : Settles f.type
  tag : Silent f.tag

/-- Without a message an error formats itself. -/
def ErrorMethod.uses (e : ErrorMethod) : List String := if e.message.isSome then [] else ["fmt"]

def ErrorMethod.Readable (e : ErrorMethod) : Prop := ∀ message ∈ e.message, message ≠ "" ∧ Silent message

structure Constant.Readable (c : Constant) : Prop where
  name : Unmarked c.name
  value : Silent c.value

def GoDeclaration.uses : GoDeclaration → List String
  | .struct _ _ fields error => fields.flatMap (·.uses) ++ error.toList.flatMap (·.uses)
  | .aliasOf _ _ target error => packagesIn target ++ error.toList.flatMap (·.uses)
  | .enumeration .. => []
  | .sum _ _ variants undecoded error =>
    variants.flatMap (·.uses) ++ (if variants.isEmpty then [] else ["encoding/json"]) ++
      (if undecoded then ["errors"] else []) ++ error.toList.flatMap (·.uses)
  | .calendar .. => ["encoding/json", "time"]
  | .queryEncoder _ statements => "net/url" :: statements.flatMap packagesIn

def GoDeclaration.Readable : GoDeclaration → Prop
  | .struct name _ fields error => Unmarked name ∧ (∀ f ∈ fields, f.Readable) ∧ ∀ e ∈ error, e.Readable
  | .aliasOf name _ target error => Unmarked name ∧ Settles target ∧ ∀ e ∈ error, e.Readable
  | .enumeration name _ base constants => Unmarked name ∧ Unmarked base ∧ ∀ c ∈ constants, c.Readable
  | .sum name _ variants _ error => Unmarked name ∧ (∀ f ∈ variants, f.Readable) ∧ ∀ e ∈ error, e.Readable
  | .calendar name _ layout => Unmarked name ∧ Unmarked layout
  | .queryEncoder typeName statements => Unmarked typeName ∧ ∀ s ∈ statements, Settles s

end Go

namespace Template

open Source Go Json

variable {scope : Scope} {rest : List Node} {post : Mode → Prop} {used : List String}

theorem lookup?_object {fields : List (String × Json)} {n key : String} {v : Json} (hkeys : (fields.map (·.1)).Nodup)
    (hv : fields.lookup key = some v) : lookup? ((n, object fields) :: scope) [n, key] = some v := by
  simp [get?_object hkeys, hv]

/-! ## Declarations -/

theorem emits_structNodes {name : String} {doc : List String} {fields : List GoField} {error : Option ErrorMethod}
    (h : (GoDeclaration.struct name doc fields error).Readable)
    (hdoc : ∀ t ∈ (GoDeclaration.struct name doc fields error).docLines, OneLine t) :
    Emits (("decl", (GoDeclaration.struct name doc fields error).toJson) :: scope) structNodes Fresh Fresh
      (fields.flatMap (·.uses)) := by
  obtain ⟨hname, hfields, -⟩ := h
  obtain ⟨hlines, hmore⟩ := List.forall_mem_append.mp hdoc
  have htype : Scans Fresh "type " Fresh [] := .of_chars (by decide)
  have hopen : Scans InCode " struct \x7b" Fresh [] := .of_delimited (by decide)
  have hindent : Scans Ended "\n\t//" (At .line) [] := .of_lineFeed (by decide)
  have hbelow : Scans Ended "\n\t" Fresh [] := .of_lineFeed (by decide)
  have hspace : Scans InCode " " Fresh [] := .of_delimited (by decide)
  have hclose : Scans InCode "\n\x7d" Fresh [] := .of_delimited (by decide)
  have hfield : ∀ f ∈ fields,
      Emits (("field", f.toJson) :: ("decl", (GoDeclaration.struct name doc fields error).toJson) :: scope)
        [docLinesBelow "\t" ["field", "doc_lines"], .lines ["", "\t"], .value ["field", "name"], .text " ",
          .value ["field", "go_type"], .text " ", .value ["field", "tag"]] InCode InCode f.uses := by
    intro f hf
    have hlines : ∀ t ∈ f.doc, OneLine t := fun t ht => hmore t (List.mem_flatMap.mpr ⟨f, hf, ht⟩)
    refine Emits.ofEnded ?_
    refine emits_docLinesBelow (lookup?_object (by simp) rfl) hlines hindent ?_
    refine .silent hbelow ?_
    refine .name (lookup?_object (by simp) rfl) (hfields f hf).name ?_
    refine .silent hspace ?_
    rw [← List.append_nil f.uses]
    refine .code (lookup?_object (by simp) rfl) (hfields f hf).type ?_
    refine .silent hspace ?_
    exact .silentValue (lookup?_object (by simp) rfl) (hfields f hf).tag.scans .nil
  refine emits_docLines (lookup?_object (by simp) rfl) hlines ?_
  refine .silent htype ?_
  refine .name (lookup?_object (by simp) rfl) hname ?_
  refine .silent hopen ?_
  refine Emits.fresh ?_
  rw [← List.append_nil (fields.flatMap _)]
  refine .each (lookup?_object (by simp) rfl) hfield ?_
  exact .silent hclose .nil

theorem emits_aliasNodes {name target : String} {doc : List String} {error : Option ErrorMethod}
    (h : (GoDeclaration.aliasOf name doc target error).Readable) (hdoc : ∀ t ∈ doc, OneLine t) :
    Emits (("decl", (GoDeclaration.aliasOf name doc target error).toJson) :: scope) aliasNodes Fresh InCode
      (packagesIn target) := by
  obtain ⟨hname, htarget, -⟩ := h
  have htype : Scans Fresh "type " Fresh [] := .of_chars (by decide)
  have hspace : Scans InCode " " Fresh [] := .of_delimited (by decide)
  refine emits_docLines (lookup?_object (by simp) rfl) hdoc ?_
  refine .silent htype ?_
  refine .name (lookup?_object (by simp) rfl) hname ?_
  refine .silent hspace ?_
  rw [← List.append_nil (packagesIn target)]
  exact .code (lookup?_object (by simp) rfl) htarget .nil

theorem emits_enumNodes {name base : String} {doc : List String} {constants : List Constant}
    (h : (GoDeclaration.enumeration name doc base constants).Readable) (hdoc : ∀ t ∈ doc, OneLine t) :
    Emits (("decl", (GoDeclaration.enumeration name doc base constants).toJson) :: scope) enumNodes Fresh InCode
      [] := by
  obtain ⟨hname, hbase, hconstants⟩ := h
  have htype : Scans Fresh "type " Fresh [] := .of_chars (by decide)
  have hspace : Scans InCode " " Fresh [] := .of_delimited (by decide)
  have hopen : Scans InCode "\n\nconst (" Fresh [] := .of_delimited (by decide)
  have hbelow : Scans InCode "\n\t" Fresh [] := .of_delimited (by decide)
  have hequals : Scans InCode " = " Fresh [] := .of_delimited (by decide)
  have hclose : Scans InCode "\n)" Fresh [] := .of_delimited (by decide)
  have hconstant : ∀ c ∈ constants,
      Emits (("constant", c.toJson) :: ("decl", (GoDeclaration.enumeration name doc base constants).toJson) :: scope)
        [.lines ["", "\t"], .value ["constant", "name"], .text " ", decl "name", .text " = ",
          .value ["constant", "value"]] InCode InCode [] := by
    intro c hc
    refine .silent hbelow ?_
    refine .name (lookup?_object (by simp) rfl) (hconstants c hc).name ?_
    refine .silent hspace ?_
    refine .name (by simp [GoDeclaration.toJson, get?_object, List.lookup]) hname ?_
    refine .silent hequals ?_
    exact .silentValue (lookup?_object (by simp) rfl) (hconstants c hc).value.scans .nil
  refine emits_docLines (lookup?_object (by simp) rfl) hdoc ?_
  refine .silent htype ?_
  refine .name (lookup?_object (by simp) rfl) hname ?_
  refine .silent hspace ?_
  refine .name (lookup?_object (by simp) rfl) hbase ?_
  refine .silent hopen ?_
  refine Emits.fresh ?_
  refine .silentEach (lookup?_object (by simp) rfl) hconstant ?_
  exact Emits.inCode (.silent hclose .nil)

/-- A sum type is a struct with a field for each variant. -/
theorem emits_variantNodes (f : GoField) (h : f.Readable) (scope : Scope) :
    Emits (("variant", f.toJson) :: scope)
      [.lines ["", "\t"], .value ["variant", "name"], .text " ", .value ["variant", "go_type"], .text " ",
        .value ["variant", "tag"]] InCode InCode f.uses := by
  have hbelow : Scans InCode "\n\t" Fresh [] := .of_delimited (by decide)
  have hspace : Scans InCode " " Fresh [] := .of_delimited (by decide)
  refine .silent hbelow ?_
  refine .name (lookup?_object (by simp) rfl) h.name ?_
  refine .silent hspace ?_
  rw [← List.append_nil f.uses]
  refine .code (lookup?_object (by simp) rfl) h.type ?_
  refine .silent hspace ?_
  exact .silentValue (lookup?_object (by simp) rfl) h.tag.scans .nil

/-- Each variant has a case of its own that encodes it. -/
theorem emits_caseNodes (f : GoField) (h : f.Readable) (scope : Scope) :
    Emits (("variant", f.toJson) :: scope)
      [.lines ["", "\tcase v."], .value ["variant", "name"], .lines [" != nil:", "\t\treturn json.Marshal(v."],
        .value ["variant", "name"], .text ")"] InCode InCode ["encoding/json"] := by
  have hcase : Scans InCode "\n\tcase v." (At (.code true [])) [] := .of_delimited (by decide)
  have hmember : Scans (At (.code true [])) f.name InCode [] :=
    (scans_unmarked h.name).weaken (fun _ hm => ⟨true, [], hm⟩) fun _ => id
  have hencode : Scans InCode " != nil:\n\t\treturn json.Marshal(v." (At (.code true [])) ["encoding/json"] :=
    .of_delimited (by decide)
  have hparen : Scans InCode ")" Fresh [] := .of_delimited (by decide)
  refine .silent hcase ?_
  refine .silentValue (lookup?_object (by simp) rfl) hmember ?_
  rw [← List.append_nil ["encoding/json"]]
  refine .text hencode ?_
  refine .silentValue (lookup?_object (by simp) rfl) hmember ?_
  exact Emits.inCode (.silent hparen .nil)

theorem emits_sumNodes {name p : String} {doc : List String} {variants : List GoField} {undecoded : Bool}
    {error : Option ErrorMethod} (hpackage : lookup? scope ["package"] = some (.str p)) (hp : Unmarked p)
    (h : (GoDeclaration.sum name doc variants undecoded error).Readable) (hdoc : ∀ t ∈ doc, OneLine t) :
    Emits (("decl", (GoDeclaration.sum name doc variants undecoded error).toJson) :: scope) sumNodes Fresh Fresh
      (variants.flatMap (·.uses) ++ (if variants.isEmpty then [] else ["encoding/json"]) ++
        if undecoded then ["errors"] else []) := by
  obtain ⟨hname, hvariants, -⟩ := h
  have hcases : ∀ path, path ∈ variants.flatMap (fun _ => ["encoding/json"]) ↔
      path ∈ if variants.isEmpty then [] else ["encoding/json"] := by
    intro path
    cases variants <;> simp
  have htype : Scans Fresh ("\n".intercalate ["//", "// At most one field is set at a time.", "type "]) Fresh [] :=
    .lines (.next (.next .last)) (.of_chars (by decide))
  have hopen : Scans InCode " struct \x7b" Fresh [] := .of_delimited (by decide)
  have hmarshal : Scans InCode
      ("\n".intercalate ["", "\x7d", "", "// MarshalJSON encodes whichever variant is set.", "func (v "]) Fresh [] :=
    .lines (.next (.next (.next (.next .last)))) (.of_delimited (by decide))
  have hswitch : Scans InCode ("\n".intercalate [") MarshalJSON() ([]byte, error) \x7b", "\tswitch \x7b"]) Fresh [] :=
    .lines (.next .last) (.of_delimited (by decide))
  have hnull : Scans InCode ("\n".intercalate ["", "\t\x7d", "\treturn []byte(\"null\"), nil", "\x7d"]) Fresh [] :=
    .lines (.next (.next (.next .last))) (.of_delimited (by decide))
  have hcond : (Condition.holds ["decl", "decode_unimplemented"]).eval
      (("decl", (GoDeclaration.sum name doc variants undecoded error).toJson) :: scope) = .ok undecoded := by
    simp [GoDeclaration.toJson, get?_object, List.lookup, isTruthy]
  have hall : Emits (("decl", (GoDeclaration.sum name doc variants undecoded error).toJson) :: scope) sumNodes Fresh
      Fresh (variants.flatMap (·.uses) ++ (variants.flatMap (fun _ => ["encoding/json"]) ++
        if undecoded then ["errors"] else [])) := by
    refine emits_docLines (lookup?_object (by simp) rfl) hdoc ?_
    refine .silent htype ?_
    refine .name (lookup?_object (by simp) rfl) hname ?_
    refine .silent hopen ?_
    refine Emits.fresh ?_
    refine .each (lookup?_object (by simp) rfl)
      (fun f hf => emits_variantNodes f (hvariants f hf) _) ?_
    refine .silent hmarshal ?_
    refine .name (lookup?_object (by simp) rfl) hname ?_
    refine .silent hswitch ?_
    refine Emits.fresh ?_
    refine .each (lookup?_object (by simp) rfl)
      (fun f hf => emits_caseNodes f (hvariants f hf) _) ?_
    refine .silent hnull ?_
    refine .cond hcond ?_
    cases undecoded with
    | false => exact .nil
    | true =>
      have hunmarshal : Scans Fresh
          ("\n".intercalate ["", "",
            "// UnmarshalJSON always fails: choosing a variant from a payload is not supported.", "func (v *"])
          Fresh [] :=
        .lines (.next (.next (.next .last))) (.of_chars (by decide))
      have hfails : Scans InCode
          ("\n".intercalate [") UnmarshalJSON([]byte) error \x7b", "\treturn errors.New(\""])
          (At (.quoted false)) ["errors"] :=
        .lines (.next .last) (.of_delimited (by decide))
      have hdecoding : Scans (At (.quoted false)) ": decoding " (At (.quoted false)) [] := .of_chars (by decide)
      have hend : Scans (At (.quoted false)) ("\n".intercalate [" is not supported\")", "\x7d"]) Fresh [] :=
        .lines (.next .last) (.of_chars (by decide))
      refine .silent hunmarshal ?_
      refine .name (lookup?_object (by simp) rfl) hname ?_
      rw [if_pos rfl, ← List.append_nil ["errors"]]
      refine .text hfails ?_
      refine .silentValue (by simp [hpackage]) (scans_quoted hp.quotable) ?_
      refine .silent hdecoding ?_
      refine .silentValue (lookup?_object (by simp) rfl) (scans_quoted hname.quotable) ?_
      exact .silent hend .nil
  refine hall.congr ?_
  intro path
  simp only [List.mem_append, hcases, or_assoc]

theorem emits_calendarNodes {name layout : String} {doc : List String}
    (h : (GoDeclaration.calendar name doc layout).Readable) (hdoc : ∀ t ∈ doc, OneLine t) :
    Emits (("decl", (GoDeclaration.calendar name doc layout).toJson) :: scope) calendarNodes Fresh Fresh
      ["encoding/json", "time"] := by
  obtain ⟨hname, hlayout⟩ := h
  have hcomment := scans_comment hlayout.oneLine
  have hquoted := scans_quoted hlayout.quotable
  have htype : Scans Fresh "type " Fresh [] := .of_chars (by decide)
  have hwraps : Scans InCode
      ("\n".intercalate [" struct \x7b", "\ttime.Time", "\x7d", "", "// String formats the value as "])
      (At .line) ["time"] :=
    .lines (.next (.next (.next (.next .last)))) (.of_delimited (by decide))
  have hreceiver : Scans (At .line) ("\n".intercalate [".", "func (d "]) Fresh [] :=
    .lines (.next .last) (.of_chars (by decide))
  have hformat : Scans InCode
      ("\n".intercalate [") String() string \x7b", "\treturn d.Format(\""]) (At (.quoted false)) [] :=
    .lines (.next .last) (.of_delimited (by decide))
  have hmarshal : Scans (At (.quoted false))
      ("\n".intercalate ["\")", "\x7d", "", "// MarshalJSON encodes the value as a JSON string.", "func (d "])
      Fresh [] :=
    .lines (.next (.next (.next (.next .last)))) (.of_chars (by decide))
  have hencode : Scans InCode
      ("\n".intercalate [") MarshalJSON() ([]byte, error) \x7b", "\treturn json.Marshal(d.String())", "\x7d", "",
        "// UnmarshalJSON decodes a JSON string in "]) (At .line) ["encoding/json"] :=
    .lines (.next (.next (.next (.next .last)))) (.of_delimited (by decide))
  have hform : Scans (At .line) ("\n".intercalate [" form.", "func (d *"]) Fresh [] :=
    .lines (.next .last) (.of_chars (by decide))
  have hparse : Scans InCode
      ("\n".intercalate [") UnmarshalJSON(data []byte) error \x7b", "\tvar s string",
        "\tif err := json.Unmarshal(data, &s); err != nil \x7b", "\t\treturn err", "\t\x7d", "\tt, err := time.Parse(\""])
      (At (.quoted false)) ["encoding/json", "time"] :=
    .lines (.next (.next (.next (.next (.next .last))))) (.of_delimited (by decide))
  have hend : Scans (At (.quoted false))
      ("\n".intercalate ["\", s)", "\tif err != nil \x7b", "\t\treturn err", "\t\x7d", "\td.Time = t", "\treturn nil",
        "\x7d"]) Fresh [] :=
    .lines (.next (.next (.next (.next (.next (.next .last)))))) (.of_chars (by decide))
  have hall : Emits (("decl", (GoDeclaration.calendar name doc layout).toJson) :: scope) calendarNodes Fresh Fresh
      (["time"] ++ (["encoding/json"] ++ (["encoding/json", "time"] ++ []))) := by
    refine emits_docLines (lookup?_object (by simp) rfl) hdoc ?_
    refine .silent htype ?_
    refine .name (lookup?_object (by simp) rfl) hname ?_
    refine .text hwraps ?_
    refine .silentValue (lookup?_object (by simp) rfl) hcomment ?_
    refine .silent hreceiver ?_
    refine .name (lookup?_object (by simp) rfl) hname ?_
    refine .silent hformat ?_
    refine .silentValue (lookup?_object (by simp) rfl) hquoted ?_
    refine .silent hmarshal ?_
    refine .name (lookup?_object (by simp) rfl) hname ?_
    refine .text hencode ?_
    refine .silentValue (lookup?_object (by simp) rfl) hcomment ?_
    refine .silent hform ?_
    refine .name (lookup?_object (by simp) rfl) hname ?_
    refine .text hparse ?_
    refine .silentValue (lookup?_object (by simp) rfl) hquoted ?_
    exact .silent hend .nil
  refine hall.congr ?_
  intro path
  simp only [List.mem_append, List.mem_cons, List.not_mem_nil, or_false]
  tauto

theorem emits_encoderNodes {typeName : String} {statements : List String}
    (h : (GoDeclaration.queryEncoder typeName statements).Readable) :
    Emits (("decl", (GoDeclaration.queryEncoder typeName statements).toJson) :: scope) encoderNodes Fresh Fresh
      ("net/url" :: statements.flatMap packagesIn) := by
  obtain ⟨hname, hstatements⟩ := h
  have hvalues : Scans Fresh
      ("\n".intercalate ["// Values encodes the parameters as query string values.", "func (p *"]) Fresh [] :=
    .lines (.next .last) (.of_chars (by decide))
  have hopen : Scans InCode
      ("\n".intercalate [") Values() url.Values \x7b", "\tq := url.Values\x7b\x7d", "\tif p == nil \x7b",
        "\t\treturn q", "\t\x7d"]) Fresh ["net/url", "net/url"] :=
    .lines (.next (.next (.next (.next .last)))) (.of_delimited (by decide))
  have hbelow : Scans InCode ("\n".intercalate ["", "\t"]) Fresh [] :=
    .lines (.next .last) (.of_delimited (by decide))
  have hreturn : Scans InCode ("\n".intercalate ["", "\treturn q", "\x7d"]) Fresh [] :=
    .lines (.next (.next .last)) (.of_delimited (by decide))
  have hstatement : ∀ s ∈ statements, Emits
      (("statement", .str s) :: ("decl", (GoDeclaration.queryEncoder typeName statements).toJson) :: scope)
      [.lines ["", "\t"], .value ["statement"]] InCode InCode (packagesIn s) := by
    intro s hs
    refine .silent hbelow ?_
    rw [← List.append_nil (packagesIn s)]
    exact .code (by simp) (hstatements s hs) .nil
  have hall : Emits (("decl", (GoDeclaration.queryEncoder typeName statements).toJson) :: scope) encoderNodes Fresh
      Fresh (["net/url", "net/url"] ++ (statements.flatMap packagesIn ++ [])) := by
    refine .silent hvalues ?_
    refine .name (lookup?_object (by simp) rfl) hname ?_
    refine .text hopen ?_
    refine Emits.fresh ?_
    refine .each (lookup?_object (by simp) rfl) hstatement ?_
    exact .silent hreturn .nil
  refine hall.congr ?_
  intro path
  simp

/-- An error method stands behind its type. -/
theorem emits_errorNodes {name : String} {error : Option ErrorMethod} {fields : List (String × Json)}
    (hkeys : (fields.map (·.1)).Nodup) (hlookup : fields.lookup "name" = some (.str name))
    (herror : fields.lookup "error" = some (ofOption ErrorMethod.toJson error)) (hname : Unmarked name)
    (h : ∀ e ∈ error, e.Readable) :
    Emits (("decl", object fields) :: scope) errorNodes InCode InCode (error.toList.flatMap (·.uses)) := by
  rw [← get?_object hkeys] at hlookup herror
  cases error with
  | none =>
    have hcond : (Condition.holds ["decl", "error"]).eval (("decl", object fields) :: scope) = .ok false := by
      simp [herror, ofOption, isTruthy]
    exact .cond hcond .nil
  | some e =>
    have hdecl : lookup? (("decl", object fields) :: scope) ["decl", "name"] = some (.str name) := by simp [hlookup]
    have hmessage : lookup? (("decl", object fields) :: scope) ["decl", "error", "message"] =
        some (ofOption .str e.message) := by
      simp [herror, ofOption, ErrorMethod.toJson, get?_object, List.lookup]
    have htruthy : isTruthy e.toJson = true := rfl
    have hcond : (Condition.holds ["decl", "error"]).eval (("decl", object fields) :: scope) = .ok true := by
      simp [herror, ofOption, htruthy]
    have hfunc : Scans InCode "\n\nfunc (e *" Fresh [] := .of_delimited (by decide)
    have hopen : Scans InCode ") Error() string \x7b" Fresh [] := .of_delimited (by decide)
    have hclose : Scans InCode "\n\x7d" Fresh [] := .of_delimited (by decide)
    rw [Option.toList_some, List.flatMap_singleton]
    refine .cond hcond ?_
    refine .silent hfunc ?_
    refine .name hdecl hname ?_
    refine .silent hopen ?_
    refine .cond (eval_holds _) ?_
    rw [hmessage]
    cases hm : e.message with
    | none =>
      have hplain : Scans Fresh "\n\ttype plain " Fresh [] := .of_chars (by decide)
      have hformat : Scans InCode "\n\treturn fmt.Sprintf(\"" (At (.quoted false)) ["fmt"] :=
        .of_delimited (by decide)
      have hverb : Scans (At (.quoted false)) ": %+v\", plain(*e))" Fresh [] := .of_chars (by decide)
      rw [ErrorMethod.uses, hm, ← List.append_nil ["fmt"]]
      refine .silent hplain ?_
      refine .name hdecl hname ?_
      refine .text hformat ?_
      refine .silentValue hdecl (scans_quoted hname.quotable) ?_
      refine .silent hverb ?_
      exact Emits.fresh (.silent hclose (Emits.inCode .nil))
    | some message =>
      obtain ⟨hne, hsilent⟩ := h e rfl message hm
      have hreturn : Scans Fresh "\n\treturn " Fresh [] := .of_chars (by decide)
      have hshown : (some (ofOption str (some message))).any isTruthy = true := by simp [ofOption, isTruthy, hne]
      rw [ErrorMethod.uses, hm, hshown]
      refine .silent hreturn ?_
      refine .silentValue (hmessage.trans (by rw [hm]; rfl)) hsilent.scans ?_
      exact .silent hclose (Emits.inCode .nil)

theorem emits_declarationNodes (d : GoDeclaration) {p : String} (hpackage : lookup? scope ["package"] = some (.str p))
    (hp : Unmarked p) (h : d.Readable) (hdoc : ∀ t ∈ d.docLines, OneLine t) :
    Emits (("decl", d.toJson) :: scope) declarationNodes Fresh Fresh d.uses := by
  have hmethod := eval_either (eval_kind d "struct" scope)
    (eval_either (eval_kind d "alias" scope) (eval_kind d "sum" scope))
  have hend : Scans InCode "\n" Fresh [] := .of_delimited (by decide)
  have hlast : Emits (("decl", d.toJson) :: scope) [.lines ["", ""]] InCode Fresh [] := .silent hend .nil
  -- the template goes through the kinds in order
  have hnext {kind : String} {yes no rest : List Node} {post : Mode → Prop} {used : List String}
      (h : Emits (("decl", d.toJson) :: scope) ((if kindOf d == kind then yes else no) ++ rest) Fresh post used) :
      Emits (("decl", d.toJson) :: scope) (ofKind kind yes no :: rest) Fresh post used :=
    .cond (eval_kind d kind scope) h
  cases d with
  | struct name doc fields error =>
    have herror : Emits (("decl", (GoDeclaration.struct name doc fields error).toJson) :: scope) errorNodes InCode
        InCode (error.toList.flatMap (·.uses)) := emits_errorNodes (by simp) rfl rfl h.1 h.2.2
    refine hnext ?_
    refine (emits_structNodes h hdoc).append ?_
    refine .cond hmethod ?_
    exact herror.fresh.appendSilent hlast
  | aliasOf name doc target error =>
    have herror : Emits (("decl", (GoDeclaration.aliasOf name doc target error).toJson) :: scope) errorNodes InCode
        InCode (error.toList.flatMap (·.uses)) := emits_errorNodes (by simp) rfl rfl h.1 h.2.2
    refine hnext (hnext ?_)
    refine (emits_aliasNodes h hdoc).append ?_
    refine .cond hmethod ?_
    exact herror.appendSilent hlast
  | enumeration name doc base constants =>
    refine hnext (hnext (hnext ?_))
    refine (emits_enumNodes h hdoc).appendSilent ?_
    exact .cond hmethod hlast
  | sum name doc variants undecoded error =>
    have herror : Emits (("decl", (GoDeclaration.sum name doc variants undecoded error).toJson) :: scope) errorNodes
        InCode InCode (error.toList.flatMap (·.uses)) := emits_errorNodes (by simp) rfl rfl h.1 h.2.2
    have hlines : ∀ t ∈ doc, OneLine t := fun t ht => hdoc t (List.mem_append_left _ ht)
    refine hnext (hnext (hnext (hnext ?_)))
    refine (emits_sumNodes hpackage hp h hlines).append ?_
    refine .cond hmethod ?_
    exact herror.fresh.appendSilent hlast
  | calendar name doc layout =>
    refine hnext (hnext (hnext (hnext (hnext ?_))))
    refine (emits_calendarNodes h hdoc).appendSilent ?_
    exact .cond hmethod hlast.fresh
  | queryEncoder typeName statements =>
    refine hnext (hnext (hnext (hnext (hnext (hnext ?_)))))
    refine (emits_encoderNodes h).appendSilent ?_
    exact .cond hmethod hlast.fresh

end Template

end ClientGen

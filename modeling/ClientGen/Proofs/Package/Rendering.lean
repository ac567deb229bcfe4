import ClientGen.Template.Package
import ClientGen.Proofs.Comments.Handed

/-
  ClientGen.Proofs.Package.Rendering — the templates can be rendered with the values of a package.

  A template can be rendered if the values are there that it shows, compares and loops over, in the
  branches that are taken (`Renders`). A declaration has what the template of its kind looks up
  (`renders_declarationNodes`), a method and a service too. So a package has all of its files,
  whatever the model and the custom variables are, and their paths are those of its groupings
  (`renderPackage_templateData`).
-/

namespace ClientGen

namespace Json

/-- Of fields with different keys none hides another. -/
theorem get?_object {fields : List (String × Json)} (h : (fields.map (·.1)).Nodup) (key : String) :
    (object fields).get? key = fields.lookup key := by
  change KeyMap.get? (KeyMap.ofList fields) key = KeyMap.get? fields key
  cases hkey : KeyMap.get? fields key with
  | some v => exact (KeyMap.get?_ofList h).mpr (KeyMap.mem_of_get? hkey)
  | none =>
    rw [KeyMap.get?_eq_none_iff] at hkey ⊢
    rwa [KeyMap.mem_keys_ofList]

end Json

namespace Template

/-! ## Values in sight -/

variable {scope : Scope} {name : String} {path : Path} {v : Json}

@[simp] theorem below?_nil (v : Json) : below? v [] = some v := rfl

@[simp] theorem below?_cons (v : Json) (key : String) (path : Path) :
    below? v (key :: path) = (v.get? key).bind fun w => below? w path := rfl

@[simp] theorem lookup?_cons (n : String) (v : Json) (scope : Scope) (name : String) (path : Path) :
    lookup? ((n, v) :: scope) (name :: path) =
      if n = name then (below? v path).or (lookup? scope (name :: path)) else lookup? scope (name :: path) := by
  simp only [lookup?, List.findSome?_cons]
  by_cases hn : n = name
  · simp only [if_pos hn]
    cases below? v path <;> rfl
  · simp only [if_neg hn]

/-- A variable is looked up as a key. -/
theorem lookup?_of_get? {values : KeyMap Json} {w : Json} (h : KeyMap.get? values name = some v)
    (hpath : below? v path = some w) : lookup? values (name :: path) = some w := by
  induction values with
  | nil => cases h
  | cons e rest ih =>
    obtain ⟨n, u⟩ := e
    rw [lookup?_cons]
    by_cases hn : n = name
    · rw [hn, KeyMap.get?_cons_self, Option.some.injEq] at h
      rw [if_pos hn, h, hpath, Option.some_or]
    · rw [KeyMap.get?_cons_of_ne (Ne.symm hn)] at h
      rw [if_neg hn]
      exact ih h

/-! ## What can be rendered -/

def Renders (scope : Scope) (nodes : List Node) : Prop := ∃ text, renderAll scope nodes = .ok text

variable {rest yes no body : List Node} {c : Condition}

@[simp] theorem renders_nil : Renders scope [] := ⟨"", rfl⟩

theorem renders_cons {node : Node} :
    Renders scope (node :: rest) ↔ (∃ text, node.render scope = .ok text) ∧ Renders scope rest := by
  unfold Renders
  simp only [renderAll, bind, Except.bind, pure, Except.pure]
  cases node.render scope with
  | error e => simp
  | ok text => cases renderAll scope rest <;> simp

@[simp] theorem renders_text (s : String) : Renders scope (.text s :: rest) ↔ Renders scope rest := by
  rw [renders_cons]
  simp [Node.render]

@[simp] theorem renders_lines (ls : List String) : Renders scope (.lines ls :: rest) ↔ Renders scope rest :=
  renders_text _

@[simp] theorem renders_value :
    Renders scope (.value path :: rest) ↔ (lookup? scope path).isSome ∧ Renders scope rest := by
  rw [renders_cons]
  cases h : lookup? scope path <;> simp [Node.render, require, h, bind, Except.bind, pure, Except.pure]

@[simp] theorem renders_cond :
    Renders scope (.cond c yes no :: rest) ↔
      (∃ b, c.eval scope = .ok b ∧ (b = true → Renders scope yes) ∧ (b = false → Renders scope no)) ∧
        Renders scope rest := by
  rw [renders_cons]
  unfold Node.render
  cases c.eval scope with
  | error e => simp [bind, Except.bind]
  | ok b => cases b <;> simp [bind, Except.bind, Renders]

theorem joinRounds_ok_iff {render : Json → Except Failure String} {items : List Json} :
    (∃ text, joinRounds render items = .ok text) ↔ ∀ v ∈ items, ∃ text, render v = .ok text := by
  induction items with
  | nil => simp [joinRounds]
  | cons v items ih =>
    rw [List.forall_mem_cons, ← ih]
    simp only [joinRounds, bind, Except.bind, pure, Except.pure]
    cases render v with
    | error e => simp
    | ok text => cases joinRounds render items <;> simp

@[simp] theorem renders_each :
    Renders scope (.each name path body :: rest) ↔
      (∃ items, (lookup? scope path).bind iterated? = some items ∧ ∀ v ∈ items, Renders ((name, v) :: scope) body) ∧
        Renders scope rest := by
  rw [renders_cons]
  unfold Node.render require
  cases lookup? scope path with
  | none => simp [bind, Except.bind]
  | some v =>
    simp only [bind, Except.bind, Option.bind_some]
    cases iterated? v with
    | none => simp
    | some items => simp [joinRounds_ok_iff, Renders]

@[simp] theorem iterated?_arr (items : List Json) : iterated? (.arr items) = some items := rfl

@[simp] theorem iterated?_ofTexts (texts : List String) : iterated? (Json.ofTexts texts) = some (texts.map .str) := rfl

@[simp] theorem eval_holds (path : Path) :
    (Condition.holds path).eval scope = .ok ((lookup? scope path).any isTruthy) := rfl

theorem eval_equals (path : Path) (text : String) :
    (Condition.equals path text).eval scope =
      match lookup? scope path with
      | some v => .ok (v.str? == some text)
      | none => .error (.missing path) := by
  unfold Condition.eval require
  cases lookup? scope path with
  | none => rfl
  | some v => rfl

theorem eval_either {a b : Condition} {x y : Bool} (ha : a.eval scope = .ok x) (hb : b.eval scope = .ok y) :
    (Condition.either a b).eval scope = .ok (x || y) := by
  unfold Condition.eval
  rw [ha, hb]
  cases x with
  | true => rfl
  | false => rfl

/-! ## Declarations -/

@[simp] theorem renders_docLines :
    Renders scope (docLines path :: rest) ↔ ((lookup? scope path).bind iterated?).isSome ∧ Renders scope rest := by
  simp [docLines, commentBody, Option.isSome_iff_exists]

@[simp] theorem renders_docLinesBelow {indent : String} :
    Renders scope (docLinesBelow indent path :: rest) ↔
      ((lookup? scope path).bind iterated?).isSome ∧ Renders scope rest := by
  simp [docLinesBelow, commentBody, Option.isSome_iff_exists]

section

open Go Json

theorem renders_structNodes {name : String} {doc : List String} {fields : List GoField} {error : Option ErrorMethod} :
    Renders (("decl", (GoDeclaration.struct name doc fields error).toJson) :: scope) structNodes := by
  simp [structNodes, GoDeclaration.toJson, get?_object, List.lookup, decl, GoField.toJson]

theorem renders_aliasNodes {name target : String} {doc : List String} {error : Option ErrorMethod} :
    Renders (("decl", (GoDeclaration.aliasOf name doc target error).toJson) :: scope) aliasNodes := by
  simp [aliasNodes, GoDeclaration.toJson, get?_object, List.lookup, decl]

theorem renders_enumNodes {name base : String} {doc : List String} {constants : List Constant} :
    Renders (("decl", (GoDeclaration.enumeration name doc base constants).toJson) :: scope) enumNodes := by
  simp [enumNodes, GoDeclaration.toJson, get?_object, List.lookup, decl, Constant.toJson]

theorem renders_sumNodes {name : String} {doc : List String} {variants : List GoField} {undecoded : Bool}
    {error : Option ErrorMethod} (hpackage : (lookup? scope ["package"]).isSome) :
    Renders (("decl", (GoDeclaration.sum name doc variants undecoded error).toJson) :: scope) sumNodes := by
  simp [sumNodes, GoDeclaration.toJson, get?_object, List.lookup, decl, GoField.toJson, hpackage]

theorem renders_calendarNodes {name layout : String} {doc : List String} :
    Renders (("decl", (GoDeclaration.calendar name doc layout).toJson) :: scope) calendarNodes := by
  simp [calendarNodes, GoDeclaration.toJson, get?_object, List.lookup, decl]

theorem renders_encoderNodes {typeName : String} {statements : List String} :
    Renders (("decl", (GoDeclaration.queryEncoder typeName statements).toJson) :: scope) encoderNodes := by
  simp [encoderNodes, GoDeclaration.toJson, get?_object, List.lookup, decl]

/-- What a declaration is called in templates. -/
def kindOf : GoDeclaration → String
  | .struct .. => "struct"
  | .aliasOf .. => "alias"
  | .enumeration .. => "enum"
  | .sum .. => "sum"
  | .calendar .. => "calendar_helper"
  | .queryEncoder .. => "query_encoder"

theorem get?_kind (d : GoDeclaration) : d.toJson.get? "kind" = some (.str (kindOf d)) := by
  cases d <;> simp [GoDeclaration.toJson, get?_object, List.lookup, kindOf]

theorem eval_kind (d : GoDeclaration) (kind : String) (scope : Scope) :
    (Condition.equals ["decl", "kind"] kind).eval (("decl", d.toJson) :: scope) = .ok (kindOf d == kind) := by
  simp [eval_equals, get?_kind, str?]

theorem renders_ofKind (d : GoDeclaration) (kind : String) :
    Renders (("decl", d.toJson) :: scope) (ofKind kind yes no :: rest) ↔
      ((kindOf d = kind → Renders (("decl", d.toJson) :: scope) yes) ∧
        (kindOf d ≠ kind → Renders (("decl", d.toJson) :: scope) no)) ∧ Renders (("decl", d.toJson) :: scope) rest := by
  simp [ofKind, eval_kind]

/-- The message of an error method is looked at only where there is such a method. -/
theorem renders_errorNodes (name : String) (error : Option ErrorMethod) {fields : List (String × Json)}
    (hkeys : (fields.map (·.1)).Nodup) (hname : fields.lookup "name" = some (.str name))
    (herror : fields.lookup "error" = some (ofOption ErrorMethod.toJson error)) :
    Renders (("decl", object fields) :: scope) errorNodes := by
  rw [← get?_object hkeys] at hname herror
  cases error with
  | none => simp [errorNodes, herror, ofOption, isTruthy]
  | some e =>
    have hmessage : e.toJson.get? "message" = some (ofOption .str e.message) := by
      rw [ErrorMethod.toJson, get?_object (by simp)]
      rfl
    simp [errorNodes, decl, hname, herror, ofOption, hmessage]

theorem renders_declarationNodes (d : GoDeclaration) (hpackage : (lookup? scope ["package"]).isSome) :
    Renders (("decl", d.toJson) :: scope) declarationNodes := by
  have hmethod := eval_either (eval_kind d "struct" scope)
    (eval_either (eval_kind d "alias" scope) (eval_kind d "sum" scope))
  unfold declarationNodes
  simp only [renders_ofKind, renders_cond, hmethod]
  cases d with
  | struct name doc fields error =>
    have herror : Renders (("decl", (GoDeclaration.struct name doc fields error).toJson) :: scope) errorNodes :=
      renders_errorNodes name error (by simp) rfl rfl
    simp [kindOf, renders_structNodes, herror]
  | aliasOf name doc target error =>
    have herror : Renders (("decl", (GoDeclaration.aliasOf name doc target error).toJson) :: scope) errorNodes :=
      renders_errorNodes name error (by simp) rfl rfl
    simp [kindOf, renders_aliasNodes, herror]
  | enumeration name doc base constants => simp [kindOf, renders_enumNodes]
  | sum name doc variants undecoded error =>
    have herror : Renders (("decl", (GoDeclaration.sum name doc variants undecoded error).toJson) :: scope) errorNodes :=
      renders_errorNodes name error (by simp) rfl rfl
    simp [kindOf, renders_sumNodes hpackage, herror]
  | calendar name doc layout => simp [kindOf, renders_calendarNodes]
  | queryEncoder typeName statements => simp [kindOf, renders_encoderNodes]

/-! ## Files -/

/-- The values of a file are in sight, and the name of the package. -/
structure HasFile (scope : Scope) (f : File) : Prop where
  package : (lookup? scope ["package"]).isSome
  imports : lookup? scope ["file", "imports"] = some (ofTexts f.imports)
  declarations : lookup? scope ["file", "declarations"] = some (.arr (f.declarations.map GoDeclaration.toJson))
  service : ∀ {s key v}, f.service = some s → s.toJson.get? key = some v →
    lookup? scope ["file", "service", key] = some v

theorem hasFile_insert {values : KeyMap Json} {package : Json} (h : KeyMap.get? values "package" = some package)
    (f : File) : HasFile (KeyMap.insert "file" f.toJson values) f := by
  have hfile := KeyMap.get?_insert_self "file" f.toJson values
  have hpackage : KeyMap.get? (KeyMap.insert "file" f.toJson values) "package" = some package := by
    rwa [KeyMap.get?_insert_of_ne (by decide)]
  constructor
  case package => rw [lookup?_of_get? hpackage rfl, Option.isSome_some]
  case imports =>
    refine lookup?_of_get? hfile ?_
    simp [File.toJson, get?_object, List.lookup]
  case declarations =>
    refine lookup?_of_get? hfile ?_
    simp [File.toJson, get?_object, List.lookup]
  case service =>
    intro s key v hservice hkey
    refine lookup?_of_get? hfile ?_
    simp [File.toJson, get?_object, List.lookup, hservice, ofOption, hkey]

theorem renders_headNodes {f : File} (h : HasFile scope f) :
    Renders scope (headNodes ++ rest) ↔ Renders scope rest := by
  simp [headNodes, importNodes, h.package, h.imports]

theorem renders_declarationsNode {f : File} (h : HasFile scope f) :
    Renders scope (declarationsNode :: rest) ↔ Renders scope rest := by
  simp [declarationsNode, h.declarations, renders_declarationNodes _ h.package]

theorem renders_typesNodes {f : File} (h : HasFile scope f) : Renders scope typesNodes := by
  rw [typesNodes, renders_headNodes h, renders_declarationsNode h]
  simp

/-- A method is put under the type of its service. -/
theorem renders_methodNodes (m : GoMethod) (htype : (lookup? scope ["file", "service", "type_name"]).isSome) :
    Renders (("method", m.toJson) :: scope) methodNodes := by
  simp [methodNodes, GoMethod.toJson, get?_object, List.lookup, Case.toJson, htype]

theorem renders_groupingNodes {f : File} {s : Service} (h : HasFile scope f) (hservice : f.service = some s) :
    Renders scope groupingNodes := by
  have hdoc : lookup? scope ["file", "service", "doc_lines"] = some (ofTexts s.doc) := by
    apply h.service hservice
    simp [Service.toJson, get?_object, List.lookup]
  have htype : lookup? scope ["file", "service", "type_name"] = some (.str s.typeName) := by
    apply h.service hservice
    simp [Service.toJson, get?_object, List.lookup]
  have hmethods : lookup? scope ["file", "service", "methods"] = some (.arr (s.methods.map GoMethod.toJson)) := by
    apply h.service hservice
    simp [Service.toJson, get?_object, List.lookup]
  have hmethod (m : GoMethod) : Renders (("method", m.toJson) :: scope) methodNodes :=
    renders_methodNodes m (htype ▸ Option.isSome_some)
  rw [groupingNodes, renders_headNodes h]
  simp [renders_declarationsNode h, hdoc, htype, hmethods, hmethod]

end

end Template

end ClientGen

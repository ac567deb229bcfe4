import Mathlib.Data.List.Forall2
import ClientGen.Proofs.Package.Paths
import ClientGen.Proofs.Source.Imports

/-
  ClientGen.Proofs.Package.Imports — whether a generated file imports what it uses.

  A file begins with the name of the package and the block of its imports (`fileHead`). As long as
  its comments are not broken, it names no package that is not imported. It imports no package that
  it does not name, unless it has a sum type without variants and nothing that is encoded or decoded
  (`imports_exact_iff`): `encoding/json` is imported for every sum type, but each use of it is written
  for a variant. A component with an empty `oneOf` is such a type (`emptySum_imports`).
-/

namespace ClientGen

namespace Template

open Go Source

/-! ## The head of a file -/

def importBlock (imports : List String) : String :=
  if imports.isEmpty then ""
  else "\nimport (" ++ String.join (imports.map fun path => "\n\t\"" ++ path ++ "\"") ++ "\n)\n"

/-- How a file begins. -/
def fileHead (package : String) (imports : List String) : String :=
  "// Code generated by sdkgen. DO NOT EDIT.\n\npackage " ++ package ++ "\n" ++ importBlock imports

variable {scope : Scope} {rest : List Node} {f : File} {package content : String}

theorem joinRounds_map {α : Type} {toJson : α → Json} {render : Json → Except Failure String} {write : α → String}
    {items : List α} (h : ∀ x ∈ items, render (toJson x) = .ok (write x)) :
    joinRounds render (items.map toJson) = .ok (String.join (items.map write)) := by
  induction items with
  | nil => rfl
  | cons x items ih =>
    obtain ⟨hfirst, hothers⟩ := List.forall_mem_cons.mp h
    rw [List.map_cons, joinRounds, hfirst, ih hothers, List.map_cons, String.join_cons]
    rfl

theorem renderAll_cons {node : Node} {text more : String} (hnode : node.render scope = .ok text)
    (hrest : renderAll scope rest = .ok more) : renderAll scope (node :: rest) = .ok (text ++ more) := by
  rw [renderAll, hnode, hrest]
  rfl

theorem render_value {path : Path} {text : String} (h : lookup? scope path = some (.str text)) :
    (Node.value path).render scope = .ok text := by
  rw [Node.render, require, h]
  rfl

theorem render_importNodes (hf : HasFile scope f) : importNodes.render scope = .ok (importBlock f.imports) := by
  have hopen : "\n".intercalate ["", "import ("] = "\nimport (" := by rfl
  have hquote : "\n".intercalate ["", "\t\""] = "\n\t\"" := by rfl
  have hclose : "\n".intercalate ["", ")", ""] = "\n)\n" := by rfl
  have hround : ∀ path ∈ f.imports, renderAll (("path", .str path) :: scope)
      [.lines ["", "\t\""], .value ["path"], .text "\""] = .ok ("\n\t\"" ++ path ++ "\"") := by
    intro path _
    have hpath : lookup? (("path", Json.str path) :: scope) ["path"] = some (.str path) := by simp
    refine (renderAll_cons rfl (renderAll_cons (render_value hpath) (renderAll_cons rfl rfl))).trans ?_
    rw [hquote, String.append_empty, String.append_assoc]
  have htruthy : (lookup? scope ["file", "imports"]).any isTruthy = !f.imports.isEmpty := by
    rw [hf.imports]
    cases f.imports <;> rfl
  have hloop : (Node.each "path" ["file", "imports"] [.lines ["", "\t\""], .value ["path"], .text "\""]).render scope =
      .ok (String.join (f.imports.map fun path => "\n\t\"" ++ path ++ "\"")) := by
    rw [Node.render, require, hf.imports]
    exact joinRounds_map hround
  rw [importNodes, Node.render, eval_holds, htruthy]
  cases hempty : f.imports.isEmpty with
  | true =>
    rw [importBlock, hempty]
    rfl
  | false =>
    have hblock : importBlock f.imports =
        "\nimport (" ++ (String.join (f.imports.map fun path => "\n\t\"" ++ path ++ "\"") ++ ("\n)\n" ++ "")) := by
      rw [importBlock, hempty, String.append_empty, ← String.append_assoc]
      rfl
    have hall : renderAll scope [.lines ["", "import ("], .each "path" ["file", "imports"]
          [.lines ["", "\t\""], .value ["path"], .text "\""], .lines ["", ")", ""]] = .ok (importBlock f.imports) := by
      rw [hblock, ← hopen, ← hclose]
      exact renderAll_cons rfl (renderAll_cons hloop (renderAll_cons rfl rfl))
    exact hall

theorem renderAll_headNodes (hf : HasFile scope f) (hpackage : lookup? scope ["package"] = some (.str package)) :
    renderAll scope headNodes = .ok (fileHead package f.imports) := by
  have hfirst : "\n".intercalate ["// Code generated by sdkgen. DO NOT EDIT.", "", "package "] =
      "// Code generated by sdkgen. DO NOT EDIT.\n\npackage " := by rfl
  have hfeed : "\n".intercalate ["", ""] = "\n" := by rfl
  have hall : renderAll scope headNodes =
      .ok ("\n".intercalate ["// Code generated by sdkgen. DO NOT EDIT.", "", "package "] ++
        (package ++ ("\n".intercalate ["", ""] ++ (importBlock f.imports ++ "")))) :=
    renderAll_cons rfl (renderAll_cons (render_value hpackage) (renderAll_cons rfl
      (renderAll_cons (render_importNodes hf) rfl)))
  refine hall.trans (congrArg Except.ok ?_)
  unfold fileHead
  rw [hfirst, hfeed, String.append_empty, String.append_assoc, String.append_assoc]

/-! ## Rendered files -/

/-- The template of a file. -/
def fileNodes (f : File) : List Node := if f.service.isSome then groupingNodes else typesNodes

theorem renderFile_ok {path : String} {nodes : List Node} {values : KeyMap Json} {a : Artifact}
    (h : renderFile path nodes values = .ok a) : a.path = path ∧ renderAll values nodes = .ok a.content := by
  unfold renderFile at h
  split at h
  · rename_i content hcontent
    cases h
    exact ⟨rfl, hcontent⟩
  · cases h

/-- An artifact is a file, rendered with the values of the package. -/
def RendersTo (values : KeyMap Json) (f : File) (a : Artifact) : Prop :=
  a.path = f.name ∧ renderAll (KeyMap.insert "file" f.toJson values) (fileNodes f) = .ok a.content

theorem rendersTo_of_renderGroupings {values : KeyMap Json} {m : ApiModel} {gs : List Grouping}
    {artifacts : List Artifact}
    (h : renderGroupings values (gs.map fun g => (groupingFile m g).toJson) = .ok artifacts) :
    List.Forall₂ (RendersTo values) (gs.map (groupingFile m)) artifacts := by
  induction gs generalizing artifacts with
  | nil =>
    cases h
    exact .nil
  | cons g rest ih =>
    have hname : ((groupingFile m g).toJson.get? "file_name").bind Json.str? = some (groupingFile m g).name := by
      rw [File.toJson, Json.get?_object (by simp)]
      rfl
    simp only [List.map_cons, renderGroupings, hname, bind, Except.bind, pure, Except.pure] at h
    split at h
    · cases h
    · rename_i a ha
      split at h
      · cases h
      · rename_i more hmore
        cases h
        exact .cons (renderFile_ok ha) (ih hmore)

end Template

/-- The files of a package beside that of the client. -/
def Go.files (m : ApiModel) : List Go.File := Go.sharedFile m :: m.groupings.map (Go.groupingFile m)

section

open Template

variable {fuel : Nat} {doc : Document} {s : Settings} {g : Generated}

theorem renderPackage_of_generate (h : generate fuel doc s = .ok g) :
    renderPackage (.obj (Go.templateData g.model doc s.modulePath s.custom)) = .ok g.artifacts := by
  obtain ⟨hcheck, hbuild, hkeyword⟩ := build_of_generate h
  obtain ⟨artifacts, hrender, -⟩ := renderPackage_templateData g.model doc s.modulePath s.custom
  simp only [generate, packageValues, hcheck, hbuild, hkeyword, Bool.false_eq_true, if_false, hrender, Except.mapError,
    bind, Except.bind, pure, Except.pure] at h
  rw [hrender]
  exact congrArg (fun made : Generated => Except.ok made.artifacts) (Except.ok.inj h)

theorem rendersTo_of_generate (h : generate fuel doc s = .ok g) :
    ∃ values, KeyMap.get? values "package" = some (.str g.model.package) ∧
      List.Forall₂ (RendersTo values) (Go.files g.model) g.artifacts.tail := by
  have hrender := renderPackage_of_generate h
  refine ⟨Go.templateData g.model doc s.modulePath s.custom, Go.get?_templateData (by simp [Go.ownValues]), ?_⟩
  have hshared : KeyMap.get? (Go.templateData g.model doc s.modulePath s.custom) "shared" =
      some (Go.sharedFile g.model).toJson := Go.get?_templateData (by simp [Go.ownValues])
  have hgroupings : KeyMap.get? (Go.templateData g.model doc s.modulePath s.custom) "groupings" =
      some (.arr (g.model.groupings.map fun g' => (Go.groupingFile g.model g').toJson)) :=
    Go.get?_templateData (by simp [Go.ownValues])
  simp only [renderPackage, Json.fields?, hshared, hgroupings, Option.bind_some, Json.items?, bind, Except.bind, pure,
    Except.pure] at hrender
  split at hrender
  · cases hrender
  · rename_i client hclient
    split at hrender
    · cases hrender
    · rename_i types htypes
      split at hrender
      · cases hrender
      · rename_i files hfiles
        have hartifacts : client :: types :: files = g.artifacts := Except.ok.inj hrender
        rw [← hartifacts]
        exact .cons (renderFile_ok htypes) (rendersTo_of_renderGroupings hfiles)

/-- A file that is rendered with its values names what its declarations and methods do. -/
theorem reads_of_rendersTo {values : KeyMap Json} {package : String} {f : Go.File} {a : Artifact}
    (hpackage : KeyMap.get? values "package" = some (.str package)) (hp : Source.Unmarked package) (hf : f.Plain)
    (h : RendersTo values f a) :
    (∃ rest, a.content = fileHead package f.imports ++ rest) ∧
      ((∀ t ∈ f.docLines, OneLine t) → ∀ path, path ∈ Source.packagesIn a.content ↔ path ∈ f.uses) := by
  obtain ⟨-, hrender⟩ := h
  have hfile := hasFile_insert hpackage f
  have hname : lookup? (KeyMap.insert "file" f.toJson values) ["package"] = some (.str package) :=
    lookup?_of_get? ((KeyMap.get?_insert_of_ne (by decide) _ _).trans hpackage) rfl
  have hhead : ∃ below, fileNodes f = headNodes ++ below := by
    unfold fileNodes
    split
    · exact ⟨_, rfl⟩
    · exact ⟨_, rfl⟩
  have hemits : (∀ t ∈ f.docLines, OneLine t) →
      Template.Emits (KeyMap.insert "file" f.toJson values) (fileNodes f) Source.Fresh Source.Fresh f.uses := by
    intro hdoc
    unfold fileNodes
    cases hservice : f.service with
    | none => exact emits_typesNodes hfile hname hp (hf.readable hdoc) hservice
    | some s => exact emits_groupingNodes hfile hname hp (hf.readable hdoc) hservice
  constructor
  · obtain ⟨below, hnodes⟩ := hhead
    rw [hnodes, renderAll_append, renderAll_headNodes hfile hname] at hrender
    cases hbelow : renderAll (KeyMap.insert "file" f.toJson values) below with
    | error e =>
      rw [hbelow] at hrender
      cases hrender
    | ok rest =>
      rw [hbelow] at hrender
      exact ⟨rest, (Except.ok.inj hrender).symm⟩
  · intro hdoc path
    obtain ⟨text, htext, hscan⟩ := hemits hdoc
    rw [Except.ok.inj (hrender.symm.trans htext)]
    exact hscan.inCode.mem_packagesIn path

/-- The generated files hold what the model has for them, and name what that names. -/
theorem reads_of_generate (h : generate fuel doc s = .ok g) :
    List.Forall₂ (fun f a => f.Plain ∧ a.path = f.name ∧
        (∃ rest, a.content = fileHead g.model.package f.imports ++ rest) ∧
          ((∀ t ∈ f.docLines, OneLine t) → ∀ path, path ∈ Source.packagesIn a.content ↔ path ∈ f.uses))
      (Go.files g.model) g.artifacts.tail := by
  have hplain := plain_of_generate h
  obtain ⟨values, hpackage, hrendered⟩ := rendersTo_of_generate h
  have hfiles : ∀ f ∈ Go.files g.model, f.Plain := by
    refine List.forall_mem_cons.mpr ⟨Go.plain_sharedFile hplain, ?_⟩
    intro _ hin
    obtain ⟨grouping, hgrouping, rfl⟩ := List.mem_map.mp hin
    exact Go.plain_groupingFile hplain hgrouping
  refine ((List.forall₂_and_left _ _).mpr ⟨hfiles, hrendered⟩).imp ?_
  rintro f a ⟨hf, hrender⟩
  exact ⟨hf, hrender.1, reads_of_rendersTo hpackage hplain.package hf hrender⟩

/-- A file names no package that it does not import. It imports none that it does not name exactly
    if it has no sum type without variants, or else something that is encoded or decoded. -/
theorem imports_exact_iff (h : generate fuel doc s = .ok g) :
    List.Forall₂ (fun f a =>
        a.path = f.name ∧ (∃ rest, a.content = fileHead g.model.package f.imports ++ rest) ∧ f.imports.Nodup ∧
          ((∀ t ∈ f.docLines, OneLine t) →
            (∀ path ∈ Source.packagesIn a.content, path ∈ f.imports) ∧
              ((∀ path ∈ f.imports, path ∈ Source.packagesIn a.content) ↔
                ((∃ d ∈ f.declarations, d.isBareSum = true) → ∃ d ∈ f.declarations, d.encodes = true))))
      (Go.files g.model) g.artifacts.tail := by
  refine (reads_of_generate h).imp ?_
  rintro f a ⟨hf, hname, hhead, hreads⟩
  refine ⟨hname, hhead, hf.nodup, ?_⟩
  intro hdoc
  have huses := hreads hdoc
  refine ⟨fun path hpath => (hf.imports path).mpr (.inl ((huses path).mp hpath)), ?_⟩
  rw [← hf.imports_used_iff]
  exact forall₂_congr fun path _ => huses path

end

/-- An operation whose result is of the type of a component. -/
def oneResult (component : Schema) : Document :=
  { openapi := "3.0.3", info := ⟨"t", "1", none⟩, servers := [], tags := []
    paths := [("/a", ⟨none, none, none, [(.get, ⟨["p"], none, none, some "f", [], none,
      [("200", .item ⟨none, [("application/json",
        ⟨some { Schema.blank with reference := some "#/components/schemas/E" }⟩)]⟩)], false, []⟩)], []⟩)]
    components := ⟨[("E", component)], [], [], []⟩ }

def twoVariants : Schema := { Schema.blank with
  oneOf := some [{ Schema.blank with type := some (.single "string") },
    { Schema.blank with type := some (.single "integer") }] }

def noVariants : Schema := { Schema.blank with oneOf := some [] }

open Template in
theorem imports_exact_iff_twoVariants : ∃ g, generate 4 (oneResult twoVariants) petstore = .ok g ∧
    g.model.groupings.map (·.declarations) =
      [[.sum ⟨"E", [⟨"String", .scalar .string⟩, ⟨"Integer", .scalar .integer⟩], none, false, true⟩]] ∧
    List.Forall₂ (fun f a =>
        a.path = f.name ∧ (∃ rest, a.content = fileHead g.model.package f.imports ++ rest) ∧ f.imports.Nodup ∧
          ((∀ t ∈ f.docLines, OneLine t) →
            (∀ path ∈ Source.packagesIn a.content, path ∈ f.imports) ∧
              ((∀ path ∈ f.imports, path ∈ Source.packagesIn a.content) ↔
                ((∃ d ∈ f.declarations, d.isBareSum = true) → ∃ d ∈ f.declarations, d.encodes = true))))
      (Go.files g.model) g.artifacts.tail := by
  obtain ⟨g, h, htest⟩ := @generate_of_passes 4 (oneResult twoVariants) (fun m => m.groupings.map (·.declarations) =
    [[.sum ⟨"E", [⟨"String", .scalar .string⟩, ⟨"Integer", .scalar .integer⟩], none, false, true⟩]]) (by cbv)
  exact ⟨g, h, of_decide_eq_true htest, imports_exact_iff h⟩

open Template in
/-- A result of a sum type without variants. -/
theorem emptySum_imports : ∃ g, generate 4 (oneResult noVariants) petstore = .ok g ∧
    ∃ f ∈ Go.files g.model, ∃ a ∈ g.artifacts,
      (∃ rest, a.content = fileHead g.model.package f.imports ++ rest) ∧ "encoding/json" ∈ f.imports ∧
        "encoding/json" ∉ Source.packagesIn a.content := by
  obtain ⟨g, h, htest⟩ := @generate_of_passes 4 (oneResult noVariants) (fun m =>
    m.groupings.map (fun g => (g.tag, g.declarations, g.methods.map (·.path.raw))) =
      [("p", [.sum ⟨"E", [], none, false, true⟩], ["/a"])]) (by cbv)
  have hplain := plain_of_generate h
  obtain ⟨grouping, hgroupings, hgrouping⟩ := List.map_eq_singleton_iff.mp (of_decide_eq_true htest)
  simp only [Prod.mk.injEq] at hgrouping
  obtain ⟨htag, hdeclarations, hpaths⟩ := hgrouping
  have hin : grouping ∈ g.model.groupings := hgroupings ▸ List.mem_singleton_self grouping
  have hfile : Go.groupingFile g.model grouping ∈ Go.files g.model := List.mem_cons_of_mem _ (List.mem_map_of_mem hin)
  have hown : (Go.groupingFile g.model grouping).declarations = [Go.sumDeclaration ⟨"E", [], none, false, true⟩] := by
    rw [Go.groupingFile, hdeclarations]
    rfl
  have hdoc : ∀ t ∈ (Go.groupingFile g.model grouping).docLines, OneLine t := by
    have hmethods : ∀ x ∈ grouping.methods, OneLine x.name := fun x hx =>
      (hplain.methods x (List.mem_flatMap_of_mem hin hx)).oneLine
    have hnames : ∀ d ∈ grouping.declarations, OneLine d.name := fun d hd =>
      (hplain.declarations d (List.mem_append_left _ (List.mem_flatMap_of_mem hin hd))).oneLine
    refine (Go.groupingFile_oneLine_iff (hplain.groupings _ hin).oneLine hmethods hnames).mpr ⟨?_, ?_⟩
    · rw [htag]
      decide
    · intro x hx
      have hpath : x.path.raw ∈ grouping.methods.map (·.path.raw) := List.mem_map_of_mem hx
      rw [hpaths] at hpath
      rw [List.mem_singleton.mp hpath]
      decide
  obtain ⟨a, ha, hf, -, hhead, hreads⟩ := exists_of_forall₂ (reads_of_generate h).flip hfile
  refine ⟨g, h, _, hfile, a, List.mem_of_mem_tail ha, hhead, ?_, ?_⟩
  · refine (hf.imports _).mpr (.inr ⟨rfl, ?_⟩)
    rw [hown]
    exact ⟨_, List.mem_cons_self, rfl⟩
  · rw [hreads hdoc, hf.json, hown]
    rintro ⟨d, hd, hencodes⟩
    rw [List.mem_singleton.mp hd] at hencodes
    cases hencodes

end ClientGen

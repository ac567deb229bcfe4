import ClientGen.Proofs.Parameters.Mapped
import ClientGen.Proofs.Path.Scan
import ClientGen.Proofs.Response.Dispatch

/-
  ClientGen.Proofs.Path.Parameter — which path parameters a method takes as arguments.

  A parameter of the path whose name stands in braces is bound there exactly if the name is a
  word. Then the method has its argument; otherwise the braces stay in a literal piece
  (`parameter_binds_iff`), and nothing reports it (`parameter_left_as_text`).
-/

namespace ClientGen

variable {doc : Document}

/-! ## A parameter in the path -/

open Resolve in
/-- A parameter of the path is bound where its name stands in braces exactly if the name is a word.
    The braces of any other name stay literal text. -/
theorem parameter_binds_iff {fuel : Nat} {httpMethod : HttpMethod} {path : String} {op : Operation}
    {ofPath : List (RefOr ParameterSpec)} {s s' : Session} {m : MappedOperation}
    (h : Runs (mapOperation doc fuel httpMethod path op ofPath) s m s') {p : ParameterSpec}
    (hp : p ∈ parametersOf doc httpMethod path op ofPath) (hlocation : p.location = .path)
    {before after : List Char}
    (hpath : path.toList = before ++ (PathPiece.placeholder p.name.toList).written ++ after) :
    (m.method.path.Binds before p.name.toList after ↔ IsWord p.name.toList) ∧
    (IsWord p.name.toList → .param (Name.camel p.name) ∈ m.method.path.parts ∧
      ∃ a ∈ m.method.pathParams, a.name = Name.camel p.name ∧
        ((∀ q ∈ m.method.path.placeholders, Name.camel q = Name.camel p.name → q = p.name) →
          a.type = (p.type doc (Name.camel p.name)).1)) ∧
    (¬ IsWord p.name.toList → '\x7b' ∉ p.name.toList → '\x7d' ∉ p.name.toList →
      m.method.path.Leaves before p.name.toList after) := by
  obtain ⟨_, _, _, _, -, -, -, -, hparams, -, -, -, -, htemplate⟩ := runs_mapOperation h
  rw [hparams, htemplate]
  have hbinds := PathTemplate.binds_ofPath_iff hpath
  refine ⟨hbinds, fun hword => ⟨?_, ?_⟩, fun hword hopen hclose => PathTemplate.leaves_ofPath hpath hopen hclose hword⟩
  · simpa using PathTemplate.param_mem_parts_of_binds (hbinds.mpr hword)
  · have hmem : p.name ∈ (PathTemplate.ofPath path).placeholders := by
      simpa using PathTemplate.mem_placeholders_of_binds (hbinds.mpr hword)
    obtain ⟨q, hq⟩ : ∃ q, (PathTemplate.ofPath path).placeholders.find? (Name.camel · == Name.camel p.name) = some q :=
      Option.isSome_iff_exists.mp (List.find?_isSome.mpr ⟨p.name, hmem, by simp⟩)
    refine ⟨⟨Name.camel p.name, (placeholderType doc _ _ q (Name.camel p.name)).1⟩,
      mem_pathArguments.mpr ⟨by simp, q, hq, rfl⟩, rfl, fun hunique => ?_⟩
    have hsame : Name.camel q = Name.camel p.name := by simpa using List.find?_some hq
    obtain rfl := hunique q (List.mem_of_find?_eq_some hq) hsame
    simp only [placeholderType, find?_parametersOf hp hlocation]

/-! ## A name with a hyphen -/

def pathParameter (name : String) : ParameterSpec := ⟨name, .path, true, none, none⟩

def hyphenatedPath : String := "/users/\x7buserId\x7d/\x7bpost-id\x7d"

/-- An operation with two parameters of the path, one with a hyphen in its name. -/
def hyphenated : Operation :=
  ⟨[], none, none, some "f", [.item (pathParameter "userId"), .item (pathParameter "post-id")], none, [], false, []⟩

open Resolve in
theorem hyphenated_runs : ∃ m s', Runs (mapOperation emptyDocument 1 .get hyphenatedPath hyphenated []) .start m s' ∧
    m.method.path.parts = [.literal "/users/", .param "userId", .literal "/\x7bpost-id\x7d"] ∧
    m.method.pathParams = [⟨"userId", .string⟩] ∧ s'.diagnostics = [] := by
  have hpasses : passes (mapOperation emptyDocument 1 .get hyphenatedPath hyphenated []) .start (fun m s' =>
      decide (m.method.path.parts = [.literal "/users/", .param "userId", .literal "/\x7bpost-id\x7d"] ∧
        m.method.pathParams = [⟨"userId", .string⟩] ∧ s'.diagnostics = [])) = true := by cbv
  obtain ⟨m, s', h, htest⟩ := exists_runs_of_passes hpasses
  exact ⟨m, s', h, of_decide_eq_true htest⟩

open Resolve in
theorem parameter_binds_iff_userId :
    ∃ m s', Runs (mapOperation emptyDocument 1 .get hyphenatedPath hyphenated []) .start m s' ∧
      pathParameter "userId" ∈ parametersOf emptyDocument .get hyphenatedPath hyphenated [] ∧
      hyphenatedPath.toList =
        "/users/".toList ++ (PathPiece.placeholder "userId".toList).written ++ "/\x7bpost-id\x7d".toList ∧
      m.method.path.Binds "/users/".toList "userId".toList "/\x7bpost-id\x7d".toList := by
  obtain ⟨m, s', h, -⟩ := hyphenated_runs
  have hp : pathParameter "userId" ∈ parametersOf emptyDocument .get hyphenatedPath hyphenated [] := List.mem_cons_self
  have hpath : hyphenatedPath.toList =
      "/users/".toList ++ (PathPiece.placeholder "userId".toList).written ++ "/\x7bpost-id\x7d".toList := rfl
  exact ⟨m, s', h, hp, hpath, (parameter_binds_iff h hp rfl hpath).1.mpr (by decide)⟩

open Resolve in
/-- A parameter whose name has a hyphen stays in the URL as it is written, without an argument or a
    diagnostic. -/
theorem parameter_left_as_text :
    ∃ m s', Runs (mapOperation emptyDocument 1 .get hyphenatedPath hyphenated []) .start m s' ∧
      pathParameter "post-id" ∈ parametersOf emptyDocument .get hyphenatedPath hyphenated [] ∧
      hyphenatedPath.toList =
        "/users/\x7buserId\x7d/".toList ++ (PathPiece.placeholder "post-id".toList).written ++ [] ∧
      m.method.path.parts = [.literal "/users/", .param "userId", .literal "/\x7bpost-id\x7d"] ∧
      m.method.pathParams = [⟨"userId", .string⟩] ∧ s'.diagnostics = [] := by
  obtain ⟨m, s', h, hparts, hparams, hdiagnostics⟩ := hyphenated_runs
  exact ⟨m, s', h, List.mem_cons_of_mem _ List.mem_cons_self, rfl, hparts, hparams, hdiagnostics⟩

end ClientGen

import Mathlib.Data.List.Basic
import Mathlib.Data.List.Induction
import ClientGen.Operation.Parameters
import ClientGen.Proofs.Merge.First

/-
  ClientGen.Proofs.Parameters.Merged — the parameters of an operation together with those of its path.

  Parameters are told apart by their places: a name and a location.
  - Merging keeps, of the parameters that resolve, the first of every place that is not taken yet
    (`mergeParametersFrom_eq`), and reports every reference that leads nowhere.
  - The first of every key are the elements with nothing of their key in front of them
    (`firstByKey_eq_unpreceded`). So the parameters of an operation stand before those of its
    path and hide them (`mergeParameters_firsts`).
  - A reference resolves if a component has the key behind its start (`mem_parametersIn`,
    `mem_danglingIn`), and is reported otherwise (`unresolved_mem_mergeParameters_iff`).
-/

namespace ClientGen

/-- The name and the location of a parameter. -/
def ParameterSpec.place (p : ParameterSpec) : String × ParameterLocation := (p.name, p.location)

theorem ParameterSpec.samePlace_iff {p q : ParameterSpec} : p.samePlace q = true ↔ p.place = q.place := by
  simp [samePlace, place]

theorem any_samePlace_iff {ps : List ParameterSpec} {p : ParameterSpec} :
    ps.any p.samePlace = true ↔ p.place ∈ ps.map (·.place) := by
  simp only [List.any_eq_true, ParameterSpec.samePlace_iff, List.mem_map]
  exact exists_congr fun q => and_congr_right fun _ => eq_comm

namespace Document

/-- The parameters that a list gives, itself or by reference. -/
def parametersIn (doc : Document) (rs : List (RefOr ParameterSpec)) : List ParameterSpec := rs.filterMap doc.parameter?

/-- The references in a list that lead to no parameter. -/
def danglingIn (doc : Document) (rs : List (RefOr ParameterSpec)) : List String :=
  rs.filterMap fun
    | .item _ => none
    | .ref target => if (doc.parameterByRef? target).isNone then some target else none

variable {doc : Document} {r : RefOr ParameterSpec} {rest : List (RefOr ParameterSpec)}

theorem mem_parametersIn {rs : List (RefOr ParameterSpec)} {p : ParameterSpec} :
    p ∈ doc.parametersIn rs ↔
      .item p ∈ rs ∨
        ∃ key, .ref (parameterRefStart ++ key) ∈ rs ∧ KeyMap.get? doc.components.parameters key = some p := by
  rw [parametersIn, List.mem_filterMap]
  constructor
  · rintro ⟨r, hr, hp⟩
    cases r with
    | item q =>
      cases hp
      exact .inl hr
    | ref target =>
      obtain ⟨key, rfl, hget⟩ := parameterByRef?_eq_some_iff.mp hp
      exact .inr ⟨key, hr, hget⟩
  · rintro (hr | ⟨key, hr, hget⟩)
    · exact ⟨_, hr, rfl⟩
    · exact ⟨_, hr, parameterByRef?_eq_some_iff.mpr ⟨key, rfl, hget⟩⟩

/-- A reference dangles unless it has the key of a parameter component behind the usual start. -/
theorem mem_danglingIn {rs : List (RefOr ParameterSpec)} {target : String} :
    target ∈ doc.danglingIn rs ↔
      .ref target ∈ rs ∧ ∀ key, target = parameterRefStart ++ key → key ∉ doc.components.parameters.keys := by
  have hnone : (doc.parameterByRef? target).isNone = true ↔
      ∀ key, target = parameterRefStart ++ key → key ∉ doc.components.parameters.keys := by
    rw [Option.isNone_iff_eq_none, Option.eq_none_iff_forall_ne_some]
    simp only [Ne, parameterByRef?_eq_some_iff, ← KeyMap.get?_eq_none_iff, Option.eq_none_iff_forall_ne_some]
    grind
  rw [danglingIn, List.mem_filterMap, ← hnone]
  constructor
  · rintro ⟨r, hr, htarget⟩
    cases r with
    | item q => cases htarget
    | ref other =>
      obtain ⟨hother, heq⟩ := Option.ite_none_right_eq_some.mp htarget
      cases heq
      exact ⟨hr, hother⟩
  · rintro ⟨hr, htarget⟩
    exact ⟨_, hr, if_pos htarget⟩

theorem parametersIn_append (doc : Document) (rs rs' : List (RefOr ParameterSpec)) :
    doc.parametersIn (rs ++ rs') = doc.parametersIn rs ++ doc.parametersIn rs' := List.filterMap_append

theorem parametersIn_cons_of_some {p : ParameterSpec} (h : doc.parameter? r = some p) :
    doc.parametersIn (r :: rest) = p :: doc.parametersIn rest := List.filterMap_cons_some h

theorem danglingIn_cons_of_some {p : ParameterSpec} (h : doc.parameter? r = some p) :
    doc.danglingIn (r :: rest) = doc.danglingIn rest := by
  cases r with
  | item q => rfl
  | ref target =>
    have htarget : doc.parameterByRef? target = some p := h
    simp [danglingIn, htarget]

end Document

variable {doc : Document} {operationId : String}

/-! ## Merging -/

theorem mergeParametersFrom_eq (merged : List ParameterSpec) (rs : List (RefOr ParameterSpec)) :
    mergeParametersFrom doc operationId merged rs =
      (merged ++ firstByKeyFrom ParameterSpec.place (merged.map (·.place)) (doc.parametersIn rs),
        (doc.danglingIn rs).map (.unresolvedParameter operationId)) := by
  induction rs generalizing merged with
  | nil => simp [mergeParametersFrom, Document.parametersIn, Document.danglingIn, firstByKeyFrom]
  | cons r rest ih =>
    have hadd {p : ParameterSpec} (hp : doc.parameter? r = some p) :
        mergeParametersFrom doc operationId (if merged.any p.samePlace then merged else merged ++ [p]) rest =
          (merged ++ firstByKeyFrom ParameterSpec.place (merged.map (·.place)) (doc.parametersIn (r :: rest)),
            (doc.danglingIn (r :: rest)).map (.unresolvedParameter operationId)) := by
      rw [ih, Document.parametersIn_cons_of_some hp, Document.danglingIn_cons_of_some hp]
      by_cases htaken : p.place ∈ merged.map (·.place)
      · rw [if_pos (any_samePlace_iff.mpr htaken), firstByKeyFrom_cons_of_mem htaken]
      · have hseen : ∀ k, k ∈ (merged ++ [p]).map (·.place) ↔ k ∈ p.place :: merged.map (·.place) := by simp [or_comm]
        rw [if_neg (mt any_samePlace_iff.mp htaken), firstByKeyFrom_cons_of_not_mem htaken,
          firstByKeyFrom_congr hseen, List.append_assoc, List.singleton_append]
    cases r with
    | item p => exact hadd rfl
    | ref target =>
      rw [mergeParametersFrom]
      split
      · exact hadd ‹_›
      · rename_i hnone
        simp [ih, Document.parametersIn, Document.danglingIn, Document.parameter?, hnone]

/-- The parameters of an operation, and those of its path that are not hidden. -/
theorem mergeParameters_eq (own ofPath : List (RefOr ParameterSpec)) :
    mergeParameters doc operationId own ofPath =
      (firstByKey ParameterSpec.place (doc.parametersIn own ++ doc.parametersIn ofPath),
        (doc.danglingIn (own ++ ofPath)).map (.unresolvedParameter operationId)) := by
  rw [mergeParameters, mergeParametersFrom_eq, Document.parametersIn_append]
  rfl

theorem exists_parameter_of_mem_mergeParameters {own ofPath : List (RefOr ParameterSpec)} {p : ParameterSpec}
    (h : p ∈ (mergeParameters doc operationId own ofPath).1) : ∃ r ∈ own ++ ofPath, doc.parameter? r = some p := by
  rw [mergeParameters_eq, ← Document.parametersIn_append] at h
  exact List.mem_filterMap.mp (mem_of_mem_firstByKeyFrom h)

/-! ## What stands first -/

section First

variable {α κ : Type} [BEq κ] [LawfulBEq κ]

/-- The elements whose keys none of the elements before them has. -/
def unpreceded (key : α → κ) (items : List α) : List α :=
  (items.zipIdx.filter fun (a, i) => !((items.take i).map key).contains (key a)).map (·.1)

theorem unpreceded_append_singleton (key : α → κ) (items : List α) (a : α) :
    unpreceded key (items ++ [a]) = unpreceded key items ++ if key a ∈ items.map key then [] else [a] := by
  have hearlier : (items.zipIdx.filter fun (b, i) => !(((items ++ [a]).take i).map key).contains (key b)) =
      items.zipIdx.filter fun (b, i) => !((items.take i).map key).contains (key b) := by
    refine List.filter_congr fun (b, i) hb => ?_
    have hi : i ≤ items.length := by
      have := (List.mem_zipIdx hb).2.1
      omega
    simp only [List.take_append_of_le_length hi]
  rw [unpreceded, List.zipIdx_append, List.filter_append, hearlier, List.map_append, ← unpreceded, List.zipIdx_singleton]
  split
  · rename_i ha
    rw [List.filter_cons_of_neg (by simpa using ha)]
    rfl
  · rename_i ha
    rw [List.filter_cons_of_pos (by simpa using ha)]
    rfl

/-- Keeping the first of every key looks at what is kept so far, which has the keys of all that was read. -/
theorem firstByKey_eq_unpreceded (key : α → κ) (items : List α) : firstByKey key items = unpreceded key items := by
  induction items using List.reverseRecOn with
  | nil => rfl
  | append_singleton items a ih =>
    rw [unpreceded_append_singleton, firstByKey, firstByKeyFrom_append, ← firstByKey, ih, List.append_nil]
    by_cases ha : key a ∈ items.map key
    · rw [firstByKeyFrom_cons_of_mem ha, if_pos ha]
      rfl
    · rw [firstByKeyFrom_cons_of_not_mem ha, if_neg ha]
      rfl

end First

/-! ## Merged parameters -/

namespace ParameterSpec

/-- What becomes of the parameters `own` of an operation and `ofPath` of its path. -/
structure Merges (own ofPath merged : List ParameterSpec) : Prop where
  firsts : merged = unpreceded place (own ++ ofPath)
  distinct : merged.Pairwise fun p q => ¬ (p.name = q.name ∧ p.location = q.location)
  covers : ∀ p ∈ own ++ ofPath, ∃ q ∈ merged, q.name = p.name ∧ q.location = p.location
  /-- Where the operation has a parameter, its first one there counts. -/
  hides : ∀ p ∈ own, ∀ q ∈ merged, q.name = p.name → q.location = p.location → own.find? p.samePlace = some q

variable {own ofPath ps : List ParameterSpec} {p q : ParameterSpec}

theorem place_eq_iff : p.place = q.place ↔ p.name = q.name ∧ p.location = q.location := Prod.ext_iff

/-- What is kept is the first at its place. -/
theorem find?_of_mem_firstByKey (h : q ∈ firstByKey place ps) (hplace : q.place = p.place) :
    ps.find? p.samePlace = some q := by
  obtain ⟨front, back, hps, hfront⟩ := exists_split_of_mem_firstByKeyFrom h
  refine List.find?_eq_some_iff_append.mpr ⟨samePlace_iff.mpr hplace.symm, front, back, hps, ?_⟩
  intro r hr
  have hne : p.place ≠ r.place := fun he => hfront r hr (he.symm.trans hplace.symm)
  simpa using mt samePlace_iff.mp hne

theorem merges_firstByKey (own ofPath : List ParameterSpec) :
    Merges own ofPath (firstByKey place (own ++ ofPath)) where
  firsts := firstByKey_eq_unpreceded place (own ++ ofPath)
  distinct := pairwise_firstByKeyFrom.imp fun hne hsame => hne (place_eq_iff.mpr hsame)
  covers := by
    intro p hp
    have hkept : p.place ∈ (firstByKey place (own ++ ofPath)).map place :=
      mem_keys_firstByKeyFrom.mpr ⟨List.not_mem_nil, List.mem_map_of_mem hp⟩
    obtain ⟨q, hq, hplace⟩ := List.mem_map.mp hkept
    exact ⟨q, hq, place_eq_iff.mp hplace⟩
  hides := by
    intro p hp q hq hname hlocation
    have hfirst := find?_of_mem_firstByKey hq (place_eq_iff.mpr ⟨hname, hlocation⟩)
    have hsome : (own.find? p.samePlace).isSome := List.find?_isSome.mpr ⟨p, hp, samePlace_iff.mpr rfl⟩
    rwa [List.find?_append, Option.or_of_isSome hsome] at hfirst

end ParameterSpec

/-- Merging keeps the first parameter of every name and location among those that resolve, with the
    operation's own before those of the path, and reports every reference that does not resolve. -/
theorem mergeParameters_firsts (doc : Document) (operationId : String) (own ofPath : List (RefOr ParameterSpec)) :
    ParameterSpec.Merges (doc.parametersIn own) (doc.parametersIn ofPath)
        (mergeParameters doc operationId own ofPath).1 ∧
      (mergeParameters doc operationId own ofPath).2 =
        (doc.danglingIn (own ++ ofPath)).map (.unresolvedParameter operationId) := by
  rw [mergeParameters_eq]
  exact ⟨ParameterSpec.merges_firstByKey _ _, rfl⟩

/-- A merged parameter stands in one of the lists, or it is the component of a reference that does. -/
theorem source_of_mem_mergeParameters {own ofPath : List (RefOr ParameterSpec)} {p : ParameterSpec}
    (h : p ∈ (mergeParameters doc operationId own ofPath).1) :
    .item p ∈ own ++ ofPath ∨ ∃ key, .ref (parameterRefStart ++ key) ∈ own ++ ofPath ∧
      KeyMap.get? doc.components.parameters key = some p := by
  rw [mergeParameters_eq, ← Document.parametersIn_append] at h
  exact Document.mem_parametersIn.mp (mem_of_mem_firstByKeyFrom h)

theorem unresolvedParameter_injective (operationId : String) :
    Function.Injective (Diagnostic.unresolvedParameter operationId) := by
  intro a b h
  have hmessage := congrArg Diagnostic.message h
  simpa only [Diagnostic.unresolvedParameter, String.append_left_inj, String.append_right_inj] using hmessage

/-- Exactly the references are reported that no parameter component has the key of. -/
theorem unresolved_mem_mergeParameters_iff {own ofPath : List (RefOr ParameterSpec)} {target : String} :
    .unresolvedParameter operationId target ∈ (mergeParameters doc operationId own ofPath).2 ↔
      .ref target ∈ own ++ ofPath ∧
        ∀ key, target = parameterRefStart ++ key → key ∉ doc.components.parameters.keys := by
  rw [mergeParameters_eq, ← Document.mem_danglingIn]
  exact List.mem_map_of_injective (unresolvedParameter_injective operationId)

end ClientGen

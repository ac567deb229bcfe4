import ClientGen.Proofs.Parameters.Arguments

/-
  ClientGen.Proofs.Parameters.Identifiers — which placeholders share an identifier.

  An argument is named by the camel form of its placeholder, and its identifier is made of the
  camel form of that name. A form that begins no identifier has a `p` in front, and one that is
  reserved an underscore behind. Camel forms have no underscore, so the last step keeps names
  apart (`argumentName_eq_iff`), and no argument is called like the context, the query or the body
  (`argumentName_not_mem_reserved`). But there are names with one camel form, camel forms among them.
  - So the arguments of a method are declared under distinct identifiers exactly when no two of
    their names fall together like that (`signature_nodup_iff`).
  - Placeholders with one camel form share an argument as well (`identifiers_distinct_iff`).
-/

namespace ClientGen

open Go

/-! ## Identifiers -/

/-- An identifier before it gives way to a reserved one. -/
def Go.begunName (name : String) : String :=
  if startsIdentifier (Name.camel name) then Name.camel name else "p" ++ Name.camel name

/-- Two names have one camel form, or that of one is the other's with the letter in front that it needs. -/
def Merge (a b : String) : Prop :=
  Name.camel a = Name.camel b ∨
    (startsIdentifier (Name.camel a) = false ∧ Name.camel b = "p" ++ Name.camel a) ∨
    (startsIdentifier (Name.camel b) = false ∧ Name.camel a = "p" ++ Name.camel b)

instance (a b : String) : Decidable (Merge a b) := inferInstanceAs (Decidable (_ ∨ _))

variable {a b : String}

theorem argumentName_eq (name : String) :
    argumentName name = if reserved.contains (begunName name) then begunName name ++ "_" else begunName name := rfl

theorem startsIdentifier_guarded (s : String) : startsIdentifier ("p" ++ s) = true := by
  have hletter : Unicode.isAlphabetic 'p' = true := by decide
  simp [startsIdentifier, hletter]

theorem lacks_begunName (name : String) : Lacks '_' (begunName name) := by
  have hcamel : Lacks '_' (Name.camel name) := Name.lacks_camel (by decide) name
  unfold begunName
  split
  · exact hcamel
  · exact Lacks.append (by simp [Lacks]) hcamel

theorem begunName_ne_append (a b : String) : begunName a ≠ begunName b ++ "_" := by
  intro h
  have hlacks := lacks_begunName a
  rw [h] at hlacks
  exact hlacks (by simp)

theorem begunName_eq_iff : begunName a = begunName b ↔ Merge a b := by
  have hstarts := startsIdentifier_guarded
  unfold begunName Merge
  by_cases ha : startsIdentifier (Name.camel a) = true
  · by_cases hb : startsIdentifier (Name.camel b) = true
    · simp [ha, hb]
    · have hne : Name.camel a ≠ Name.camel b := fun h => hb (h ▸ ha)
      simp [ha, hb, hne]
  · by_cases hb : startsIdentifier (Name.camel b) = true
    · have hne : Name.camel a ≠ Name.camel b := fun h => ha (h ▸ hb)
      simp [ha, hb, hne, eq_comm]
    · have hleft : Name.camel b ≠ "p" ++ Name.camel a := fun h => hb (h ▸ hstarts _)
      have hright : Name.camel a ≠ "p" ++ Name.camel b := fun h => ha (h ▸ hstarts _)
      simp [ha, hb, hleft, hright]

/-- What keeps an identifier apart from the reserved ones keeps it apart from the others too. -/
theorem argumentName_eq_iff : argumentName a = argumentName b ↔ Merge a b := by
  rw [← begunName_eq_iff, argumentName_eq, argumentName_eq]
  by_cases ha : reserved.contains (begunName a) = true
  · by_cases hb : reserved.contains (begunName b) = true
    · rw [if_pos ha, if_pos hb, String.append_left_inj]
    · rw [if_pos ha, if_neg hb]
      constructor
      · intro h
        exact absurd h.symm (begunName_ne_append b a)
      · intro h
        rw [h] at ha
        exact absurd ha hb
  · by_cases hb : reserved.contains (begunName b) = true
    · rw [if_neg ha, if_pos hb]
      constructor
      · intro h
        exact absurd h (begunName_ne_append a b)
      · intro h
        rw [h] at ha
        exact absurd hb ha
    · rw [if_neg ha, if_neg hb]

/-- No argument is called like what the bodies of methods use. -/
theorem argumentName_not_mem_reserved (name : String) : argumentName name ∉ reserved := by
  have hlast : ∀ word ∈ reserved, word.toList.getLast? ≠ some '_' := by decide
  rw [argumentName_eq]
  by_cases hreserved : reserved.contains (begunName name) = true
  · rw [if_pos hreserved]
    intro hmem
    exact hlast _ hmem (by simp)
  · rw [if_neg hreserved]
    simpa using hreserved

/-! ## Signatures -/

/-- The identifiers that a method is declared with, that of the context first. -/
def Go.signature (x : Method) : List String := "ctx" :: (arguments x).map (·.1)

/-- Behind the path parameters stand the query and the body, if there are any. -/
theorem names_arguments (x : Method) :
    ∃ others, (arguments x).map (·.1) = (x.pathParams.map (·.name)).map argumentName ++ others ∧
      others.Sublist ["params", "body"] := by
  have hquery : (x.queryParams.toList.map fun _ => "params").Sublist ["params"] := by
    cases x.queryParams <;> simp
  cases hbody : x.body with
  | some a =>
    refine ⟨_, ?_, hquery.append (List.Sublist.refl ["body"])⟩
    simp [arguments, hbody, Function.comp_def]
  | none =>
    by_cases hhas : x.hasBody = true
    · refine ⟨_, ?_, hquery.append (List.Sublist.refl ["body"])⟩
      simp [arguments, hbody, hhas, Function.comp_def]
    · refine ⟨_, ?_, hquery.append (List.nil_sublist ["body"])⟩
      simp [arguments, hbody, hhas, Function.comp_def]

/-- The identifiers of a signature are distinct unless those of two path parameters are the same. -/
theorem signature_nodup_iff {x : Method} (hnames : (x.pathParams.map (·.name)).Nodup) :
    (signature x).Nodup ↔
      ∀ a ∈ x.pathParams.map (·.name), ∀ b ∈ x.pathParams.map (·.name), a ≠ b → ¬ Merge a b := by
  obtain ⟨others, hothers, hsub⟩ := names_arguments x
  have hreserved : ∀ word ∈ "ctx" :: others, word ∈ reserved := by
    have hall : ∀ word ∈ ["ctx", "params", "body"], word ∈ reserved := by decide
    intro word hword
    exact hall word ((hsub.cons_cons "ctx").mem hword)
  have hfree : ∀ word ∈ "ctx" :: others, word ∉ (x.pathParams.map (·.name)).map argumentName := by
    intro word hword hmem
    obtain ⟨name, -, rfl⟩ := List.mem_map.mp hmem
    exact argumentName_not_mem_reserved name (hreserved _ hword)
  have hfixed : ("ctx" :: others).Nodup := (hsub.cons_cons "ctx").nodup (by decide)
  have hpaths : (signature x).Nodup ↔ ((x.pathParams.map (·.name)).map argumentName).Nodup := by
    rw [signature, hothers, ← List.perm_middle.nodup_iff, List.nodup_append]
    constructor
    · intro h
      exact h.1
    · intro h
      refine ⟨h, hfixed, ?_⟩
      intro name hname word hword heq
      exact hfree word hword (heq ▸ hname)
  rw [hpaths, List.nodup_map_iff_inj_on hnames]
  simp only [argumentName_eq_iff]
  constructor
  · intro h a ha b hb hne hmerge
    exact hne (h a ha b hb hmerge)
  · intro h a ha b hb hmerge
    by_contra hne
    exact h a ha b hb hne hmerge

/-! ## Mapped operations -/

/-- The identifier that the path of a method passes on for a placeholder. -/
def Go.identifierOf (placeholder : String) : String := argumentName (Name.camel placeholder)

theorem passedTo_placeholders (model : ApiModel) (x : Method) :
    Source.passedTo "pathParam" (method model x).path = x.path.placeholders.map identifierOf := by
  have hpassed : Source.passedTo "pathParam" (method model x).path = x.path.parameters.map argumentName :=
    passedTo_pathExpression x.path
  simp [hpassed, x.path.parameters_eq, Function.comp_def, identifierOf]

open Resolve

/-- The placeholders of a mapped operation have identifiers of their own, and the signature repeats
    none, exactly when no two of them merge; for the signature alone those with one camel form do
    not count. -/
theorem identifiers_distinct_iff {doc : Document} {fuel : Nat} {httpMethod : HttpMethod} {path : String}
    {op : Operation} {ofPath : List (RefOr ParameterSpec)} {s s' : Session} {m : MappedOperation}
    (h : Runs (mapOperation doc fuel httpMethod path op ofPath) s m s') (model : ApiModel) :
    Source.passedTo "pathParam" (method model m.method).path = m.method.path.placeholders.map identifierOf ∧
    ((∀ p ∈ m.method.path.placeholders, ∀ q ∈ m.method.path.placeholders, p ≠ q → identifierOf p ≠ identifierOf q) ∧
        (signature m.method).Nodup ↔
      ∀ p ∈ m.method.path.placeholders, ∀ q ∈ m.method.path.placeholders, p ≠ q →
        ¬ Merge (Name.camel p) (Name.camel q)) ∧
    ((signature m.method).Nodup ↔
      ∀ p ∈ m.method.path.placeholders, ∀ q ∈ m.method.path.placeholders, Name.camel p ≠ Name.camel q →
        ¬ Merge (Name.camel p) (Name.camel q)) := by
  obtain ⟨_, _, _, _, -, -, -, -, hparams, -, -, -, -, htemplate⟩ := runs_mapOperation h
  have hnames : m.method.pathParams.map (·.name) = firstByKey id (m.method.path.placeholders.map Name.camel) := by
    rw [hparams, htemplate, names_pathArgumentsFrom, firstByKey]
  have hsignature : (signature m.method).Nodup ↔
      ∀ p ∈ m.method.path.placeholders, ∀ q ∈ m.method.path.placeholders, Name.camel p ≠ Name.camel q →
        ¬ Merge (Name.camel p) (Name.camel q) := by
    have hnodup : (m.method.pathParams.map (·.name)).Nodup := hnames ▸ pairwise_firstByKeyFrom
    rw [signature_nodup_iff hnodup, hnames]
    simp only [mem_firstByKey_id, List.forall_mem_map]
  have hdistinct : ∀ p q, identifierOf p ≠ identifierOf q ↔ ¬ Merge (Name.camel p) (Name.camel q) := by
    intro p q
    rw [identifierOf, identifierOf, ne_eq, argumentName_eq_iff]
  refine ⟨passedTo_placeholders model m.method, ?_, hsignature⟩
  simp only [hsignature, hdistinct]
  constructor
  · intro hboth
    exact hboth.1
  · intro hall
    refine ⟨hall, ?_⟩
    intro p hp q hq hne
    exact hall p hp q hq fun heq => hne (congrArg Name.camel heq)

/-- Placeholders with an underscore, with the name of a keyword and with a digit in front. -/
def guardedPath : String := "/users/\x7buser_id\x7d/\x7btype\x7d/\x7b2fa\x7d"

/-- Two placeholders whose camel forms differ, but not the camel forms of these. -/
def mergedPath : String := "/items/\x7ba_b_c\x7d/\x7ba_bc\x7d"

def plainOperation : Operation := ⟨[], none, none, some "f", [], none, [], false, []⟩

theorem identifiers_distinct_iff_guarded :
    ∃ m s', Runs (mapOperation emptyDocument 1 .get guardedPath plainOperation []) .start m s' ∧
      signature m.method = ["ctx", "userId", "type_", "p2fa"] ∧
      ∀ p ∈ m.method.path.placeholders, ∀ q ∈ m.method.path.placeholders, p ≠ q → identifierOf p ≠ identifierOf q := by
  have hpasses : passes (mapOperation emptyDocument 1 .get guardedPath plainOperation []) .start (fun m _ =>
      decide (signature m.method = ["ctx", "userId", "type_", "p2fa"] ∧
        m.method.path.placeholders = ["user_id", "type", "2fa"])) = true := by decide +kernel
  obtain ⟨m, s', h, htest⟩ := exists_runs_of_passes hpasses
  obtain ⟨hsignature, hplaceholders⟩ := of_decide_eq_true htest
  refine ⟨m, s', h, hsignature, ((identifiers_distinct_iff h plainModel).2.1.mpr ?_).1⟩
  rw [hplaceholders]
  decide +kernel

/-- The names of the arguments are distinct, and their identifiers are the same. -/
theorem two_arguments_one_identifier :
    ∃ m s', Runs (mapOperation emptyDocument 1 .get mergedPath plainOperation []) .start m s' ∧
      m.method.pathParams.map (·.name) = ["aBC", "aBc"] ∧
      Source.passedTo "pathParam" (method plainModel m.method).path = ["aBc", "aBc"] ∧
      signature m.method = ["ctx", "aBc", "aBc"] ∧ ¬ (signature m.method).Nodup := by
  have hpasses : passes (mapOperation emptyDocument 1 .get mergedPath plainOperation []) .start (fun m _ =>
      decide (m.method.pathParams.map (·.name) = ["aBC", "aBc"] ∧
        Source.passedTo "pathParam" (method plainModel m.method).path = ["aBc", "aBc"] ∧
        signature m.method = ["ctx", "aBc", "aBc"])) = true := by decide +kernel
  obtain ⟨m, s', h, htest⟩ := exists_runs_of_passes hpasses
  obtain ⟨hnames, hpassed, hsignature⟩ := of_decide_eq_true htest
  exact ⟨m, s', h, hnames, hpassed, hsignature, by rw [hsignature]; decide⟩

end ClientGen

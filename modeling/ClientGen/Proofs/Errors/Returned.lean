import Mathlib
import ClientGen.Go.Package
import ClientGen.Proofs.Errors.Marked
import ClientGen.Proofs.Query.Encoded

/-
  ClientGen.Proofs.Errors.Returned — which values of declared types are returned as errors.

  A case of a method returns a value of a declared type when its response is an error and the
  declaration of its type is marked as one (`Go.returned`); every other case returns the general
  API error, the result or nothing (`Go.lines_of_mem_cases`).
  Every marked declaration has an `Error` method, with two exceptions: the calendar helpers `Date`
  and `Time`, which are declared before everything else (`helpers_eq`) and are written without one
  even when they are marked (`Go.error?_isSome`). A value of a calendar helper is returned where an
  error response has its type. So what is returned has an `Error` method exactly when no error
  response has one of these two types (`returned_errors_iff`). The same holds of the lines that the
  cases end with (`cases_endWell_iff`).
-/

namespace ClientGen

namespace Go

/-- The `Error` method of a declaration, if it has one. -/
def GoDeclaration.error? : GoDeclaration → Option ErrorMethod
  | .struct _ _ _ error => error
  | .aliasOf _ _ _ error => error
  | .enumeration .. => none
  | .sum _ _ _ _ error => error
  | .calendar .. => none
  | .queryEncoder .. => none

/-! ## What cases return -/

/-- The responses that are answered with an error: those that are one and do not hold the result. -/
def failures (m : Method) : List Response :=
  (m.responses.zipIdx.filter fun (r, i) =>
    m.responses.findIdx? (isPrimary m) != some i && !r.isUnexpected && r.isError).map (·.1)

/-- The declarations of which a case of the method returns a value as its error. -/
def returned (model : ApiModel) (m : Method) : List Declaration := (failures m).filterMap (errorDeclaration? model)

theorem mem_failures {m : Method} {r : Response} :
    r ∈ failures m ↔ ∃ i, (r, i) ∈ m.responses.zipIdx ∧ m.responses.findIdx? (isPrimary m) ≠ some i ∧
      r.isUnexpected = false ∧ r.isError = true := by
  constructor
  · intro h
    obtain ⟨⟨_, i⟩, hin, rfl⟩ := List.mem_map.mp h
    simp only [List.mem_filter, Bool.and_eq_true, bne_iff_ne, Bool.not_eq_true', and_assoc] at hin
    exact ⟨i, hin⟩
  · intro h
    obtain ⟨i, hr, hprimary, hexpected, herror⟩ := h
    refine List.mem_map.mpr ⟨(r, i), List.mem_filter.mpr ⟨hr, ?_⟩, rfl⟩
    simp [hprimary, hexpected, herror]

theorem mem_of_mem_failures {m : Method} {r : Response} (h : r ∈ failures m) : r ∈ m.responses ∧ r.isError = true := by
  obtain ⟨i, hr, -, -, herror⟩ := mem_failures.mp h
  exact ⟨List.fst_mem_of_mem_zipIdx hr, herror⟩

/-- The lines that return a value of a declared type, by how much of the body they read. -/
theorem errorLines_cases (zero : String) (d : Declaration) :
    errorLines zero d = ["return " ++ zero ++ "&" ++ d.name ++ "\x7b\x7d"] ∨
      errorLines zero d = ["e := " ++ d.name ++ "(resp.Body)", "return " ++ zero ++ "&e"] ∨
      errorLines zero d = decodeLines "e" d.name zero ("return " ++ zero ++ "&e") := by
  unfold errorLines
  split
  · exact .inl rfl
  · exact .inr (.inl rfl)
  · exact .inr (.inr rfl)

/-- Reading the error ends with returning it. -/
theorem getLast?_errorLines (zero : String) (d : Declaration) :
    (errorLines zero d).getLast? = some ("return " ++ zero ++ "&e") ∨
      (errorLines zero d).getLast? = some ("return " ++ zero ++ "&" ++ d.name ++ "\x7b\x7d") := by
  rcases errorLines_cases zero d with h | h | h
  · exact .inr (h ▸ rfl)
  · exact .inl (h ▸ rfl)
  · exact .inl (h ▸ rfl)

/-- A case returns what its response declares, or else ends with the result, without an error or
    with the general one. -/
theorem lines_of_mem_cases {model : ApiModel} {m : Method} {zero : String} {c : Case} (h : c ∈ cases model m zero) :
    (∃ d ∈ returned model m, c.lines = errorLines zero d) ∨ c.lines.getLast? = some "return &out, nil" ∨
      c.lines.getLast? = some ("return " ++ zero ++ "nil") ∨ c.lines.getLast? = some (apiError zero) := by
  obtain ⟨⟨r, i⟩, hr, rfl⟩ := List.mem_map.mp h
  dsimp only
  unfold caseLines
  split
  · exact .inr (.inl rfl)
  · rename_i hprimary
    split
    · exact .inr (.inr (.inr rfl))
    · rename_i hexpected
      split
      · exact .inr (.inr (.inl rfl))
      · rename_i herror
        have hfails : r ∈ failures m :=
          mem_failures.mpr ⟨i, hr, by simpa using hprimary, by simpa using hexpected, by simpa using herror⟩
        cases hd : errorDeclaration? model r with
        | none => exact .inr (.inr (.inr rfl))
        | some d => exact .inl ⟨d, List.mem_filterMap.mpr ⟨r, hfails, hd⟩, rfl⟩

theorem exists_case_of_returned {model : ApiModel} {m : Method} {d : Declaration} (h : d ∈ returned model m)
    (zero : String) : ∃ c ∈ cases model m zero, c.lines = errorLines zero d := by
  obtain ⟨r, hr, hd⟩ := List.mem_filterMap.mp h
  obtain ⟨i, hr, hprimary, hexpected, herror⟩ := mem_failures.mp hr
  refine ⟨_, List.mem_map_of_mem hr, ?_⟩
  simp [caseLines, hprimary, hexpected, herror, hd]

/-! ## How cases end -/

/-- The last two characters of a line. -/
def ending (line : String) : List Char := line.toList.reverse.take 2

theorem ending_append (before : String) {after : String} (h : 2 ≤ after.toList.length) :
    ending (before ++ after) = ending after := by
  rw [ending, String.toList_append, List.reverse_append, List.take_append_of_le_length (by simpa using h), ending]

theorem ending_errorLines (zero : String) (d : Declaration) :
    ∃ last, (errorLines zero d).getLast? = some last ∧ ending last ∈ [['e', '&'], ['\x7d', '\x7b']] := by
  rcases getLast?_errorLines zero d with hlast | hlast
  · refine ⟨_, hlast, ?_⟩
    rw [ending_append _ (by decide)]
    decide
  · refine ⟨_, hlast, ?_⟩
    rw [ending_append _ (by decide)]
    decide

/-- A value of a declared type is returned in other words than what every method can return. -/
theorem getLast?_errorLines_ne (zero : String) (d : Declaration) :
    (errorLines zero d).getLast? ≠ some "return &out, nil" ∧
      (errorLines zero d).getLast? ≠ some ("return " ++ zero ++ "nil") ∧
      (errorLines zero d).getLast? ≠ some (apiError zero) := by
  obtain ⟨last, hlast, hending⟩ := ending_errorLines zero d
  have hother {line : String} (h : ending line ∉ [['e', '&'], ['\x7d', '\x7b']]) : some last ≠ some line := by
    intro heq
    exact h (Option.some.inj heq ▸ hending)
  rw [hlast]
  refine ⟨hother (by decide), hother ?_, hother ?_⟩
  · rw [ending_append _ (by decide)]
    decide
  · rw [apiError, ending_append _ (by decide)]
    decide

/-- The lines that return a value name its type. -/
theorem name_eq_of_errorLines {zero : String} {d d' : Declaration} (h : errorLines zero d = errorLines zero d') :
    d.name = d'.name := by
  have hlength := congrArg List.length h
  rcases errorLines_cases zero d with hd | hd | hd <;> rcases errorLines_cases zero d' with hd' | hd' | hd' <;>
    rw [hd, hd'] at h hlength <;> simp [decodeLines] at h hlength
  · exact h
  · exact h
  · exact h

/-! ## What declarations have -/

/-- Whether a declaration is written as a calendar type. -/
def isCalendar : Declaration → Bool
  | .type ⟨name, .aliasOf .date, _, _⟩ => name == "Date"
  | .type ⟨name, .aliasOf .time, _, _⟩ => name == "Time"
  | _ => false

theorem isSome_errorMethod (isError payloadless : Bool) (message : String) :
    (errorMethod isError payloadless message).isSome = isError := by
  cases isError <;> rfl

/-- Calendar types are the only ones that are written without the `Error` method of an error. -/
theorem error?_isSome (model : ApiModel) (d : Declaration) :
    (declaration model d).error?.isSome = (d.isError && !isCalendar d) := by
  cases d with
  | type d =>
    obtain ⟨name, repr, documentation, isError⟩ := d
    show (typeDeclaration ⟨name, repr, documentation, isError⟩).error?.isSome = _
    cases repr with
    | aliasOf target =>
      cases target with
      | date =>
        by_cases hname : name = "Date"
        · simp [typeDeclaration, typeForm, isCalendar, hname, GoDeclaration.error?]
        · simp [typeDeclaration, typeForm, isCalendar, hname, GoDeclaration.error?, isSome_errorMethod,
            Declaration.isError]
      | time =>
        by_cases hname : name = "Time"
        · simp [typeDeclaration, typeForm, isCalendar, hname, GoDeclaration.error?]
        · simp [typeDeclaration, typeForm, isCalendar, hname, GoDeclaration.error?, isSome_errorMethod,
            Declaration.isError]
      | _ =>
        simp [typeDeclaration, typeForm, isCalendar, GoDeclaration.error?, isSome_errorMethod, Declaration.isError]
    | _ => simp [typeDeclaration, typeForm, isCalendar, GoDeclaration.error?, isSome_errorMethod, Declaration.isError]
  | sum d => simp [declaration, sumDeclaration, GoDeclaration.error?, isSome_errorMethod, isCalendar, Declaration.isError]
  | _ => rfl

end Go

/-! ## The calendar helpers of a model -/

namespace Resolve

variable {doc : Document} {fuel : Nat}

/-- Nothing is declared before the calendar helpers, so their names are free. -/
theorem helpers_eq (p : Phases doc fuel) : p.helpers = calendarHelpers.map .type := by
  have hrun : Runs (declareAll calendarHelpers) .start (calendarHelpers.map .type)
      (recorded (claimed (recorded (claimed .start "Date" none) (.type (.aliasOf "Date" .date
        (some "Date is a calendar date without time, encoded as YYYY-MM-DD.")))) "Time" none)
        (.type (.aliasOf "Time" .time (some "Time is a time of day without date, encoded as HH:MM:SS.")))) := by
    rfl
  exact (EStateM.Result.ok.inj (p.runsHelpers.symm.trans hrun)).1

end Resolve

namespace ApiModel

/-- The calendar helpers are among the declarations, marked or not. -/
structure HasHelpers (m : ApiModel) : Prop where
  date : ∃ documentation isError, .type ⟨"Date", .aliasOf .date, documentation, isError⟩ ∈ m.declarations
  time : ∃ documentation isError, .type ⟨"Time", .aliasOf .time, documentation, isError⟩ ∈ m.declarations

end ApiModel

open Resolve in
theorem hasHelpers_of_buildModel {doc : Document} {fuel : Nat} {config : Config} {model : ApiModel} {s' : Session}
    (h : Runs (buildModel doc config fuel) .start model s') : model.HasHelpers := by
  obtain ⟨p, -, hgroupings, hshared, -⟩ := runs_buildModel h
  have hmem : ∀ d ∈ calendarHelpers, ∃ isError, .type { d with isError := isError } ∈ model.declarations := by
    intro d hd
    rw [p.marked hgroupings hshared]
    refine type_mem_markErrors (List.mem_append_right _ ?_)
    rw [Phases.shared, helpers_eq]
    exact List.mem_append_left _ (List.mem_append_left _ (List.mem_map_of_mem hd))
  obtain ⟨isError, hdate⟩ := hmem _ (List.mem_cons_self)
  obtain ⟨isError', htime⟩ := hmem _ (List.mem_cons_of_mem _ List.mem_cons_self)
  exact ⟨⟨_, isError, hdate⟩, ⟨_, isError', htime⟩⟩

/-- The names of the helpers are taken, so these are the calendar types of a model. -/
theorem ApiModel.HasHelpers.isCalendar_iff {m : ApiModel} (h : m.HasHelpers)
    (hnodup : (declaredNames m.declarations).Nodup) {d : Declaration} (hd : d ∈ m.declarations)
    (hplain : d.isEncoder = false) : Go.isCalendar d = true ↔ d.name = "Date" ∨ d.name = "Time" := by
  constructor
  · intro hcalendar
    unfold Go.isCalendar at hcalendar
    split at hcalendar
    · exact .inl (beq_iff_eq.mp hcalendar)
    · exact .inr (beq_iff_eq.mp hcalendar)
    · cases hcalendar
  · intro hname
    rcases hname with hname | hname
    · obtain ⟨documentation, isError, hdate⟩ := h.date
      rw [eq_of_declared_name hnodup hd hdate hplain rfl hname]
      rfl
    · obtain ⟨documentation, isError, htime⟩ := h.time
      rw [eq_of_declared_name hnodup hd htime hplain rfl hname]
      rfl

/-! ## Errors of a build -/

namespace Resolve

variable {doc : Document} {fuel : Nat} {config : Config} {model : ApiModel} {s' : Session}

/-- What an error response has as its type is an error, if it can be one. -/
theorem isError_of_errorRoot (h : Runs (buildModel doc config fuel) .start model s') {d : Declaration}
    (hd : d ∈ model.declarations) (hcan : d.canFail = true) (hroot : model.ErrorRoot d.name) : d.isError = true := by
  obtain ⟨p, -, hgroupings, hshared, -⟩ := runs_buildModel h
  rw [p.marked hgroupings hshared] at hd
  refine (isError_of_mem_markErrors (fun _ => p.unmarked) hd).mpr ⟨hcan, ?_⟩
  rw [Phases.errors, mem_followErrors]
  exact ⟨d.name, (mem_errorTypes_iff p hgroupings).mpr hroot, .refl⟩

/-- A value of a calendar helper is returned where an error response has its type. -/
theorem helper_mem_returned (h : Runs (buildModel doc config fuel) .start model s') {m : Method}
    (hm : m ∈ model.methods) {r : Response} (hr : r ∈ Go.failures m) {d : TypeDecl} (hd : .type d ∈ model.declarations)
    (htype : r.type = some (.named d.name)) : .type d ∈ Go.returned model m := by
  have hnodup := (declaredNames_model h).2
  obtain ⟨hgroups, hshared⟩ := model_follows h
  have hlookup := declaration?_of_mem hnodup ((EncodersFollow.flatMap hgroups).append hshared) hd
  have hname : r.type.bind TypeRef.declaredName? = some d.name := by
    rw [htype]
    rfl
  obtain ⟨hmem, hfails⟩ := Go.mem_of_mem_failures hr
  have herror : (Declaration.type d).isError = true := isError_of_errorRoot h hd rfl ⟨m, hm, r, hmem, hfails, hname⟩
  refine List.mem_filterMap.mpr ⟨r, hr, ?_⟩
  rw [Go.errorDeclaration?, hname, Option.bind_some, hlookup, Option.filter_some, if_pos herror]

theorem isEncoder_of_isError {d : Declaration} (h : d.isError = true) : d.isEncoder = false := by
  cases d with
  | queryEncoder e => cases h
  | _ => rfl

theorem isSome_error?_iff (h : Runs (buildModel doc config fuel) .start model s') {d : Declaration}
    (hd : d ∈ model.declarations) :
    (Go.declaration model d).error?.isSome = true ↔ d.isError = true ∧ d.name ≠ "Date" ∧ d.name ≠ "Time" := by
  rw [Go.error?_isSome, Bool.and_eq_true]
  refine and_congr_right ?_
  intro herror
  rw [Bool.not_eq_true', ← Bool.not_eq_true, (hasHelpers_of_buildModel h).isCalendar_iff (declaredNames_model h).2 hd
    (isEncoder_of_isError herror), not_or]

/-- What is returned without an `Error` method is a calendar helper, as the type of an error response. -/
theorem isSome_error?_of_mem_returned (h : Runs (buildModel doc config fuel) .start model s') {m : Method}
    (htypes : ∀ r ∈ Go.failures m, r.type ≠ some (.named "Date") ∧ r.type ≠ some (.named "Time")) {d : Declaration}
    (hreturned : d ∈ Go.returned model m) :
    d ∈ model.declarations ∧ (Go.declaration model d).error?.isSome = true := by
  obtain ⟨r, hr, hd⟩ := List.mem_filterMap.mp hreturned
  obtain ⟨hlookup, herror⟩ := Option.filter_eq_some_iff.mp hd
  obtain ⟨name, hname, hfind⟩ := Option.bind_eq_some_iff.mp hlookup
  obtain ⟨t, ht, hdeclared⟩ := Option.bind_eq_some_iff.mp hname
  have hfound : model.declarations.find? (·.name = name) = some d := hfind
  have hnamed : d.name = name := of_decide_eq_true (List.find?_some hfound :)
  have htype : r.type = some (.named name) := by
    cases t with
    | named n =>
      cases hdeclared
      exact ht
    | _ => cases hdeclared
  have hmem := List.mem_of_find?_eq_some hfound
  obtain ⟨hdate, htime⟩ := htypes r hr
  refine ⟨hmem, (isSome_error?_iff h hmem).mpr ⟨herror, ?_, ?_⟩⟩
  · intro heq
    exact hdate (by rw [htype, ← hnamed, heq])
  · intro heq
    exact htime (by rw [htype, ← hnamed, heq])

/-- Where an error response has the type of a calendar helper, that is returned, and has no `Error` method. -/
theorem exists_helper_mem_returned (h : Runs (buildModel doc config fuel) .start model s') {m : Method}
    (hm : m ∈ model.methods) {r : Response} (hr : r ∈ Go.failures m)
    (htype : r.type = some (.named "Date") ∨ r.type = some (.named "Time")) :
    ∃ d ∈ Go.returned model m, d ∈ model.declarations ∧ d.isEncoder = false ∧
      (Go.declaration model d).error?.isSome = false := by
  have hhelpers := hasHelpers_of_buildModel h
  rcases htype with htype | htype
  · obtain ⟨documentation, isError, hdate⟩ := hhelpers.date
    exact ⟨_, helper_mem_returned h hm hr hdate htype, hdate, rfl, rfl⟩
  · obtain ⟨documentation, isError, htime⟩ := hhelpers.time
    exact ⟨_, helper_mem_returned h hm hr htime htype, htime, rfl, rfl⟩

end Resolve

open Resolve in
/-- Declarations have an `Error` method when they are marked as errors, except for `Date` and `Time`.
    So every value of a declared type that is returned as an error has one exactly when no response
    that is answered with an error has one of these types. -/
theorem returned_errors_iff {doc : Document} {fuel : Nat} {config : Config} {model : ApiModel} {ds : List Diagnostic}
    (h : build fuel doc config = .ok (model, ds)) :
    (∀ d ∈ model.declarations,
        ((Go.declaration model d).error?.isSome = true ↔ d.isError = true ∧ d.name ≠ "Date" ∧ d.name ≠ "Time")) ∧
      ((∀ m ∈ model.methods, ∀ d ∈ Go.returned model m, (Go.declaration model d).error?.isSome = true) ↔
        ∀ m ∈ model.methods, ∀ r ∈ Go.failures m,
          r.type ≠ some (.named "Date") ∧ r.type ≠ some (.named "Time")) := by
  obtain ⟨s', hrun, -⟩ := runs_of_build h
  refine ⟨fun d hd => isSome_error?_iff hrun hd, ?_, ?_⟩
  · intro hreturned m hm r hr
    rw [Ne, Ne, ← not_or]
    intro htype
    obtain ⟨d, hd, -, -, hnone⟩ := exists_helper_mem_returned hrun hm hr htype
    rw [hreturned m hm d hd] at hnone
    cases hnone
  · intro htypes m hm d hreturned
    exact (isSome_error?_of_mem_returned hrun (htypes m hm) hreturned).2

/-- An operation with one error response, of the type of the component `name`. -/
def oneError (name : String) (component : Schema) : Document :=
  { openapi := "3.0.0", info := ⟨"t", "1", none⟩, servers := [], tags := []
    paths := [("/a", ⟨none, none, none, [(.get, ⟨[], none, none, some "f", [], none,
      [("400", .item ⟨none, [("application/json",
        ⟨some { Schema.blank with reference := some ("#/components/schemas/" ++ name) }⟩)]⟩)], false, []⟩)], []⟩)]
    components := ⟨[(name, component)], [], [], []⟩ }

def anObject : Schema := { Schema.blank with
  properties := some [("v", { Schema.blank with type := some (.single "string") })] }

def aDate : Schema := { Schema.blank with type := some (.single "string"), format := some "date" }

theorem returned_errors_iff_object : ∃ model ds, build 4 (oneError "P" anObject) ⟨"p", "P"⟩ = .ok (model, ds) ∧
    (model.methods.flatMap (Go.returned model)).map (·.name) = ["P"] ∧
    (∀ d ∈ model.declarations,
      ((Go.declaration model d).error?.isSome = true ↔ d.isError = true ∧ d.name ≠ "Date" ∧ d.name ≠ "Time")) ∧
    ((∀ m ∈ model.methods, ∀ d ∈ Go.returned model m, (Go.declaration model d).error?.isSome = true) ↔
      ∀ m ∈ model.methods, ∀ r ∈ Go.failures m,
        r.type ≠ some (.named "Date") ∧ r.type ≠ some (.named "Time")) := by
  obtain ⟨model, ds, hbuild, htest⟩ := @Resolve.exists_build_of_passes (oneError "P" anObject) 4 ⟨"p", "P"⟩
    (fun model _ => (model.methods.flatMap (Go.returned model)).map (·.name) = ["P"]) (by cbv)
  exact ⟨model, ds, hbuild, of_decide_eq_true htest, returned_errors_iff hbuild⟩

/-- An error response with the type of a component that is called like the helper and stands for a date. -/
theorem date_returned_without_error : ∃ model ds, build 4 (oneError "Date" aDate) ⟨"p", "P"⟩ = .ok (model, ds) ∧
    ∃ m ∈ model.methods, ∃ d ∈ Go.returned model m, (Go.declaration model d).error? = none := by
  obtain ⟨model, ds, hbuild, htest⟩ := @Resolve.exists_build_of_passes (oneError "Date" aDate) 4 ⟨"p", "P"⟩
    (fun model _ => model.methods.any fun m =>
      (Go.returned model m).any fun d => (Go.declaration model d).error? = none) (by cbv)
  simp only [List.any_eq_true, decide_eq_true_eq] at htest
  exact ⟨model, ds, hbuild, htest⟩

/-- How a case may end: with the result, without an error, with the general error, or with a value of a
    declaration that has an `Error` method. -/
inductive Go.EndsWell (model : ApiModel) (zero : String) (lines : List String) : Prop
  | result (h : lines.getLast? = some "return &out, nil")
  | nothing (h : lines.getLast? = some ("return " ++ zero ++ "nil"))
  | general (h : lines.getLast? = some (Go.apiError zero))
  | declared {d : Declaration} (hd : d ∈ model.declarations) (h : lines = Go.errorLines zero d)
      (herror : (Go.declaration model d).error?.isSome = true)

open Resolve in
/-- The same of the lines that are generated: they end well in every case of every method exactly when
    no response that is answered with an error has one of the two types. -/
theorem cases_endWell_iff {doc : Document} {fuel : Nat} {config : Config} {model : ApiModel} {ds : List Diagnostic}
    (h : build fuel doc config = .ok (model, ds)) :
    (∀ m ∈ model.methods, ∀ c ∈ (Go.method model m).cases, Go.EndsWell model (Go.zeroText m) c.lines) ↔
      ∀ m ∈ model.methods, ∀ r ∈ Go.failures m, r.type ≠ some (.named "Date") ∧ r.type ≠ some (.named "Time") := by
  obtain ⟨s', hrun, -⟩ := runs_of_build h
  constructor
  · intro hends m hm r hr
    rw [Ne, Ne, ← not_or]
    intro htype
    obtain ⟨d, hreturned, hd, hplain, hnone⟩ := exists_helper_mem_returned hrun hm hr htype
    obtain ⟨c, hc, hlines⟩ := Go.exists_case_of_returned hreturned (Go.zeroText m)
    obtain ⟨hresult, hnothing, hgeneral⟩ := Go.getLast?_errorLines_ne (Go.zeroText m) d
    have hend := hends m hm c hc
    rw [hlines] at hend
    cases hend with
    | result hlast => exact hresult hlast
    | nothing hlast => exact hnothing hlast
    | general hlast => exact hgeneral hlast
    | @declared d' hd' hsame herror =>
      have hplain' := isEncoder_of_isError ((isSome_error?_iff hrun hd').mp herror).1
      obtain rfl := eq_of_declared_name (declaredNames_model hrun).2 hd hd' hplain hplain' (Go.name_eq_of_errorLines hsame)
      rw [hnone] at herror
      cases herror
  · intro htypes m hm c hc
    rcases Go.lines_of_mem_cases hc with ⟨d, hreturned, hlines⟩ | hresult | hnothing | hgeneral
    · obtain ⟨hd, herror⟩ := isSome_error?_of_mem_returned hrun (htypes m hm) hreturned
      exact .declared hd hlines herror
    · exact .result hresult
    · exact .nothing hnothing
    · exact .general hgeneral

end ClientGen

import ClientGen.Proofs.Response.Dispatch

/-
  ClientGen.Proofs.Response.Arrangement — the responses of a method, one by one.

  Every response key of an operation gives one response, with the status of the key
  (`responses_declared`). Where the method has them, they stand in the order of their codes, and
  a default stands at the end: the declared one, or else one that is added
  (`arrange_defaultLast`). The result of the method is the type of the first success in that
  order (`method_responses`).
-/

namespace ClientGen

/-- What an operation declares under a response key, and the response that its method has for it. -/
structure DeclaredResponse where
  key : String
  declared : RefOr ResponseSpec
  response : Response

namespace DeclaredResponse

/-- The response is declared, and its key decides its status and with it its place. -/
structure OfKey (d : DeclaredResponse) : Prop where
  status : Status.parse? d.key = some d.response.status
  keyed : Keyed d.response
  isUnexpected : d.response.isUnexpected = false

def declaresJson (doc : Document) (d : DeclaredResponse) : Bool :=
  ((doc.response? d.declared).bind (·.jsonSchema?)).isSome

/-- Whether the method answers with the type of this response. -/
def isResult (doc : Document) (d : DeclaredResponse) : Bool :=
  !d.response.isDefault && 200 ≤ d.response.sortKey && d.response.sortKey < 300 && d.declaresJson doc

def mapped (doc : Document) (d : DeclaredResponse) : MappedResponse := ⟨d.response, d.declaresJson doc⟩

theorem OfKey.isDefault_iff {d : DeclaredResponse} (h : d.OfKey) : d.response.isDefault = true ↔ d.key = "default" := by
  rw [h.keyed.isDefault, beq_iff_eq, ← Status.parse_default_iff, h.status, Option.some.injEq]

end DeclaredResponse

/-- The only default comes last, behind the others in the order of their sort keys. -/
def DefaultLast (responses : List Response) : Prop :=
  ∃ front last, responses = front ++ [last] ∧ last.isDefault = true ∧ (∀ r ∈ front, r.isDefault = false) ∧
    front.Pairwise fun a b => a.sortKey ≤ b.sortKey

/-- What a method has in addition to the declared responses. -/
def addedResponses (op : Operation) : List Response :=
  if "default" ∈ op.responses.keys then [] else [MappedResponse.unexpected.response]

/-! ## Arranging -/

namespace MappedResponse

/-- At most one of the two is a default. -/
def NotBothDefault (a b : MappedResponse) : Prop := ¬ (a.response.isDefault = true ∧ b.response.isDefault = true)

/-- In a list in order a single default is at the end. -/
theorem defaultLast_of_ordered {ms : List MappedResponse} (hle : ms.Pairwise fun a b => le a b = true)
    (hone : ms.Pairwise NotBothDefault) (hdefault : ∃ m ∈ ms, m.response.isDefault = true) :
    DefaultLast (ms.map (·.response)) := by
  induction ms with
  | nil =>
    obtain ⟨m, hm, -⟩ := hdefault
    cases hm
  | cons a rest ih =>
    obtain ⟨ha, hle⟩ := List.pairwise_cons.mp hle
    obtain ⟨haone, hone⟩ := List.pairwise_cons.mp hone
    by_cases hd : a.response.isDefault = true
    · -- what comes after a default is a default too, so nothing does
      have hrest : rest = [] := by
        apply List.eq_nil_iff_forall_not_mem.mpr
        intro b hb
        have hnot : b.response.isDefault = false := by
          simpa [NotBothDefault, hd] using haone b hb
        have hab := ha b hb
        simp [le, hd, hnot] at hab
      subst hrest
      refine ⟨[], a.response, rfl, hd, ?_, .nil⟩
      intro r hr
      cases hr
    · have hd : a.response.isDefault = false := Bool.eq_false_iff.mpr hd
      have hlater : ∃ m ∈ rest, m.response.isDefault = true := by
        obtain ⟨m, hm, hm'⟩ := hdefault
        rcases List.mem_cons.mp hm with rfl | hm
        · rw [hd] at hm'
          cases hm'
        · exact ⟨m, hm, hm'⟩
      obtain ⟨front, last, hsplit, hlast, hfront, hsorted⟩ := ih hle hone hlater
      refine ⟨a.response :: front, last, ?_, hlast, ?_, ?_⟩
      · rw [List.map_cons, hsplit, List.cons_append]
      · intro r hr
        rcases List.mem_cons.mp hr with rfl | hr
        · exact hd
        · exact hfront r hr
      · refine List.pairwise_cons.mpr ⟨?_, hsorted⟩
        intro r hr
        have hmem : r ∈ rest.map (·.response) := by
          rw [hsplit]
          exact List.mem_append_left _ hr
        obtain ⟨b, hb, rfl⟩ := List.mem_map.mp hmem
        exact (le_of_sortKey hd (hfront _ hr)).mp (ha b hb)

/-- Arranging puts the declared default last, or adds one. -/
theorem arrange_eq (ms : List MappedResponse) :
    arrange ms = sortBy le ms ++ if ms.any (·.response.isDefault) then [] else [unexpected] := by
  have hany : (sortBy le ms).any (·.response.isDefault) = ms.any (·.response.isDefault) :=
    (sortBy_perm le ms).any_eq
  simp only [arrange, hany]
  split
  · rw [List.append_nil]
  · rfl

theorem arrange_defaultLast {ms : List MappedResponse} (hone : ms.Pairwise NotBothDefault) :
    DefaultLast ((arrange ms).map (·.response)) := by
  have hany : ms.Pairwise fun _ _ => True := List.pairwise_of_forall fun _ _ => trivial
  have hle : (arrange ms).Pairwise fun a b => le a b = true := (arrange_pairwise hany fun _ => trivial).imp fun h => h.1
  have hsorted : (sortBy le ms).Pairwise NotBothDefault :=
    hone.perm (sortBy_perm le ms).symm fun hab hba => hab hba.symm
  rw [arrange_eq] at hle ⊢
  split at hle
  · rename_i hany
    obtain ⟨m, hm, hd⟩ := List.any_eq_true.mp hany
    rw [if_pos hany, List.append_nil] at *
    exact defaultLast_of_ordered hle hsorted ⟨m, (sortBy_perm le ms).mem_iff.mpr hm, hd⟩
  · rename_i hnone
    rw [if_neg hnone]
    refine defaultLast_of_ordered hle ?_ ⟨unexpected, by simp, rfl⟩
    refine List.pairwise_append.mpr ⟨hsorted, List.pairwise_singleton _ _, ?_⟩
    intro a ha b _ hboth
    exact hnone (List.any_eq_true.mpr ⟨a, (sortBy_perm le ms).mem_iff.mp ha, hboth.1⟩)

end MappedResponse

namespace Resolve

variable {doc : Document} {fuel : Nat} {s s' : Session}

/-- Every key gives one response, in the order of the keys. Its text decides whether that is an error. -/
theorem responses_classified {operationId operationName : String} {rs : List (String × RefOr ResponseSpec)}
    {ms : List MappedResponse} {ds : List Declaration}
    (h : Runs (responses doc fuel operationId operationName rs) s (ms, ds) s') :
    ∃ entries : List DeclaredResponse, entries.map (fun d => (d.key, d.declared)) = rs ∧
      entries.map (·.mapped doc) = ms ∧
      ∀ d ∈ entries, d.OfKey ∧ d.response.isError = (d.key.toList.head? != some '2') := by
  induction rs generalizing s ms ds with
  | nil =>
    simp only [responses, runs_pure, Prod.mk.injEq] at h
    obtain ⟨⟨rfl, -⟩, -⟩ := h
    exact ⟨[], rfl, rfl, by simp⟩
  | cons e rest ih =>
    obtain ⟨m, own, t, more, moreDs, hone, hrest, rfl, -⟩ := runs_responses_cons h
    obtain ⟨status, hkey, -, rfl, hsort, hdefault, herror, hunexpected, hjson⟩ := runs_response hone
    obtain ⟨entries, rfl, rfl, hentries⟩ := ih hrest
    refine ⟨⟨e.1, e.2, m.response⟩ :: entries, rfl, ?_, ?_⟩
    · rw [List.map_cons, DeclaredResponse.mapped, DeclaredResponse.declaresJson, ← hjson]
    · intro d hd
      rcases List.mem_cons.mp hd with rfl | hd
      · exact ⟨⟨hkey, ⟨hsort, hdefault, fun n hn => Status.range_mod (hn ▸ hkey)⟩, hunexpected⟩, herror⟩
      · exact hentries d hd

theorem responses_declared {operationId operationName : String} {rs : List (String × RefOr ResponseSpec)}
    {ms : List MappedResponse} {ds : List Declaration}
    (h : Runs (responses doc fuel operationId operationName rs) s (ms, ds) s') :
    ∃ entries : List DeclaredResponse, entries.map (fun d => (d.key, d.declared)) = rs ∧
      entries.map (·.mapped doc) = ms ∧ ∀ d ∈ entries, d.OfKey := by
  obtain ⟨entries, hdeclared, hmapped, hentries⟩ := responses_classified h
  exact ⟨entries, hdeclared, hmapped, fun d hd => (hentries d hd).1⟩

end Resolve

namespace DeclaredResponse

variable {doc : Document} {op : Operation} {declared : List DeclaredResponse}

/-- Declared responses in the order in which a method has them. -/
def arranged (doc : Document) (declared : List DeclaredResponse) : List DeclaredResponse :=
  sortBy (fun a b => MappedResponse.le (a.mapped doc) (b.mapped doc)) declared

theorem any_isDefault_iff (hdeclared : declared.map (fun d => (d.key, d.declared)) = op.responses)
    (hofKey : ∀ d ∈ declared, d.OfKey) :
    (declared.map (·.mapped doc)).any (·.response.isDefault) = true ↔ "default" ∈ op.responses.keys := by
  have hkeys : op.responses.keys = declared.map (·.key) := by
    rw [KeyMap.keys, ← hdeclared, List.map_map]
    rfl
  rw [hkeys, List.any_map, List.any_eq_true, List.mem_map]
  constructor
  · rintro ⟨d, hd, hdefault⟩
    exact ⟨d, hd, (hofKey d hd).isDefault_iff.mp hdefault⟩
  · rintro ⟨d, hd, hkey⟩
    exact ⟨d, hd, (hofKey d hd).isDefault_iff.mpr hkey⟩

/-- Only one key is that of the default. -/
theorem pairwise_notBothDefault (hkeys : op.responses.keys.Nodup)
    (hdeclared : declared.map (fun d => (d.key, d.declared)) = op.responses) (hofKey : ∀ d ∈ declared, d.OfKey) :
    (declared.map (·.mapped doc)).Pairwise MappedResponse.NotBothDefault := by
  rw [KeyMap.keys, ← hdeclared, List.map_map, List.Nodup, List.pairwise_map] at hkeys
  refine List.pairwise_map.mpr (hkeys.imp_of_mem ?_)
  intro a b ha hb hne hboth
  have hkeyA := (hofKey a ha).isDefault_iff.mp hboth.1
  have hkeyB := (hofKey b hb).isDefault_iff.mp hboth.2
  exact hne (hkeyA.trans hkeyB.symm)

theorem arrange_map (hdeclared : declared.map (fun d => (d.key, d.declared)) = op.responses)
    (hofKey : ∀ d ∈ declared, d.OfKey) :
    MappedResponse.arrange (declared.map (·.mapped doc)) = (arranged doc declared).map (·.mapped doc) ++
      if "default" ∈ op.responses.keys then [] else [MappedResponse.unexpected] := by
  rw [MappedResponse.arrange_eq, sortBy_map, arranged]
  congr 1
  exact if_congr (any_isDefault_iff hdeclared hofKey) rfl rfl

/-- The responses of a method: the declared ones in order, and the one that is added. -/
theorem responses_arrange (hdeclared : declared.map (fun d => (d.key, d.declared)) = op.responses)
    (hofKey : ∀ d ∈ declared, d.OfKey) :
    (MappedResponse.arrange (declared.map (·.mapped doc))).map (·.response) =
      (arranged doc declared).map (·.response) ++ addedResponses op := by
  rw [arrange_map hdeclared hofKey, List.map_append, List.map_map, addedResponses]
  congr 1
  split <;> rfl

end DeclaredResponse

open Resolve in
/-- A method has one response for every response key of its operation, in the order of their codes,
    and one default at the end, which is added where the operation declares none. Its result is the
    type of the first success that declares a JSON schema. -/
theorem method_responses {doc : Document} {fuel : Nat} {s s' : Session} {httpMethod : HttpMethod} {path : String}
    {op : Operation} {ofPath : List (RefOr ParameterSpec)} {m : MappedOperation} (hkeys : op.responses.keys.Nodup)
    (h : Runs (mapOperation doc fuel httpMethod path op ofPath) s m s') :
    ∃ entries : List DeclaredResponse,
      (entries.map fun d => (d.key, d.declared)).Perm op.responses ∧ (∀ d ∈ entries, d.OfKey) ∧
      m.method.responses = entries.map (·.response) ++ addedResponses op ∧ DefaultLast m.method.responses ∧
      m.method.responseType = (entries.find? (·.isResult doc)).bind (·.response.type) := by
  obtain ⟨_, _, _, ms, -, -, -, hr, -, hresponses, htype, -⟩ := runs_mapOperation h
  obtain ⟨declared, hdeclared, rfl, hofKey⟩ := responses_declared hr
  have harrange : MappedResponse.arrange (declared.map (·.mapped doc)) = _ :=
    DeclaredResponse.arrange_map hdeclared hofKey
  have hperm : (DeclaredResponse.arranged doc declared).Perm declared := sortBy_perm _ _
  refine ⟨DeclaredResponse.arranged doc declared, ?_, ?_, ?_, ?_, ?_⟩
  · rw [← hdeclared]
    exact hperm.map _
  · intro d hd
    exact hofKey d (hperm.mem_iff.mp hd)
  · rw [hresponses, DeclaredResponse.responses_arrange hdeclared hofKey]
  · rw [hresponses]
    exact MappedResponse.arrange_defaultLast (DeclaredResponse.pairwise_notBothDefault hkeys hdeclared hofKey)
  · have hadded : (if "default" ∈ op.responses.keys then [] else [MappedResponse.unexpected]).find?
        MappedResponse.isSuccess = none := by
      split <;> rfl
    rw [htype, harrange, MappedResponse.resultType?, List.find?_append, hadded, Option.or_none, List.find?_map,
      Option.bind_map]
    rfl

/-- Declares no default; of its successes only the second has a type. -/
def twoSuccesses : Operation :=
  ⟨[], none, none, some "f", [], none,
    [("200", .item ⟨none, []⟩),
      ("2XX", .item ⟨none, [("application/json", ⟨some { Schema.blank with type := some (.single "string") }⟩)]⟩),
      ("404", .item ⟨none, []⟩)], false, []⟩

/-- What its method answers: the untyped success before the typed one, and a default that is added. -/
def twoSuccessesResponses : List Response :=
  [⟨.code 200, 200, false, false, false, none, "200"⟩,
    ⟨.range 200, 200, false, false, false, some (.named "F2XXResponse"), "2XX"⟩,
    ⟨.code 404, 404, true, false, false, none, "404"⟩, ⟨.default, 0, false, true, true, none, ""⟩]

open Resolve in
theorem method_responses_twoSuccesses :
    twoSuccesses.responses.keys.Nodup ∧
      ∃ m s', Runs (mapOperation emptyDocument 2 .get "/a" twoSuccesses []) .start m s' ∧
        m.method.responses = twoSuccessesResponses ∧ m.method.responseType = some (.named "F2XXResponse") ∧
        ∃ entries : List DeclaredResponse,
          (entries.map fun d => (d.key, d.declared)).Perm twoSuccesses.responses ∧ (∀ d ∈ entries, d.OfKey) ∧
          m.method.responses = entries.map (·.response) ++ addedResponses twoSuccesses ∧
          DefaultLast m.method.responses ∧
          m.method.responseType = (entries.find? (·.isResult emptyDocument)).bind (·.response.type) := by
  have hkeys : twoSuccesses.responses.keys.Nodup := by decide
  have hpasses : passes (mapOperation emptyDocument 2 .get "/a" twoSuccesses []) .start (fun m _ =>
      decide (m.method.responses = twoSuccessesResponses ∧ m.method.responseType = some (.named "F2XXResponse"))) =
      true := by
    decide +kernel
  obtain ⟨m, s', h, hpass⟩ := exists_runs_of_passes hpasses
  obtain ⟨hresponses, htype⟩ := of_decide_eq_true hpass
  exact ⟨hkeys, m, s', h, hresponses, htype, method_responses hkeys h⟩

end ClientGen

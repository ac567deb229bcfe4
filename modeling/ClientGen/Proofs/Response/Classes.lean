import ClientGen.Proofs.Response.Arrangement
import ClientGen.Proofs.Response.Spelling

/-
  ClientGen.Proofs.Response.Classes — which responses are errors, and which are successes.

  A response is a success by its status, the number that its key is read as, and an error by the
  text of its key, which does not begin with a 2. The two are opposites for every key that is
  spelled as a status is. A code that is padded is an error whatever its number, so a success with
  a plus sign or zeros in front is both (`response_isError_iff`): the method answers with its type,
  and the type counts as an error.
-/

namespace ClientGen

namespace Status

/-- A code from 200 to 299, or the range of these. -/
def Success : Status → Prop
  | .code n => 200 ≤ n ∧ n ≤ 299
  | .range n => n = 200
  | .default => False

variable {key : String} {st : Status}

theorem head_toDigits {n : Nat} (hlow : 100 ≤ n) (hhigh : n ≤ 599) :
    (Nat.toDigits 10 n).head? = some (Nat.digitChar (n / 100)) := by
  rw [Nat.toDigits_of_base_le (by decide) (by omega), Nat.toDigits_of_base_le (by decide) (by omega),
    Nat.toDigits_of_lt_base (by omega), Nat.div_div_eq_div_mul]
  rfl

/-- A spelling begins with a 2 exactly if it is that of a success. -/
theorem Spells.head_iff (h : Spells key st) : key.toList.head? = some '2' ↔ st.Success := by
  cases h with
  | default => simp [Success]
  | @code n hlow hhigh =>
    rw [Nat.toString_eq_repr, Nat.toList_repr, head_toDigits hlow hhigh, Option.some.injEq, Nat.digitChar_eq_two,
      Success]
    omega
  | @range d a b hlow hhigh _ _ =>
    rw [String.toList_append, Nat.toString_eq_repr, Nat.toList_repr, Nat.toDigits_of_lt_base (by omega),
      List.singleton_append, List.head?_cons, Option.some.injEq, Nat.digitChar_eq_two, Success]
    omega

theorem Padded.head_ne (h : Padded key) : key.toList.head? ≠ some '2' := by
  obtain ⟨signed, zeros, n, hpad, -, -, rfl⟩ := h
  rw [toList_padded, padding]
  cases signed with
  | true => simp
  | false =>
    obtain ⟨more, rfl⟩ : ∃ more, zeros = more + 1 := ⟨zeros - 1, by simp at hpad; omega⟩
    simp [List.replicate_succ]

/-- A key that is read begins with a 2 exactly if it is that of a success and not padded. -/
theorem head_iff (h : parse? key = some st) : key.toList.head? = some '2' ↔ st.Success ∧ ¬ Padded key := by
  by_cases hpadded : Padded key
  · constructor
    · intro hhead
      exact absurd hhead hpadded.head_ne
    · rintro ⟨-, hnot⟩
      exact absurd hpadded hnot
  · rw [((parse_eq_some_iff hpadded).mp h).head_iff]
    exact (and_iff_left hpadded).symm

theorem success_iff (h : parse? key = some st) : st.Success ↔ st ≠ .default ∧ 200 ≤ st.sortKey ∧ st.sortKey < 300 := by
  cases st with
  | default => simp [Success]
  | code n =>
    simp only [Success, sortKey, ne_eq, reduceCtorEq, not_false_eq_true, true_and]
    omega
  | range n =>
    -- a range starts at a whole hundred
    have hmod : n % 100 = 0 := range_mod h
    simp only [Success, sortKey, ne_eq, reduceCtorEq, not_false_eq_true, true_and]
    omega

end Status

/-- What can be the result of a method is a success. -/
theorem DeclaredResponse.success_of_isResult {doc : Document} {d : DeclaredResponse} (h : d.OfKey)
    (hresult : d.isResult doc = true) : d.response.status.Success := by
  rw [isResult, h.keyed.isDefault, h.keyed.sortKey] at hresult
  simp only [Bool.and_eq_true, Bool.not_eq_true', beq_eq_false_iff_ne, decide_eq_true_eq] at hresult
  obtain ⟨⟨⟨hdefault, hlow⟩, hhigh⟩, -⟩ := hresult
  exact (Status.success_iff h.status).mpr ⟨hdefault, hlow, hhigh⟩

open Resolve

/-- Among the responses of an operation errors are those that are no success, but for a padded
    success: it is an error too. So what can be the result of the method is an error exactly if it
    is padded. -/
theorem response_isError_iff {doc : Document} {fuel : Nat} {s s' : Session} {httpMethod : HttpMethod} {path : String}
    {op : Operation} {ofPath : List (RefOr ParameterSpec)} {m : MappedOperation}
    (h : Runs (mapOperation doc fuel httpMethod path op ofPath) s m s') :
    ∃ entries : List DeclaredResponse,
      (entries.map fun d => (d.key, d.declared)).Perm op.responses ∧
      m.method.responses = entries.map (·.response) ++ addedResponses op ∧
      ∀ d ∈ entries, Status.parse? d.key = some d.response.status ∧
        ((d.response.isError = true ↔ ¬ d.response.status.Success) ↔
          ¬ (d.response.status.Success ∧ Status.Padded d.key)) ∧
        (d.isResult doc = true → (d.response.isError = true ↔ Status.Padded d.key)) := by
  obtain ⟨_, _, _, ms, -, -, -, hr, -, hresponses, -⟩ := runs_mapOperation h
  obtain ⟨declared, hdeclared, rfl, hkeyed⟩ := responses_classified hr
  have hperm : (DeclaredResponse.arranged doc declared).Perm declared := sortBy_perm _ _
  refine ⟨DeclaredResponse.arranged doc declared, ?_, ?_, ?_⟩
  · rw [← hdeclared]
    exact hperm.map _
  · rw [hresponses, DeclaredResponse.responses_arrange hdeclared fun d hd => (hkeyed d hd).1]
  · intro d hd
    obtain ⟨hofKey, herror⟩ := hkeyed d (hperm.mem_iff.mp hd)
    have hhead := Status.head_iff hofKey.status
    have hisError : d.response.isError = true ↔ ¬ (d.response.status.Success ∧ ¬ Status.Padded d.key) := by
      rw [herror, bne_iff_ne, ne_eq, hhead]
    refine ⟨hofKey.status, ?_, ?_⟩
    · rw [hisError]
      by_cases hsuccess : d.response.status.Success <;> simp [hsuccess]
    · intro hresult
      have hsuccess := DeclaredResponse.success_of_isResult hofKey hresult
      simp [hisError, hsuccess]

/-- The success is spelled with a plus sign, and has a type. -/
def signedSuccess : Operation :=
  ⟨[], none, none, some "f", [], none,
    [("+200", .item ⟨some "ok",
        [("application/json", ⟨some { Schema.blank with reference := some "#/components/schemas/Pet" }⟩)]⟩),
      ("404", .item ⟨some "missing", []⟩)], false, []⟩

def petOnly : Document :=
  { emptyDocument with components := ⟨[("Pet", { Schema.blank with type := some (.single "object") })], [], [], []⟩ }

theorem response_isError_iff_signedSuccess :
    ∃ m s', Runs (mapOperation petOnly 1 .get "/a" signedSuccess []) .start m s' ∧
      m.method.responses.map (fun r => (r.status, r.isError)) =
        [(.code 200, true), (.code 404, true), (.default, false)] ∧
      ∃ entries : List DeclaredResponse,
        (entries.map fun d => (d.key, d.declared)).Perm signedSuccess.responses ∧
        m.method.responses = entries.map (·.response) ++ addedResponses signedSuccess ∧
        ∀ d ∈ entries, Status.parse? d.key = some d.response.status ∧
          ((d.response.isError = true ↔ ¬ d.response.status.Success) ↔
            ¬ (d.response.status.Success ∧ Status.Padded d.key)) ∧
          (d.isResult petOnly = true → (d.response.isError = true ↔ Status.Padded d.key)) := by
  have hpasses : passes (mapOperation petOnly 1 .get "/a" signedSuccess []) .start (fun m _ =>
      m.method.responses.map (fun r => (r.status, r.isError)) =
        [(.code 200, true), (.code 404, true), (.default, false)]) = true := by
    decide +kernel
  obtain ⟨m, s', h, hpass⟩ := exists_runs_of_passes hpasses
  exact ⟨m, s', h, of_decide_eq_true hpass, response_isError_iff h⟩

/-- The response for `+200` has the code 200 and is an error, and its type is the result of the method. -/
theorem signed_success_is_error :
    ∃ m s', Runs (mapOperation petOnly 1 .get "/a" signedSuccess []) .start m s' ∧
      ∃ r ∈ m.method.responses, r.status = .code 200 ∧ r.status.Success ∧ r.isError = true ∧
        m.method.responseType = r.type ∧ m.errorTypes = ["Pet"] := by
  have hpasses : passes (mapOperation petOnly 1 .get "/a" signedSuccess []) .start (fun m _ =>
      m.method.responses.any (fun r => decide (r.status = .code 200 ∧ r.isError = true ∧
        m.method.responseType = r.type ∧ m.errorTypes = ["Pet"]))) = true := by
    decide +kernel
  obtain ⟨m, s', h, htest⟩ := exists_runs_of_passes hpasses
  obtain ⟨r, hr, htest⟩ := List.any_eq_true.mp htest
  obtain ⟨hstatus, herror, htype, herrors⟩ := of_decide_eq_true htest
  refine ⟨m, s', h, r, hr, hstatus, ?_, herror, htype, herrors⟩
  rw [hstatus]
  exact ⟨by decide, by decide⟩

end ClientGen

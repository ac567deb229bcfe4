import ClientGen.Proofs.Grouping.Methods
import ClientGen.Proofs.Response.Switch

/-
  ClientGen.Proofs.Response.Dispatch — which response a generated method takes for a status code.

  The response to take for a code is that of the code itself, or else that of its range, or else
  the default (`preferred`). Cases stand in the order of their sort keys, and a range sorts with
  its first code:
  - a code that starts its range comes before the range (`code_lt_range`, and sorting is stable),
    so it is taken.
  - any other code comes after its range, so the range is taken for it (`firstCovering_of_shadowed`).
  Hence the preferred response is taken exactly when no range shadows the code
  (`taken_eq_preferred_iff`); `codeInsideRange` is an operation where one does. In a document that is
  read the keys are in order, so that holds of all methods of its client (`taken_of_build`).
-/

namespace ClientGen

namespace Status

/-- Whether the key is a range around `s`. -/
def rangeOver : Status → Nat → Bool
  | .range n, s => n ≤ s && s < n + 100
  | _, _ => false

theorem rangeOver_iff {st : Status} {s : Nat} : st.rangeOver s = true ↔ ∃ n, st = .range n ∧ n ≤ s ∧ s < n + 100 := by
  constructor
  · intro h
    cases st with
    | range n =>
      simp only [rangeOver, Bool.and_eq_true, decide_eq_true_eq] at h
      exact ⟨n, rfl, h⟩
    | code n => cases h
    | default => cases h
  · rintro ⟨n, rfl, hlow, hhigh⟩
    simp only [rangeOver, hlow, hhigh, decide_true, Bool.and_self]

theorem names_eq (st : Status) (s : Nat) : st.names s = (decide (st = .code s) || st.rangeOver s) := by
  cases st with
  | code n =>
    simp only [names, rangeOver, Bool.or_false, Status.code.injEq]
    exact decide_eq_decide.mpr eq_comm
  | range n => simp [names, rangeOver]
  | default => simp [names, rangeOver]

end Status

/-! ## Where a response stands -/

def ownIndex (responses : List Response) (s : Nat) : Option Nat := responses.findIdx? (·.status = .code s)

def rangeIndex (responses : List Response) (s : Nat) : Option Nat := responses.findIdx? (·.status.rangeOver s)

def defaultIndex (responses : List Response) : Option Nat := responses.findIdx? (·.status = .default)

/-- The number of the response to take for a code: its own, that of a range around it, or the default. -/
def preferred (responses : List Response) (s : Nat) : Option Nat :=
  (ownIndex responses s).or ((rangeIndex responses s).or (defaultIndex responses))

/-- A response is not that of a code and that of a range. -/
theorem ownIndex_ne_rangeIndex {responses : List Response} {s i : Nat} (h : ownIndex responses s = some i) :
    rangeIndex responses s ≠ some i := by
  intro hrange
  obtain ⟨_, hst, -⟩ := List.findIdx?_eq_some_iff_getElem.mp h
  obtain ⟨_, hover, -⟩ := List.findIdx?_eq_some_iff_getElem.mp hrange
  have hcode := of_decide_eq_true hst
  rw [hcode] at hover
  cases hover

/-- An operation has a response under a key of this status. -/
def Operation.Declares (op : Operation) (st : Status) : Prop := ∃ key ∈ op.responses.keys, Status.parse? key = some st

/-- A code and the range around it both have a response, and the range starts before the code. -/
structure Operation.Shadowed (op : Operation) (s : Nat) : Prop where
  code : op.Declares (.code s)
  range : op.Declares (.range (s / 100 * 100))
  inside : s % 100 ≠ 0

/-! ## Searching for one of two -/

section Search

variable {α : Type} {p q : α → Bool}

theorem map_succ_or (a b : Option Nat) : (a.map (· + 1)).or (b.map (· + 1)) = (a.or b).map (· + 1) := by
  cases a <;> rfl

/-- Where nothing of the second kind stands before one of the first, the first kind is found first. -/
theorem findIdx?_or {items : List α} (h : items.Pairwise fun a b => ¬ (q a = true ∧ p b = true)) :
    (items.findIdx? fun a => p a || q a) = (items.findIdx? p).or (items.findIdx? q) := by
  induction items with
  | nil => rfl
  | cons a rest ih =>
    obtain ⟨ha, hrest⟩ := List.pairwise_cons.mp h
    simp only [List.findIdx?_cons]
    by_cases hp : p a = true
    · simp [hp]
    · by_cases hq : q a = true
      · have hnone : rest.findIdx? p = none := List.findIdx?_eq_none_iff.mpr fun b hb => by
          simpa [hq] using ha b hb
        simp [hp, hq, hnone]
      · simp [hp, hq, ih hrest, map_succ_or]

end Search

/-! ## The order of responses -/

/-- What is kept of the key of a response. -/
structure Keyed (r : Response) : Prop where
  sortKey : r.sortKey = r.status.sortKey
  isDefault : r.isDefault = (r.status == .default)
  range : ∀ n, r.status = .range n → n % 100 = 0

/-- The first does not have the range that starts at the code of the second. -/
def NotRangeBefore (a b : MappedResponse) : Prop :=
  ∀ n, ¬ (a.response.status = .range n ∧ b.response.status = .code n)

namespace MappedResponse

theorem le_total (a b : MappedResponse) : le a b = true ∨ le b a = true := by
  unfold le
  cases a.response.isDefault <;> cases b.response.isDefault <;> simp <;> omega

theorem le_trans (a b c : MappedResponse) (h : le a b = true) (h' : le b c = true) : le a c = true := by
  unfold le at *
  revert h h'
  cases a.response.isDefault <;> cases b.response.isDefault <;> cases c.response.isDefault <;> simp <;> omega

theorem le_of_sortKey {a b : MappedResponse} (ha : a.response.isDefault = false) (hb : b.response.isDefault = false) :
    le a b = true ↔ a.response.sortKey ≤ b.response.sortKey := by simp [le, ha, hb]

/-- An arranged list is sorted, and ties stand as in the list that was arranged. -/
theorem arrange_pairwise {earlier : MappedResponse → MappedResponse → Prop} {ms : List MappedResponse}
    (h : ms.Pairwise earlier) (hlast : ∀ m, earlier m unexpected) : (arrange ms).Pairwise (Precedes le earlier) := by
  have hsorted := sortBy_stable le_total le_trans h
  simp only [arrange]
  split
  · exact hsorted
  · rename_i hnone
    refine List.pairwise_append.mpr ⟨hsorted, List.pairwise_singleton _ _, fun a ha b hb => ?_⟩
    rw [List.mem_singleton.mp hb]
    have hfalse : a.response.isDefault = false := by
      cases hd : a.response.isDefault with
      | false => rfl
      | true => exact absurd (List.any_eq_true.mpr ⟨a, ha, hd⟩) hnone
    refine ⟨?_, fun _ => hlast a⟩
    simp [le, hfalse, unexpected]

theorem arrange_ordered {ms : List MappedResponse} (h : ms.Pairwise NotRangeBefore) :
    (arrange ms).Pairwise (Precedes le NotRangeBefore) := by
  refine arrange_pairwise h fun m n hn => ?_
  cases hn.2

theorem mem_arrange {m : MappedResponse} {ms : List MappedResponse} :
    m ∈ arrange ms → m ∈ ms ∨ m = unexpected := by
  intro h
  simp only [arrange] at h
  split at h
  · exact .inl ((sortBy_perm le ms).mem_iff.mp h)
  · rcases List.mem_append.mp h with h | h
    · exact .inl ((sortBy_perm le ms).mem_iff.mp h)
    · exact .inr (List.mem_singleton.mp h)

theorem mem_arrange_of_mem {m : MappedResponse} {ms : List MappedResponse} (h : m ∈ ms) : m ∈ arrange ms := by
  have := (sortBy_perm le ms).mem_iff.mpr h
  simp only [arrange]
  split
  · exact this
  · exact List.mem_append_left _ this

/-- There is a default. -/
theorem exists_default {ms : List MappedResponse} (hk : ∀ m ∈ ms, Keyed m.response) :
    ∃ m ∈ arrange ms, m.response.status = .default := by
  by_cases hany : (sortBy le ms).any (·.response.isDefault) = true
  · obtain ⟨m, hm, hd⟩ := List.any_eq_true.mp hany
    have hin := (sortBy_perm le ms).mem_iff.mp hm
    rw [(hk m hin).isDefault, beq_iff_eq] at hd
    exact ⟨m, mem_arrange_of_mem hin, hd⟩
  · refine ⟨unexpected, ?_, rfl⟩
    simp only [arrange, hany]
    exact List.mem_append_right _ List.mem_cons_self

end MappedResponse

namespace Resolve

variable {doc : Document} {fuel : Nat} {s s' : Session}

theorem responses_keyed {operationId operationName : String} {rs : List (String × RefOr ResponseSpec)}
    {ms : List MappedResponse} {ds : List Declaration}
    (h : Runs (responses doc fuel operationId operationName rs) s (ms, ds) s') :
    rs.map (fun e => Status.parse? e.1) = ms.map (fun m => some m.response.status) ∧ ∀ m ∈ ms, Keyed m.response := by
  induction rs generalizing s ms ds with
  | nil =>
    simp only [responses, runs_pure, Prod.mk.injEq] at h
    obtain ⟨⟨rfl, rfl⟩, rfl⟩ := h
    exact ⟨rfl, by simp⟩
  | cons e rest ih =>
    obtain ⟨m, own, t, more, moreDs, hone, hrest, rfl, rfl⟩ := runs_responses_cons h
    obtain ⟨status, hkey, -, rfl, hsort, hdefault, -⟩ := runs_response hone
    obtain ⟨heq, hkeyed⟩ := ih hrest
    refine ⟨by rw [List.map_cons, List.map_cons, heq, hkey], fun x hx => ?_⟩
    rcases List.mem_cons.mp hx with rfl | hx
    · exact ⟨hsort, hdefault, fun n hn => Status.range_mod (hn ▸ hkey)⟩
    · exact hkeyed x hx

/-- Keys in order keep a range behind the code that it starts at. -/
theorem responses_ordered {operationId operationName : String} {rs : KeyMap (RefOr ResponseSpec)}
    (hsorted : KeyMap.Sorted rs) {ms : List MappedResponse} {ds : List Declaration}
    (h : Runs (responses doc fuel operationId operationName rs) s (ms, ds) s') : ms.Pairwise NotRangeBefore := by
  have hkeys : (rs.map fun e => Status.parse? e.1).Pairwise
      fun a b => ∀ n, ¬ (a = some (.range n) ∧ b = some (.code n)) := by
    refine List.pairwise_map.mpr (List.Pairwise.imp (fun hlt n ⟨hrange, hcode⟩ => ?_) hsorted)
    exact String.lt_asymm hlt (Status.code_lt_range hcode hrange)
  rw [(responses_keyed h).1] at hkeys
  refine (List.pairwise_map.mp hkeys).imp fun hne n hn => hne n ?_
  exact ⟨congrArg some hn.1, congrArg some hn.2⟩

/-- What mapping the responses of an operation gives, before they are arranged. -/
structure Answers (op : Operation) (mapped : List MappedResponse) : Prop where
  ordered : mapped.Pairwise NotRangeBefore
  keyed : ∀ m ∈ mapped, Keyed m.response
  declares : ∀ st, op.Declares st ↔ ∃ m ∈ mapped, m.response.status = st

/-- The responses of a method are those that its operation declares, arranged. -/
theorem mapOperation_answers {httpMethod : HttpMethod} {path : String} {op : Operation}
    {ofPath : List (RefOr ParameterSpec)} {m : MappedOperation} (hsorted : KeyMap.Sorted op.responses)
    (h : Runs (mapOperation doc fuel httpMethod path op ofPath) s m s') :
    ∃ mapped, m.method.responses = (MappedResponse.arrange mapped).map (·.response) ∧ Answers op mapped := by
  obtain ⟨t, t1, t2, mapped, -, -, -, hr, -, hresponses, -⟩ := runs_mapOperation h
  obtain ⟨heq, hkeyed⟩ := responses_keyed hr
  refine ⟨mapped, hresponses, responses_ordered hsorted hr, hkeyed, fun st => ?_⟩
  have hmem : some st ∈ op.responses.map (fun e => Status.parse? e.1) ↔
      some st ∈ mapped.map (fun r => some r.response.status) := by rw [heq]
  simp only [List.mem_map, Option.some.injEq] at hmem
  rw [← hmem]
  constructor
  · rintro ⟨key, hkey, hst⟩
    obtain ⟨e, he, rfl⟩ := List.mem_map.mp hkey
    exact ⟨e, he, hst⟩
  · rintro ⟨e, he, hst⟩
    exact ⟨e.1, List.mem_map_of_mem he, hst⟩

end Resolve

/-! ## The response that is taken -/

namespace Resolve.Answers

variable {op : Operation} {mapped : List MappedResponse} {s : Nat}

/-- The responses as the method has them. -/
def arranged (mapped : List MappedResponse) : List Response := (MappedResponse.arrange mapped).map (·.response)

theorem keyed_arrange (h : Answers op mapped) : ∀ m ∈ MappedResponse.arrange mapped, Keyed m.response := by
  intro m hm
  rcases MappedResponse.mem_arrange hm with hm | rfl
  · exact h.keyed m hm
  · exact ⟨rfl, rfl, fun n hn => by cases hn⟩

/-- Where the code starts its range, no range around it stands before it. -/
theorem code_before_range (h : Answers op mapped) (hs : s % 100 = 0) :
    (MappedResponse.arrange mapped).Pairwise fun a b =>
      ¬ (a.response.status.rangeOver s = true ∧ decide (b.response.status = .code s) = true) := by
  refine (MappedResponse.arrange_ordered h.ordered).imp_of_mem fun {a b} ha hb hab ⟨hrange, hcode⟩ => ?_
  have hka := h.keyed_arrange a ha
  have hkb := h.keyed_arrange b hb
  have hcode := of_decide_eq_true hcode
  obtain ⟨n, hst, hlow, hhigh⟩ := Status.rangeOver_iff.mp hrange
  have hn := hka.range n hst
  obtain rfl : n = s := by omega
  refine hab.2 ?_ n ⟨hst, hcode⟩
  rw [MappedResponse.le_of_sortKey (by rw [hkb.isDefault, hcode]; rfl) (by rw [hka.isDefault, hst]; rfl),
    hka.sortKey, hkb.sortKey, hst, hcode]
  exact Nat.le_refl _

/-- Elsewhere in the range, the range comes first. -/
theorem range_before_code (h : Answers op mapped) (hs : s % 100 ≠ 0) :
    (MappedResponse.arrange mapped).Pairwise fun a b =>
      ¬ (decide (a.response.status = .code s) = true ∧ b.response.status.rangeOver s = true) := by
  refine (MappedResponse.arrange_ordered h.ordered).imp_of_mem fun {a b} ha hb hab ⟨hcode, hrange⟩ => ?_
  have hka := h.keyed_arrange a ha
  have hkb := h.keyed_arrange b hb
  have hcode := of_decide_eq_true hcode
  obtain ⟨n, hst, hlow, hhigh⟩ := Status.rangeOver_iff.mp hrange
  have hn := hkb.range n hst
  have hle := hab.1
  rw [MappedResponse.le_of_sortKey (by rw [hka.isDefault, hcode]; rfl) (by rw [hkb.isDefault, hst]; rfl),
    hka.sortKey, hkb.sortKey, hst, hcode] at hle
  simp only [Status.sortKey] at hle
  omega

/-- The first response that names a code: its own before a range at the start of the range, and after it elsewhere. -/
theorem firstNaming (h : Answers op mapped) :
    (arranged mapped).findIdx? (·.status.names s) =
      if s % 100 = 0 then (ownIndex (arranged mapped) s).or (rangeIndex (arranged mapped) s)
      else (rangeIndex (arranged mapped) s).or (ownIndex (arranged mapped) s) := by
  simp only [arranged, ownIndex, rangeIndex, List.findIdx?_map, Function.comp_def, Status.names_eq]
  split
  · rename_i hs
    exact findIdx?_or (h.code_before_range hs)
  · rename_i hs
    simp only [Bool.or_comm (decide _)]
    exact findIdx?_or (h.range_before_code hs)

theorem exists_ownIndex_iff (h : Answers op mapped) :
    (∃ i, ownIndex (arranged mapped) s = some i) ↔ op.Declares (.code s) := by
  rw [← Option.isSome_iff_exists, ownIndex, List.findIdx?_isSome, List.any_eq_true, h.declares]
  constructor
  · rintro ⟨r, hr, hst⟩
    obtain ⟨m, hm, rfl⟩ := List.mem_map.mp hr
    rcases MappedResponse.mem_arrange hm with hm | rfl
    · exact ⟨m, hm, of_decide_eq_true hst⟩
    · cases of_decide_eq_true hst
  · rintro ⟨m, hm, hst⟩
    exact ⟨m.response, List.mem_map_of_mem (MappedResponse.mem_arrange_of_mem hm), decide_eq_true hst⟩

theorem exists_rangeIndex_iff (h : Answers op mapped) :
    (∃ i, rangeIndex (arranged mapped) s = some i) ↔ op.Declares (.range (s / 100 * 100)) := by
  rw [← Option.isSome_iff_exists, rangeIndex, List.findIdx?_isSome, List.any_eq_true, h.declares]
  constructor
  · rintro ⟨r, hr, hover⟩
    obtain ⟨m, hm, rfl⟩ := List.mem_map.mp hr
    rcases MappedResponse.mem_arrange hm with hm | rfl
    · obtain ⟨n, hst, hlow, hhigh⟩ := Status.rangeOver_iff.mp hover
      have hn := (h.keyed m hm).range n hst
      have hstart : n = s / 100 * 100 := by omega
      exact ⟨m, hm, hstart ▸ hst⟩
    · cases hover
  · rintro ⟨m, hm, hst⟩
    refine ⟨m.response, List.mem_map_of_mem (MappedResponse.mem_arrange_of_mem hm), ?_⟩
    exact Status.rangeOver_iff.mpr ⟨_, hst, by omega, by omega⟩

theorem exists_defaultIndex (h : Answers op mapped) : ∃ i, defaultIndex (arranged mapped) = some i := by
  obtain ⟨m, hm, hst⟩ := MappedResponse.exists_default h.keyed
  rw [← Option.isSome_iff_exists, defaultIndex, List.findIdx?_isSome, List.any_eq_true]
  exact ⟨m.response, List.mem_map_of_mem hm, decide_eq_true hst⟩

theorem exists_preferred (h : Answers op mapped) : ∃ i, preferred (arranged mapped) s = some i := by
  obtain ⟨d, hd⟩ := h.exists_defaultIndex
  rw [preferred, hd]
  cases ownIndex (arranged mapped) s <;> cases rangeIndex (arranged mapped) s <;> simp

/-- A range takes the codes that it shadows. -/
theorem firstCovering_of_shadowed (h : Answers op mapped) (hs : op.Shadowed s) :
    Go.firstCovering (arranged mapped) s = rangeIndex (arranged mapped) s := by
  obtain ⟨j, hj⟩ := h.exists_rangeIndex_iff.mpr hs.range
  rw [Go.firstCovering, h.firstNaming, if_neg hs.inside, hj]
  rfl

theorem firstCovering_of_not_shadowed (h : Answers op mapped) (hs : ¬ op.Shadowed s) :
    Go.firstCovering (arranged mapped) s = preferred (arranged mapped) s := by
  rw [Go.firstCovering, h.firstNaming, preferred, defaultIndex]
  split
  · exact Option.or_assoc
  · rename_i hinside
    -- one of the two is missing, so their order does not matter
    by_cases hcode : op.Declares (.code s)
    · have hrange : rangeIndex (arranged mapped) s = none :=
        Option.eq_none_iff_forall_ne_some.mpr fun i hi =>
          hs ⟨hcode, h.exists_rangeIndex_iff.mp ⟨i, hi⟩, hinside⟩
      simp [hrange]
    · have hown : ownIndex (arranged mapped) s = none :=
        Option.eq_none_iff_forall_ne_some.mpr fun i hi => hcode (h.exists_ownIndex_iff.mp ⟨i, hi⟩)
      simp [hown]

theorem preferred_ne_rangeIndex (h : Answers op mapped) (hs : op.Shadowed s) :
    preferred (arranged mapped) s ≠ rangeIndex (arranged mapped) s := by
  obtain ⟨i, hi⟩ := h.exists_ownIndex_iff.mpr hs.code
  rw [preferred, hi, Option.some_or]
  exact (ownIndex_ne_rangeIndex hi).symm

end Resolve.Answers

namespace Resolve.Answers

/-- What a method takes whose responses are arranged like this. -/
theorem taken_cases {op : Operation} {mapped : List MappedResponse} (ha : Answers op mapped) {m : Method}
    (hresponses : m.responses = arranged mapped) (model : ApiModel) (s : Nat) :
    (∃ i, preferred m.responses s = some i) ∧
      (Go.taken (Go.method model m).cases s = preferred m.responses s ↔ ¬ op.Shadowed s) ∧
      (op.Shadowed s → Go.taken (Go.method model m).cases s = rangeIndex m.responses s) := by
  have htaken : Go.taken (Go.method model m).cases s = Go.firstCovering m.responses s := Go.taken_cases model m _ s
  rw [htaken, hresponses]
  refine ⟨ha.exists_preferred, ⟨fun heq hs => ?_, ha.firstCovering_of_not_shadowed⟩, ha.firstCovering_of_shadowed⟩
  rw [ha.firstCovering_of_shadowed hs] at heq
  exact ha.preferred_ne_rangeIndex hs heq.symm

end Resolve.Answers

open Resolve in
/-- A method takes the preferred response for a code, unless a range shadows the code; then it takes the range. -/
theorem taken_eq_preferred_iff {doc : Document} {fuel : Nat} {st st' : Session} {httpMethod : HttpMethod}
    {path : String} {op : Operation} {ofPath : List (RefOr ParameterSpec)} {m : MappedOperation}
    (hsorted : KeyMap.Sorted op.responses) (h : Runs (mapOperation doc fuel httpMethod path op ofPath) st m st')
    (model : ApiModel) (s : Nat) :
    (∃ i, preferred m.method.responses s = some i) ∧
      (Go.taken (Go.method model m.method).cases s = preferred m.method.responses s ↔ ¬ op.Shadowed s) ∧
      (op.Shadowed s → Go.taken (Go.method model m.method).cases s = rangeIndex m.method.responses s) := by
  obtain ⟨mapped, hresponses, ha⟩ := mapOperation_answers hsorted h
  exact ha.taken_cases hresponses model s

/-! ## An operation with a code inside a range -/

def emptyDocument : Document :=
  { openapi := "3.0.0", info := ⟨"t", "1", none⟩, servers := [], tags := [], paths := [], components := ⟨[], [], [], []⟩ }

def codeInsideRange : Operation :=
  ⟨[], none, none, some "f", [], none, [("404", .item ⟨none, []⟩), ("4XX", .item ⟨none, []⟩)], false, []⟩

theorem codeInsideRange_sorted : KeyMap.Sorted codeInsideRange.responses :=
  List.pairwise_pair.mpr (by decide)

theorem codeInsideRange_shadowed : codeInsideRange.Shadowed 404 where
  code := ⟨"404", by decide, by decide⟩
  range := ⟨"4XX", by decide, by decide⟩
  inside := by decide

open Resolve in
theorem codeInsideRange_runs :
    ∃ m st, Runs (mapOperation emptyDocument 1 .get "/a" codeInsideRange []) .start m st ∧
      m.method.responses.map (·.status) = [.range 400, .code 404, .default] := by
  have hpasses : passes (mapOperation emptyDocument 1 .get "/a" codeInsideRange []) .start (fun m _ =>
      m.method.responses.map (·.status) = [.range 400, .code 404, .default]) = true := by
    cbv
  obtain ⟨m, st, h, hpass⟩ := exists_runs_of_passes hpasses
  exact ⟨m, st, h, of_decide_eq_true hpass⟩

open Resolve in
theorem taken_eq_preferred_iff_codeInsideRange :
    KeyMap.Sorted codeInsideRange.responses ∧
      ∃ m st, Runs (mapOperation emptyDocument 1 .get "/a" codeInsideRange []) .start m st ∧
        m.method.responses.map (·.status) = [.range 400, .code 404, .default] ∧ ∀ model,
        (∃ i, preferred m.method.responses 404 = some i) ∧
        (Go.taken (Go.method model m.method).cases 404 = preferred m.method.responses 404 ↔
          ¬ codeInsideRange.Shadowed 404) ∧
        (codeInsideRange.Shadowed 404 →
          Go.taken (Go.method model m.method).cases 404 = rangeIndex m.method.responses 404) := by
  obtain ⟨m, st, h, hstatuses⟩ := codeInsideRange_runs
  exact ⟨codeInsideRange_sorted, m, st, h, hstatuses,
    fun model => taken_eq_preferred_iff codeInsideRange_sorted h model 404⟩

open Resolve in
/-- The response declared for 404 is never taken beside one for 4XX. -/
theorem range_taken_before_its_code :
    ∃ m st, Runs (mapOperation emptyDocument 1 .get "/a" codeInsideRange []) .start m st ∧
      ∀ model, Go.taken (Go.method model m.method).cases 404 ≠ preferred m.method.responses 404 := by
  obtain ⟨m, st, h, -⟩ := codeInsideRange_runs
  refine ⟨m, st, h, fun model heq => ?_⟩
  obtain ⟨mapped, hresponses, ha⟩ := mapOperation_answers codeInsideRange_sorted h
  obtain ⟨-, hpreferred, -⟩ := ha.taken_cases hresponses model 404
  exact hpreferred.mp heq codeInsideRange_shadowed

/-! ## Clients of documents that are read -/

open Resolve in
/-- Response keys are read in order, so this is how every method of a built client takes its responses. -/
theorem taken_of_build {text : String} {hint : Option String} {doc : Document} (hread : Document.ofText text hint = .ok doc)
    {fuel : Nat} {config : Config} {model : ApiModel} {ds : List Diagnostic}
    (h : build fuel doc config = .ok (model, ds)) {m : Method} (hm : m ∈ model.methods) :
    ∃ e ∈ doc.endpoints, e.MapsTo doc fuel m ∧ ∀ s,
      (∃ i, preferred m.responses s = some i) ∧
        (Go.taken (Go.method model m).cases s = preferred m.responses s ↔ ¬ e.operation.Shadowed s) ∧
        (e.operation.Shadowed s → Go.taken (Go.method model m).cases s = rangeIndex m.responses s) := by
  obtain ⟨hgrouped, -⟩ := groupings_of_build h
  obtain ⟨e, he, hmaps⟩ := hgrouped.exists_endpoint hm
  obtain ⟨s, mapped, s', hrun⟩ := hmaps.runs
  obtain ⟨hitem, hop⟩ := Endpoint.mem_of_mem_endpointsOf he
  have hsorted := (Document.ofText_sorted hread).responses _ hitem _ hop
  obtain ⟨answers, hresponses, ha⟩ := mapOperation_answers hsorted hrun
  rw [hmaps.method_eq hrun] at hresponses
  exact ⟨e, he, hmaps, ha.taken_cases hresponses model⟩

end ClientGen

import Mathlib
import ClientGen.Proofs.Document.Order
import ClientGen.Proofs.Fuel.Ends
import ClientGen.Proofs.Grouping.Endpoint
import ClientGen.Proofs.Run.Composed

/-
  ClientGen.Proofs.Response.Refusal — when a build is refused.

  A build that ends is refused for a response key that is no status, and for nothing else: all
  other defects of a document are reported, and the build goes on (`build_refused_iff`). The keys
  are looked at operation by operation, so the error names the first of them that is rejected: the
  least one, where the document was read from a text (`build_of_text_refused_iff`).
  - `Refuses x refusal`: `x` fails, other than for want of fuel, with `refusal` or not at all, and
    answers only if there is none. One after the other, the earlier refusal counts
    (`Refuses.sequence`).
  - The primitive steps refuse nothing and sequences of them do not either, so whatever is made
    without response keys refuses nothing (`refusing_nothing`).
-/

namespace ClientGen

/-! ## Response keys -/

/-- A response key and the operation that it belongs to. -/
structure ResponseKey where
  endpoint : Endpoint
  key : String

namespace ResponseKey

def Rejected (k : ResponseKey) : Prop := Status.parse? k.key = none

instance (k : ResponseKey) : Decidable k.Rejected := inferInstanceAs (Decidable (Status.parse? k.key = none))

def operationId (k : ResponseKey) : String := k.endpoint.operation.idOr k.endpoint.method k.endpoint.path

def error (k : ResponseKey) : BuildError := .invalidStatus k.operationId k.key

/-- By endpoint, and by key within one endpoint. -/
def Before (a b : ResponseKey) : Prop := a.endpoint.Before b.endpoint ∨ a.endpoint = b.endpoint ∧ a.key < b.key

theorem Before.asymm {a b : ResponseKey} (h : a.Before b) : ¬ b.Before a := by
  have hself {e e' : Endpoint} (h : e.Before e') : ¬ e'.Before e := by
    rintro (hpath | ⟨heq, hmethod⟩)
    · rcases h with hpath' | ⟨heq', -⟩
      · exact String.lt_asymm hpath hpath'
      · exact String.lt_irrefl _ (heq' ▸ hpath)
    · rcases h with hpath' | ⟨-, hmethod'⟩
      · exact String.lt_irrefl _ (heq ▸ hpath')
      · exact Nat.lt_asymm hmethod hmethod'
  rcases h with h | ⟨heq, hkey⟩
  · rintro (h' | ⟨heq', -⟩)
    · exact hself h h'
    · exact hself h (heq' ▸ h)
  · rintro (h' | ⟨-, hkey'⟩)
    · exact hself (heq ▸ h') h'
    · exact String.lt_asymm hkey hkey'

end ResponseKey

def Endpoint.responseKeys (e : Endpoint) : List ResponseKey := e.operation.responses.keys.map fun key => ⟨e, key⟩

def Document.responseKeys (doc : Document) : List ResponseKey := doc.endpoints.flatMap (·.responseKeys)

/-- The response keys of a document stand in the order of paths, methods and keys. -/
theorem Document.Sorted.responseKeys {doc : Document} (h : doc.Sorted) :
    doc.responseKeys.Pairwise ResponseKey.Before := by
  refine List.pairwise_flatMap.mpr ⟨?_, ?_⟩
  · intro e he
    obtain ⟨hitem, hop⟩ := Endpoint.mem_of_mem_endpointsOf he
    have hkeys : e.operation.responses.keys.Pairwise (· < ·) :=
      List.pairwise_map.mpr (h.responses _ hitem (e.method, e.operation) hop)
    refine List.pairwise_map.mpr (hkeys.imp ?_)
    intro a b hlt
    exact .inr ⟨rfl, hlt⟩
  · refine h.ordered.endpoints.imp ?_
    intro e e' hbefore a ha b hb
    obtain ⟨_, -, rfl⟩ := List.mem_map.mp ha
    obtain ⟨_, -, rfl⟩ := List.mem_map.mp hb
    exact .inl hbefore

namespace Resolve

variable {α β : Type} {doc : Document} {fuel : Nat} {s s' : Session}

/-! ## Refusals -/

def Fails (x : Resolve α) (s : Session) (e : BuildError) (s' : Session) : Prop := x s = .error e s'

theorem fails_bind {x : Resolve α} {f : α → Resolve β} {e : BuildError} {s'' : Session} :
    Fails (x >>= f) s e s'' ↔ Fails x s e s'' ∨ ∃ a s', Runs x s a s' ∧ Fails (f a) s' e s'' := by
  simp only [Fails, Runs, bind, EStateM.bind]
  cases x s with
  | ok a t =>
    constructor
    · intro h
      exact .inr ⟨a, t, rfl, h⟩
    · rintro (h | ⟨_, _, h, hf⟩)
      · cases h
      · cases h
        exact hf
  | error err t =>
    constructor
    · intro h
      cases h
      exact .inl rfl
    · rintro (h | ⟨_, _, h, -⟩)
      · cases h
        rfl
      · cases h

structure Refuses (x : Resolve α) (refusal : Option BuildError) : Prop where
  answers : ∀ {s a s'}, Runs x s a s' → refusal = none
  fails : ∀ {s e s'}, Fails x s e s' → e = .outOfFuel ∨ refusal = some e

theorem Refuses.sequence {x : Resolve α} {f : α → Resolve β} {first second : Option BuildError}
    (hx : Refuses x first) (hf : ∀ a, Refuses (f a) second) : Refuses (x >>= f) (first.or second) where
  answers := by
    intro s b s' h
    obtain ⟨a, t, hrun, hrest⟩ := runs_bind.mp h
    rw [hx.answers hrun, (hf a).answers hrest]
    rfl
  fails := by
    intro s e s' h
    rcases fails_bind.mp h with hfail | ⟨a, t, hrun, hrest⟩
    · rcases hx.fails hfail with hout | hfirst
      · exact .inl hout
      · exact .inr (by rw [hfirst]; rfl)
    · rw [hx.answers hrun, Option.none_or]
      exact (hf a).fails hrest

/-- What always answers refuses nothing. -/
theorem refuses_none_of_runs {x : Resolve α} (h : ∀ s, ∃ a s', Runs x s a s') : Refuses x none where
  answers := fun _ => rfl
  fails := by
    intro s e s' hfail
    obtain ⟨a, t, hrun⟩ := h s
    rw [Fails, show x s = .ok a t from hrun] at hfail
    cases hfail

theorem refusing_nothing : Compositional fun x => Refuses x none where
  answer a := refuses_none_of_runs fun s => ⟨a, s, runs_pure.mpr ⟨rfl, rfl⟩⟩
  sequence hx hf := hx.sequence hf
  session := refuses_none_of_runs fun s => ⟨s, s, runs_get.mpr ⟨rfl, rfl⟩⟩
  reports ds := refuses_none_of_runs fun s => ⟨(), _, runs_reportAll.mpr rfl⟩
  claims name origin := refuses_none_of_runs fun s => exists_runs_claim name origin s
  records d := refuses_none_of_runs fun s => ⟨d, _, runs_finish.mpr ⟨rfl, rfl⟩⟩
  runsOut := by
    intro α
    refine ⟨fun _ => rfl, ?_⟩
    intro s e s' h
    cases h
    exact .inl rfl

/-- After what refuses nothing, the refusal is that of the rest. -/
theorem Refuses.after {x : Resolve α} {f : α → Resolve β} {refusal : Option BuildError} (hx : Refuses x none)
    (hf : ∀ a, Refuses (f a) refusal) : Refuses (x >>= f) refusal := by
  have h := hx.sequence hf
  rwa [Option.none_or] at h

/-- What refuses nothing may follow. -/
theorem Refuses.before {x : Resolve α} {f : α → Resolve β} {refusal : Option BuildError} (hx : Refuses x refusal)
    (hf : ∀ a, Refuses (f a) none) : Refuses (x >>= f) refusal := by
  have h := hx.sequence hf
  rwa [Option.or_none] at h

/-! ## Operations -/

/-- The error for the first key that is no status. -/
def refusalOf (operationId : String) (keys : List String) : Option BuildError :=
  keys.findSome? fun key => if Status.parse? key = none then some (.invalidStatus operationId key) else none

theorem response_refuses (operationId operationName key : String) (r : RefOr ResponseSpec) :
    Refuses (response doc fuel operationId operationName key r) (refusalOf operationId [key]) := by
  simp only [response, refusalOf, List.findSome?_cons, List.findSome?_nil]
  cases hkey : Status.parse? key with
  | none =>
    rw [if_pos rfl]
    refine ⟨?_, ?_⟩
    · intro s a s' h
      cases h
    · intro s e s' h
      cases h
      exact .inr rfl
  | some status =>
    rw [if_neg (by simp)]
    exact refusing_nothing.sequence (refusing_nothing.responseType _ _ _) fun _ => refusing_nothing.answer _

theorem responses_refuse (operationId operationName : String) (rs : KeyMap (RefOr ResponseSpec)) :
    Refuses (responses doc fuel operationId operationName rs) (refusalOf operationId rs.keys) := by
  induction rs with
  | nil => exact refusing_nothing.answer _
  | cons entry rest ih =>
    obtain ⟨key, r⟩ := entry
    have hcons : refusalOf operationId (KeyMap.keys ((key, r) :: rest)) =
        (refusalOf operationId [key]).or (refusalOf operationId (KeyMap.keys rest)) := by
      rw [refusalOf, refusalOf, refusalOf, ← List.findSome?_append]
      rfl
    rw [hcons]
    exact (response_refuses _ _ _ _).sequence fun _ => ih.before fun _ => refusing_nothing.answer _

end Resolve

/-- What an endpoint is refused for. -/
def Endpoint.refusal? (e : Endpoint) : Option BuildError :=
  Resolve.refusalOf (e.operation.idOr e.method e.path) e.operation.responses.keys

namespace Resolve

variable {α β : Type} {doc : Document} {fuel : Nat} {s s' : Session}

theorem mapped_refuses (e : Endpoint) : Refuses (e.mapped doc fuel) e.refusal? := by
  refine .after (refusing_nothing.reports _) fun _ => .after (refusing_nothing.reports _) fun _ => ?_
  refine .after (refusing_nothing.queryParams _ _ _) fun _ => .after (refusing_nothing.requestBody _ _) fun _ => ?_
  exact (responses_refuse _ _ _).before fun _ => refusing_nothing.answer _

theorem mapPathOperations_refuses (path : String) (item : PathItem) (ops : List (HttpMethod × Operation)) :
    Refuses (mapPathOperations doc fuel path item ops)
      ((ops.map fun (method, op) => Endpoint.mk path item method op).findSome? Endpoint.refusal?) := by
  induction ops with
  | nil => exact refusing_nothing.answer _
  | cons entry rest ih =>
    obtain ⟨method, op⟩ := entry
    have hcons : (((method, op) :: rest).map fun (method, op) => Endpoint.mk path item method op).findSome?
          Endpoint.refusal? = (Endpoint.mk path item method op).refusal?.or
        ((rest.map fun (method, op) => Endpoint.mk path item method op).findSome? Endpoint.refusal?) := by
      rw [List.map_cons, List.findSome?_cons]
      cases (Endpoint.mk path item method op).refusal? with
      | none => rfl
      | some e => rfl
    rw [hcons]
    exact (mapped_refuses ⟨path, item, method, op⟩).sequence fun _ => ih.before fun _ => refusing_nothing.answer _

theorem mapPaths_refuses (paths : KeyMap PathItem) :
    Refuses (mapPaths doc fuel paths) ((endpointsOf paths).findSome? Endpoint.refusal?) := by
  induction paths with
  | nil => exact refusing_nothing.answer _
  | cons entry rest ih =>
    obtain ⟨path, item⟩ := entry
    have hcons : endpointsOf ((path, item) :: rest) = item.endpoints path ++ endpointsOf rest := List.flatMap_cons
    rw [hcons, List.findSome?_append, mapPaths, PathItem.endpoints]
    cases item.reference with
    | some reference => exact .after (refusing_nothing.report _) fun _ => ih
    | none =>
      exact (mapPathOperations_refuses path item item.operations).sequence fun _ =>
        ih.before fun _ => refusing_nothing.answer _

theorem buildModel_refuses (config : Config) :
    Refuses (buildModel doc config fuel) (doc.endpoints.findSome? Endpoint.refusal?) := by
  refine .after (refusing_nothing.declareAll _) fun _ => .after (refusing_nothing.declareComponents _) fun _ => ?_
  refine (mapPaths_refuses _).before fun _ => .after (refusing_nothing.groupings _ _ _) fun _ => ?_
  exact .after (refusing_nothing.declareResponses _) fun _ => refusing_nothing.answer _

end Resolve

/-! ## The whole build -/

theorem Endpoint.refusal?_eq (e : Endpoint) :
    e.refusal? = (e.responseKeys.find? fun k => k.Rejected).map ResponseKey.error := by
  rw [refusal?, Resolve.refusalOf, responseKeys]
  induction e.operation.responses.keys with
  | nil => rfl
  | cons key rest ih =>
    rw [List.map_cons, List.findSome?_cons, List.find?_cons, ih]
    by_cases hkey : Status.parse? key = none
    · have hrejected : (ResponseKey.mk e key).Rejected := hkey
      simp only [hkey, hrejected, if_true, decide_true, Option.map_some]
      rfl
    · have haccepted : ¬ (ResponseKey.mk e key).Rejected := hkey
      simp only [hkey, haccepted, if_false, decide_false]

theorem Document.refusal_eq (doc : Document) :
    doc.endpoints.findSome? Endpoint.refusal? =
      (doc.responseKeys.find? fun k => k.Rejected).map ResponseKey.error := by
  rw [responseKeys, List.find?_flatMap]
  induction doc.endpoints with
  | nil => rfl
  | cons e rest ih =>
    rw [List.findSome?_cons, List.findSome?_cons, ih, Endpoint.refusal?_eq]
    cases e.responseKeys.find? fun k => k.Rejected with
    | none => rfl
    | some k => rfl

theorem build_of_refuses {doc : Document} {config : Config} {fuel : Nat} {e : BuildError}
    (h : build fuel doc config ≠ .error .outOfFuel) :
    build fuel doc config = .error e ↔ doc.endpoints.findSome? Endpoint.refusal? = some e := by
  have hrefuses : Resolve.Refuses (Resolve.buildModel doc config fuel) (doc.endpoints.findSome? Endpoint.refusal?) :=
    Resolve.buildModel_refuses config
  cases hrun : Resolve.buildModel doc config fuel .start with
  | ok model s' =>
    have hbuild : build fuel doc config = .ok (model, s'.diagnostics) := by rw [build, EStateM.run, hrun]
    rw [hbuild, hrefuses.answers hrun]
    constructor
    · intro he
      cases he
    · intro he
      cases he
  | error err s' =>
    have hbuild : build fuel doc config = .error err := by rw [build, EStateM.run, hrun]
    rcases hrefuses.fails hrun with rfl | hrefusal
    · exact absurd hbuild h
    · rw [hbuild, hrefusal, Except.error.injEq, Option.some.injEq]

/-- The error of a build that ends is that of the first key that is rejected. -/
theorem build_error_iff {doc : Document} {config : Config} {fuel : Nat} {e : BuildError}
    (h : build fuel doc config ≠ .error .outOfFuel) :
    build fuel doc config = .error e ↔ ∃ before k after, doc.responseKeys = before ++ k :: after ∧
      (∀ b ∈ before, ¬ b.Rejected) ∧ k.Rejected ∧ e = k.error := by
  rw [build_of_refuses h, Document.refusal_eq, Option.map_eq_some_iff]
  constructor
  · rintro ⟨k, hk, rfl⟩
    obtain ⟨hrejected, before, after, hkeys, hbefore⟩ := List.find?_eq_some_iff_append.mp hk
    refine ⟨before, k, after, hkeys, ?_, of_decide_eq_true hrejected, rfl⟩
    intro b hb
    simpa using hbefore b hb
  · rintro ⟨before, k, after, hkeys, hbefore, hrejected, rfl⟩
    refine ⟨k, List.find?_eq_some_iff_append.mpr ⟨decide_eq_true hrejected, before, after, hkeys, ?_⟩, rfl⟩
    intro b hb
    simp [hbefore b hb]

/-- Among the keys that are rejected there is a first one. -/
theorem exists_first_rejected {keys : List ResponseKey} (h : ∃ k ∈ keys, k.Rejected) :
    ∃ before k after, keys = before ++ k :: after ∧ (∀ b ∈ before, ¬ b.Rejected) ∧ k.Rejected := by
  obtain ⟨k, hk, hrejected⟩ := h
  have hsome : (keys.find? fun k => k.Rejected).isSome := List.find?_isSome.mpr ⟨k, hk, decide_eq_true hrejected⟩
  obtain ⟨first, hfirst⟩ := Option.isSome_iff_exists.mp hsome
  obtain ⟨hrejected, before, after, hkeys, hbefore⟩ := List.find?_eq_some_iff_append.mp hfirst
  refine ⟨before, first, after, hkeys, ?_, of_decide_eq_true hrejected⟩
  intro b hb
  simpa using hbefore b hb

theorem Ends.exists_enough {doc : Document} {config : Config} (h : Ends doc config) :
    ∃ enough, ∀ fuel, enough ≤ fuel → build fuel doc config ≠ .error .outOfFuel := by
  obtain ⟨enough, henough⟩ := h
  refine ⟨enough, fun fuel hle => ?_⟩
  rw [build_stable henough hle]
  exact henough

/-- A build that ends is refused exactly when some operation has a response key that is no status,
    and then for the first of these, by path, method and key. -/
theorem build_refused_iff {doc : Document} {config : Config} (h : Ends doc config) :
    ∃ enough, ∀ fuel, enough ≤ fuel →
      ((∃ e, build fuel doc config = .error e) ↔ ∃ k ∈ doc.responseKeys, k.Rejected) ∧
      (∀ e, build fuel doc config = .error e ↔ ∃ before k after, doc.responseKeys = before ++ k :: after ∧
        (∀ b ∈ before, ¬ b.Rejected) ∧ k.Rejected ∧ e = k.error) ∧
      (doc.Sorted → doc.responseKeys.Pairwise ResponseKey.Before) := by
  obtain ⟨enough, hended⟩ := h.exists_enough
  refine ⟨enough, fun fuel hle => ⟨?_, fun e => build_error_iff (hended fuel hle), Document.Sorted.responseKeys⟩⟩
  constructor
  · rintro ⟨e, he⟩
    obtain ⟨before, k, after, hkeys, -, hrejected, -⟩ := (build_error_iff (hended fuel hle)).mp he
    exact ⟨k, by simp [hkeys], hrejected⟩
  · intro hsome
    obtain ⟨before, k, after, hkeys, hbefore, hrejected⟩ := exists_first_rejected hsome
    exact ⟨k.error, (build_error_iff (hended fuel hle)).mpr ⟨before, k, after, hkeys, hbefore, hrejected, rfl⟩⟩

/-- A path that is a reference, and one with two operations, of which both have keys to reject. The
    first of them has no id, and its other response dangles. -/
def rejectedKeys : Document :=
  { openapi := "3.0.0", info := ⟨"t", "1", none⟩, servers := [], tags := []
    paths :=
      [("/a", ⟨some "#/paths/b", none, none, [(.get, ⟨[], none, none, some "f", [], none, [("x", .ref "r")], false, []⟩)], []⟩),
        ("/b", ⟨none, none, none,
          [(.get, ⟨[], none, none, none, [], none, [("200", .ref "r"), ("2000", .ref "r")], false, []⟩),
            (.put, ⟨[], none, none, some "g", [], none, [("0", .ref "r")], false, []⟩)], []⟩)]
    components := ⟨[], [], [], []⟩ }

theorem rejectedKeys_ends : Ends rejectedKeys ⟨"p", "P"⟩ := by
  refine ⟨1, ?_⟩
  have hended : (match build 1 rejectedKeys ⟨"p", "P"⟩ with
      | .error e => decide (e = .outOfFuel)
      | .ok _ => false) = false := by decide +kernel
  intro hout
  rw [hout] at hended
  exact absurd hended (by decide)

theorem build_refused_iff_rejectedKeys : Ends rejectedKeys ⟨"p", "P"⟩ ∧ ∃ enough, ∀ fuel, enough ≤ fuel →
    build fuel rejectedKeys ⟨"p", "P"⟩ = .error (.invalidStatus "get_b" "2000") := by
  refine ⟨rejectedKeys_ends, ?_⟩
  obtain ⟨enough, h⟩ := build_refused_iff rejectedKeys_ends
  refine ⟨enough, fun fuel hle => ?_⟩
  refine ((h fuel hle).2.1 _).mpr ⟨rejectedKeys.responseKeys.take 1, _, rejectedKeys.responseKeys.drop 2, rfl, ?_, ?_, ?_⟩
  · decide +kernel
  · decide +kernel
  · decide +kernel

/-- In a document that is read the first key that is rejected is the least one. -/
theorem build_of_text_refused_iff {text : String} {hint : Option String} {doc : Document} {config : Config}
    (hread : Document.ofText text hint = .ok doc) (h : Ends doc config) :
    ∃ enough, ∀ fuel, enough ≤ fuel → ∀ e, build fuel doc config = .error e ↔
      ∃ k ∈ doc.responseKeys, k.Rejected ∧ (∀ k' ∈ doc.responseKeys, k'.Rejected → k' = k ∨ k.Before k') ∧
        e = k.error := by
  have hordered := (Document.ofText_sorted hread).responseKeys
  obtain ⟨enough, hended⟩ := h.exists_enough
  refine ⟨enough, fun fuel hle e => (build_error_iff (hended fuel hle)).trans ?_⟩
  constructor
  · rintro ⟨before, k, after, hkeys, hbefore, hrejected, rfl⟩
    rw [hkeys] at hordered ⊢
    obtain ⟨-, hlater, -⟩ := List.pairwise_append.mp hordered
    refine ⟨k, by simp, hrejected, fun k' hk' hrejected' => ?_, rfl⟩
    rcases List.mem_append.mp hk' with hk' | hk'
    · exact absurd hrejected' (hbefore k' hk')
    · exact (List.mem_cons.mp hk').imp_right ((List.pairwise_cons.mp hlater).1 k')
  · rintro ⟨k, hk, hrejected, hleast, rfl⟩
    obtain ⟨before, first, after, hkeys, hbefore, hfirst⟩ := exists_first_rejected ⟨k, hk, hrejected⟩
    refine ⟨before, first, after, hkeys, hbefore, hfirst, congrArg ResponseKey.error ?_⟩
    rw [hkeys] at hordered hk hleast
    obtain ⟨-, hlater, -⟩ := List.pairwise_append.mp hordered
    -- what is rejected is not in front of the first, and the least is not behind it
    rcases List.mem_append.mp hk with hk | hk
    · exact absurd hrejected (hbefore k hk)
    · rcases List.mem_cons.mp hk with heq | hk
      · exact heq
      · have hbehind := (List.pairwise_cons.mp hlater).1 k hk
        rcases hleast first (by simp) hfirst with heq | hfront
        · exact heq.symm
        · exact absurd hfront hbehind.asymm

end ClientGen

import Mathlib
import ClientGen.Proofs.Grouping.Reach

/-
  ClientGen.Proofs.Grouping.Graph — the graph that an operation is searched in.

  Schemas and the names of components are the nodes. A schema is linked to the component that its
  reference names and to the schemas inside it, a name to the schema of its component
  (`Document.Link`). A reference hides the keywords beside it, so from a schema with a reference
  no other link is followed (`Document.Follows`).
  - `reflTransGen_follows_iff`: following links from a schema leads to the names that the schema reaches.
  - A search visits one schema after the other. A visit uses up a schema that was to be visited, and
    opens the schemas inside it or one component, which is not opened again, so the visits
    are counted before they are made (`visitsLeft_next_lt`).
  - What a search will have found when it is over stays the same from visit to visit (`searched_next`).
  - `operationReach_search` puts this together for the schemas that an operation mentions.
-/

namespace ClientGen

/-! ## Nodes and links -/

/-- `Inner s c`: the schema `c` stands under a keyword of `s`. -/
inductive Schema.Inner : Schema → Schema → Prop
  | items {s c : Schema} : s.items = some c → Inner s c
  | property {s c : Schema} {properties : List (String × Schema)} {key : String} : s.properties = some properties →
      (key, c) ∈ properties → Inner s c
  | additional {s c : Schema} : s.additional = some (.schema c) → Inner s c
  | allOf {s c : Schema} {branches : List Schema} : s.allOf = some branches → c ∈ branches → Inner s c
  | oneOf {s c : Schema} {branches : List Schema} : s.oneOf = some branches → c ∈ branches → Inner s c
  | anyOf {s c : Schema} {branches : List Schema} : s.anyOf = some branches → c ∈ branches → Inner s c

theorem Schema.mem_children {s c : Schema} : c ∈ s.children ↔ s.Inner c := by
  constructor
  · intro h
    simp only [children, List.mem_append, Option.mem_toList, List.mem_map] at h
    rcases h with ((((h | ⟨⟨key, c⟩, h, rfl⟩) | h) | h) | h) | h
    · exact .items h
    · cases hproperties : s.properties with
      | none => simp [propertyList, hproperties] at h
      | some properties =>
        rw [propertyList, hproperties] at h
        exact .property hproperties h
    · unfold additionalSchema at h
      split at h
      · cases h
        exact .additional ‹_›
      · cases h
    · cases hbranches : s.allOf with
      | none => simp [hbranches] at h
      | some branches =>
        rw [hbranches] at h
        exact .allOf hbranches h
    · cases hbranches : s.oneOf with
      | none => simp [hbranches] at h
      | some branches =>
        rw [hbranches] at h
        exact .oneOf hbranches h
    · cases hbranches : s.anyOf with
      | none => simp [hbranches] at h
      | some branches =>
        rw [hbranches] at h
        exact .anyOf hbranches h
  · intro h
    cases h with
    | items h => exact mem_children_of_items h
    | property hproperties h =>
      apply mem_children_of_property
      rw [propertyList, hproperties]
      exact h
    | additional h =>
      apply mem_children_of_additional
      rw [additionalSchema, h]
    | allOf hbranches h => exact mem_children_of_allOf hbranches h
    | oneOf hbranches h => exact mem_children_of_oneOf hbranches h
    | anyOf hbranches h => simp [children, hbranches, h]

inductive SchemaNode where
  | schema (s : Schema)
  | component (name : String)

namespace Document

inductive Link (doc : Document) : SchemaNode → SchemaNode → Prop
  | reference {s : Schema} {target name : String} : s.reference = some target → schemaRefName? target = some name →
      Link doc (.schema s) (.component name)
  | inner {s c : Schema} : s.Inner c → Link doc (.schema s) (.schema c)
  | definition {name : String} {s : Schema} : KeyMap.get? doc.components.schemas name = some s →
      Link doc (.component name) (.schema s)

/-- A link that is followed: none leads from a schema with a reference to a schema inside it. -/
def Follows (doc : Document) (a b : SchemaNode) : Prop :=
  doc.Link a b ∧ ∀ s c, a = .schema s → b = .schema c → s.reference = none

/-- The schemas of an operation's parameters and its path's, of its request body and of its responses. -/
inductive Mentions (doc : Document) (op : Operation) (ofPath : List (RefOr ParameterSpec)) : Schema → Prop
  | parameter {r : RefOr ParameterSpec} {p : ParameterSpec} {s : Schema} : r ∈ op.parameters ++ ofPath →
      doc.parameter? r = some p → p.schema = some s → Mentions doc op ofPath s
  | body {r : RefOr RequestBody} {b : RequestBody} {mediaType : String} {m : MediaType} {s : Schema} :
      op.requestBody = some r → doc.requestBody? r = some b → (mediaType, m) ∈ b.content → m.schema = some s →
      Mentions doc op ofPath s
  | response {code : String} {r : RefOr ResponseSpec} {response : ResponseSpec} {mediaType : String} {m : MediaType}
      {s : Schema} : (code, r) ∈ op.responses → doc.response? r = some response → (mediaType, m) ∈ response.content →
      m.schema = some s → Mentions doc op ofPath s

variable {doc : Document} {op : Operation} {ofPath : List (RefOr ParameterSpec)} {name : String}

theorem mem_contentSchemas {content : KeyMap MediaType} {s : Schema} :
    s ∈ contentSchemas content ↔ ∃ mediaType m, (mediaType, m) ∈ content ∧ m.schema = some s := by
  simp [contentSchemas, List.mem_filterMap]

theorem mem_operationSchemas {s : Schema} : s ∈ doc.operationSchemas op ofPath ↔ doc.Mentions op ofPath s := by
  constructor
  · intro h
    simp only [operationSchemas, List.mem_append, List.mem_filterMap, List.mem_flatMap, Option.mem_toList,
      Option.bind_eq_some_iff, mem_contentSchemas] at h
    rcases h with (⟨p, ⟨r, hr, hp⟩, hs⟩ | ⟨b, ⟨r, hr, hb⟩, mediaType, m, hm, hs⟩) |
      ⟨response, ⟨⟨code, r⟩, hr, hresponse⟩, mediaType, m, hm, hs⟩
    · exact .parameter (List.mem_append.mpr hr) hp hs
    · exact .body hr hb hm hs
    · exact .response hr hresponse hm hs
  · intro h
    simp only [operationSchemas, List.mem_append, List.mem_filterMap, List.mem_flatMap, Option.mem_toList,
      Option.bind_eq_some_iff, mem_contentSchemas]
    cases h with
    | parameter hr hp hs => exact .inl (.inl ⟨_, ⟨_, List.mem_append.mp hr, hp⟩, hs⟩)
    | body hr hb hm hs => exact .inl (.inr ⟨_, ⟨_, hr, hb⟩, _, _, hm, hs⟩)
    | response hr hresponse hm hs => exact .inr ⟨_, ⟨_, hr, hresponse⟩, _, _, hm, hs⟩

/-! ## Following links -/

/-- The name is reached from the node. -/
def LeadsTo (doc : Document) (name : String) : SchemaNode → Prop
  | .schema s => doc.Reaches s name
  | .component n => Relation.ReflTransGen (LeadsOn doc.components.schemas) n name

theorem leadsTo_of_follows {a b : SchemaNode} (h : doc.Follows a b) (hb : doc.LeadsTo name b) : doc.LeadsTo name a := by
  obtain ⟨hlink, hplain⟩ := h
  cases hlink with
  | reference hreference hname => exact ⟨_, .reference hreference hname, hb⟩
  | inner hinner =>
    obtain ⟨first, hfirst, hchain⟩ := hb
    exact ⟨first, .inside (hplain _ _ rfl rfl) (Schema.mem_children.mpr hinner) hfirst, hchain⟩
  | definition hcomponent =>
    obtain ⟨first, hfirst, hchain⟩ := hb
    exact .head ⟨_, hcomponent, hfirst⟩ hchain

theorem follows_of_refersTo {s : Schema} (h : s.RefersTo name) :
    Relation.ReflTransGen doc.Follows (.schema s) (.component name) := by
  induction h with
  | reference hreference hname =>
    refine .single ⟨.reference hreference hname, ?_⟩
    intro _ _ _ hschema
    cases hschema
  | inside hreference hc _ ih =>
    refine .head ⟨.inner (Schema.mem_children.mp hc), ?_⟩ ih
    rintro _ _ ⟨⟩ -
    exact hreference

theorem follows_of_leadsOn {next : String} (h : LeadsOn doc.components.schemas name next) :
    Relation.ReflTransGen doc.Follows (.component name) (.component next) := by
  obtain ⟨s, hs, hrefers⟩ := h
  refine .head ⟨.definition hs, ?_⟩ (follows_of_refersTo hrefers)
  intro _ _ hcomponent
  cases hcomponent

theorem leadsTo_of_reflTransGen {a : SchemaNode} (h : Relation.ReflTransGen doc.Follows a (.component name)) :
    doc.LeadsTo name a := by
  induction h using Relation.ReflTransGen.head_induction_on with
  | refl => exact .refl
  | head hstep _ ih => exact leadsTo_of_follows hstep ih

theorem reflTransGen_follows_iff {s : Schema} :
    Relation.ReflTransGen doc.Follows (.schema s) (.component name) ↔ doc.Reaches s name := by
  constructor
  · exact leadsTo_of_reflTransGen
  · rintro ⟨first, hfirst, hchain⟩
    refine (follows_of_refersTo hfirst).trans ?_
    induction hchain with
    | refl => exact .refl
    | tail _ hleads ih => exact ih.trans (follows_of_leadsOn hleads)

end Document

/-! ## Visiting schemas -/

/-- The names that were found, and the schemas that are still to be visited. -/
structure Search where
  found : List String
  todo : List Schema

/-- The visits that a schema takes, as long as no component is opened. -/
def Schema.visits (s : Schema) : Nat :=
  match s.reference with
  | some _ => 1
  | none => (s.children.attach.map fun ⟨c, h⟩ =>
      have := sizeOf_lt_of_mem_children h
      c.visits).sum + 1
termination_by sizeOf s

theorem Schema.visits_of_reference {s : Schema} {target : String} (h : s.reference = some target) : s.visits = 1 := by
  rw [visits]
  simp only [h]

theorem Schema.visits_of_children {s : Schema} (h : s.reference = none) :
    s.visits = (s.children.map visits).sum + 1 := by
  rw [visits]
  simp only [h]
  simp

theorem Schema.visits_pos (s : Schema) : 0 < s.visits := by
  cases h : s.reference with
  | some target => simp [visits_of_reference h]
  | none => simp [visits_of_children h]

namespace Document

/-- What is found, and what is to be visited, once a schema was visited. A component is opened when
    its name is found. -/
def visit (doc : Document) (found : List String) (s : Schema) (todo : List Schema) : Search :=
  match s.reference with
  | none => ⟨found, s.children ++ todo⟩
  | some target =>
    match schemaRefName? target with
    | none => ⟨found, todo⟩
    | some name =>
      if name ∈ found then ⟨found, todo⟩
      else ⟨name :: found, (KeyMap.get? doc.components.schemas name).toList ++ todo⟩

/-- The next visit. When nothing is to be visited, the search is over. -/
def next (doc : Document) (x : Search) : Search :=
  match x.todo with
  | [] => x
  | s :: todo => doc.visit x.found s todo

/-- The components that were not found yet. -/
def unfound (doc : Document) (found : List String) : KeyMap Schema :=
  doc.components.schemas.filter fun e => e.1 ∉ found

/-- The visits that are left, at most: those of the schemas to be visited and of the components not
    found. -/
def visitsLeft (doc : Document) (x : Search) : Nat :=
  (x.todo.map Schema.visits).sum + ((doc.unfound x.found).map (·.2.visits)).sum

variable {doc : Document} {found : List String} {s : Schema} {todo : List Schema} {name : String}

theorem unfound_cons (doc : Document) (name : String) (found : List String) :
    doc.unfound (name :: found) = withoutKey name (doc.unfound found) := by
  rw [unfound, unfound, withoutKey, List.filter_filter]
  refine List.filter_congr ?_
  intro e _
  simp

theorem visits_withoutKey_le (name : String) (m : KeyMap Schema) :
    ((withoutKey name m).map (·.2.visits)).sum ≤ (m.map (·.2.visits)).sum :=
  (List.filter_sublist.map _).sum_le_sum fun _ _ => Nat.zero_le _

/-- A component that is opened is no longer counted among those not found. -/
theorem visits_add_le {m : KeyMap Schema} (h : (name, s) ∈ m) :
    s.visits + ((withoutKey name m).map (·.2.visits)).sum ≤ (m.map (·.2.visits)).sum := by
  induction m with
  | nil => cases h
  | cons e rest ih =>
    have hrest := visits_withoutKey_le name rest
    by_cases hname : e.1 = name
    · have hcons : withoutKey name (e :: rest) = withoutKey name rest := by simp [withoutKey, hname]
      rw [hcons, List.map_cons, List.sum_cons]
      rcases List.mem_cons.mp h with rfl | h
      · exact Nat.add_le_add_left hrest _
      · have := ih h
        omega
    · have hcons : withoutKey name (e :: rest) = e :: withoutKey name rest := by simp [withoutKey, hname]
      rw [hcons, List.map_cons, List.map_cons, List.sum_cons, List.sum_cons]
      rcases List.mem_cons.mp h with rfl | h
      · exact absurd rfl hname
      · have := ih h
        omega

theorem visitsLeft_visit_lt (doc : Document) (found : List String) (s : Schema) (todo : List Schema) :
    doc.visitsLeft (doc.visit found s todo) < doc.visitsLeft ⟨found, s :: todo⟩ := by
  have hpos := s.visits_pos
  unfold visit
  split
  · rename_i hreference
    simp only [visitsLeft, List.map_cons, List.sum_cons, List.map_append, List.sum_append,
      Schema.visits_of_children hreference]
    omega
  · split
    · simp only [visitsLeft, List.map_cons, List.sum_cons]
      omega
    · rename_i name _
      split
      · simp only [visitsLeft, List.map_cons, List.sum_cons]
        omega
      · rename_i hnew
        simp only [visitsLeft, List.map_cons, List.sum_cons, List.map_append, List.sum_append, unfound_cons]
        cases hget : KeyMap.get? doc.components.schemas name with
        | none =>
          have hless := visits_withoutKey_le name (doc.unfound found)
          simp only [Option.toList_none, List.map_nil, List.sum_nil]
          omega
        | some component =>
          have hmem : (name, component) ∈ doc.unfound found :=
            List.mem_filter.mpr ⟨KeyMap.mem_of_get? hget, decide_eq_true hnew⟩
          have hless := visits_add_le hmem
          simp only [Option.toList_some, List.map_cons, List.map_nil, List.sum_cons, List.sum_nil]
          omega

/-- As long as there is a schema to visit, a visit uses one up. -/
theorem visitsLeft_next_lt (doc : Document) {x : Search} (h : x.todo ≠ []) :
    doc.visitsLeft (doc.next x) < doc.visitsLeft x := by
  obtain ⟨found, todo⟩ := x
  cases todo with
  | nil => exact absurd rfl h
  | cons s todo => exact visitsLeft_visit_lt doc found s todo

/-- So the search is over after the visits that are counted at its start. -/
theorem todo_iterate (doc : Document) {n : Nat} {x : Search} (h : doc.visitsLeft x ≤ n) : (doc.next^[n] x).todo = [] := by
  induction n generalizing x with
  | zero =>
    by_contra htodo
    have := doc.visitsLeft_next_lt (show x.todo ≠ [] from htodo)
    omega
  | succ n ih =>
    by_cases htodo : x.todo = []
    · have hover : doc.next x = x := by
        rw [next, htodo]
      rw [Function.iterate_fixed hover]
      exact htodo
    · have := doc.visitsLeft_next_lt htodo
      rw [Function.iterate_succ_apply]
      exact ih (by omega)

/-! ## What a search finds -/

/-- The names that will have been found when the search is over. -/
def searched (doc : Document) (x : Search) : List String :=
  reachFrom (x.found.foldr withoutKey doc.components.schemas) x.found (x.todo.flatMap Schema.directRefs)

theorem unopened_foldr (schemas : KeyMap Schema) (found : List String) :
    Unopened schemas (found.foldr withoutKey schemas) found := by
  induction found with
  | nil => exact fun _ _ => rfl
  | cons name found ih => exact ih.open

theorem withoutKey_of_get? {m : KeyMap Schema} (h : KeyMap.get? m name = none) : withoutKey name m = m := by
  refine List.filter_eq_self.mpr ?_
  intro e he
  refine decide_eq_true ?_
  intro heq
  exact KeyMap.get?_eq_none_iff.mp h (heq ▸ List.mem_map_of_mem he)

theorem reachFrom_of_mem {pending : KeyMap Schema} {rest : List String} (h : name ∈ found) :
    reachFrom pending found (name :: rest) = reachFrom pending found rest := by
  rw [reachFrom, if_pos (List.contains_iff_mem.mpr h)]

theorem reachFrom_of_not_mem {pending : KeyMap Schema} {rest : List String} (h : name ∉ found) :
    reachFrom pending found (name :: rest) = reachFrom (withoutKey name pending) (name :: found)
      ((KeyMap.get? pending name).toList.flatMap Schema.directRefs ++ rest) := by
  rw [reachFrom, if_neg (mt List.contains_iff_mem.mp h)]
  split
  · rename_i hget
    simp only [hget, withoutKey_of_get? hget, Option.toList_none, List.flatMap_nil, List.nil_append]
  · rename_i s hget
    simp only [hget, Option.toList_some, List.flatMap_singleton]

theorem searched_visit (doc : Document) (found : List String) (s : Schema) (todo : List Schema) :
    doc.searched (doc.visit found s todo) = doc.searched ⟨found, s :: todo⟩ := by
  unfold visit
  split
  · rename_i hreference
    simp only [searched, List.flatMap_append, List.flatMap_cons]
    rw [s.directRefs_eq]
    simp only [hreference]
  · rename_i target hreference
    have hrefs : s.directRefs = (schemaRefName? target).toList := by
      rw [s.directRefs_eq]
      simp only [hreference]
    split
    · rename_i hname
      simp only [searched, List.flatMap_cons, hrefs, hname, Option.toList_none, List.nil_append]
    · rename_i name hname
      simp only [searched, List.flatMap_cons, hrefs, hname, Option.toList_some, List.singleton_append]
      by_cases hfound : name ∈ found
      · rw [if_pos hfound, reachFrom_of_mem hfound]
      · rw [if_neg hfound, reachFrom_of_not_mem hfound, unopened_foldr _ _ _ hfound, List.flatMap_append]
        rfl

theorem searched_next (doc : Document) (x : Search) : doc.searched (doc.next x) = doc.searched x := by
  obtain ⟨found, todo⟩ := x
  cases todo with
  | nil => rfl
  | cons s todo => exact searched_visit doc found s todo

theorem searched_iterate (doc : Document) (n : Nat) (x : Search) : doc.searched (doc.next^[n] x) = doc.searched x := by
  induction n generalizing x with
  | zero => rfl
  | succ n ih => rw [Function.iterate_succ_apply, ih, searched_next]

/-- A search ends with what the whole of it finds. -/
theorem iterate_next (doc : Document) (x : Search) :
    doc.next^[doc.visitsLeft x] x = ⟨doc.searched x, []⟩ := by
  have htodo := doc.todo_iterate (Nat.le_refl (doc.visitsLeft x))
  have hsearched := searched_iterate doc (doc.visitsLeft x) x
  generalize doc.next^[doc.visitsLeft x] x = y at htodo hsearched ⊢
  obtain ⟨found, todo⟩ := y
  cases htodo
  rw [← hsearched]
  simp only [searched, List.flatMap_nil, reachFrom]

theorem nodup_reachFrom {pending : KeyMap Schema} {seen names : List String} (h : seen.Nodup) :
    (reachFrom pending seen names).Nodup := by
  fun_induction reachFrom pending seen names with
  | case1 pending seen => exact h
  | case2 pending seen name rest hseen ih => exact ih h
  | case3 pending seen name rest hseen hget ih =>
    exact ih (List.nodup_cons.mpr ⟨mt List.contains_iff_mem.mpr hseen, h⟩)
  | case4 pending seen name rest hseen s hget hlt ih =>
    exact ih (List.nodup_cons.mpr ⟨mt List.contains_iff_mem.mpr hseen, h⟩)

end Document

open Document in
/-- The search for the components of an operation, from the schemas that it mentions, is over after as
    many visits as these and all components count, with each name found once: the
    names that links lead to, where no keyword beside a reference is followed. -/
theorem operationReach_search (doc : Document) (op : Operation) (ofPath : List (RefOr ParameterSpec)) :
    doc.next^[doc.visitsLeft ⟨[], doc.operationSchemas op ofPath⟩] ⟨[], doc.operationSchemas op ofPath⟩ =
        ⟨doc.operationReach op ofPath, []⟩ ∧
      (doc.operationReach op ofPath).Nodup ∧
      ∀ name, name ∈ doc.operationReach op ofPath ↔
        ∃ s, doc.Mentions op ofPath s ∧ Relation.ReflTransGen doc.Follows (.schema s) (.component name) := by
  refine ⟨iterate_next doc _, nodup_reachFrom List.nodup_nil, ?_⟩
  intro name
  simp only [mem_operationReach, mem_operationSchemas, reflTransGen_follows_iff]

/-- The response of an operation has properties beside a reference. -/
def besideReference : Schema :=
  { Schema.blank with
    reference := some "#/components/schemas/Pet"
    properties := some [("owner", { Schema.blank with reference := some "#/components/schemas/Owner" })] }

def listPets : Operation :=
  ⟨["pets"], none, none, some "list", [], none,
    [("200", .item ⟨some "ok", [("application/json", ⟨some besideReference⟩)]⟩)], false, []⟩

def petOwners : Document :=
  { openapi := "3.0.3", info := ⟨"Pets", "1", none⟩, servers := [], tags := []
    paths := [("/pets", ⟨none, none, none, [(.get, listPets)], []⟩)]
    components := ⟨[("Owner", { Schema.blank with type := some (.single "object"), properties := some [] }),
      ("Pet", { Schema.blank with type := some (.single "object"), properties := some [] })], [], [], []⟩ }

open Document in
/-- A link leads from the property to its component, but the reference beside it hides it. -/
theorem owner_hidden_by_reference :
    (∃ s, petOwners.Mentions listPets [] s ∧ Relation.ReflTransGen petOwners.Link (.schema s) (.component "Owner")) ∧
      "Owner" ∉ petOwners.operationReach listPets [] := by
  constructor
  · refine ⟨besideReference, .response List.mem_cons_self rfl List.mem_cons_self rfl, ?_⟩
    exact .head (.inner (.property rfl List.mem_cons_self)) (.single (.reference rfl (by decide)))
  · have hrefs : besideReference.directRefs = ["Pet"] := by
      rw [Schema.directRefs_eq]
      show (schemaRefName? "#/components/schemas/Pet").toList = ["Pet"]
      decide
    have hreach : petOwners.operationReach listPets [] = ["Pet"] := by
      show reachFrom petOwners.components.schemas [] (besideReference.directRefs ++ []) = ["Pet"]
      rw [hrefs, List.append_nil, reachFrom_of_not_mem List.not_mem_nil]
      show reachFrom _ ["Pet"] ((Schema.directRefs { Schema.blank with
        type := some (.single "object"), properties := some [] } ++ []) ++ []) = ["Pet"]
      rw [Schema.directRefs_eq]
      show reachFrom _ ["Pet"] [] = ["Pet"]
      rw [reachFrom]
    rw [hreach]
    decide

end ClientGen

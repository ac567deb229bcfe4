import Mathlib
import ClientGen.Proofs.Errors.Marked
import ClientGen.Proofs.Grouping.Reach
import ClientGen.Proofs.Merge.First

/-
  ClientGen.Proofs.Grouping.Owner — where the declarations of components go.

  Tags are taken in their order. A tag takes the components that its operations reach, and the
  response components that they use, unless a tag before has taken them; what is left over is
  shared. So each goes to the least tag that reaches or uses it (`LeastTag`), all of its
  declarations together, and to no other place.
  - `groupings_take_schema` follows one component through the groupings.
  - Response components are only declared when they are taken (`ResponsesDeclared`);
    `groupings_take_responses` says so for those that the groupings take.
  - `build_places` puts both together for the whole build.
-/

namespace ClientGen

/-! ## Tags that need a component -/

/-- Some operation under the tag reaches the component. -/
def Document.ReachedUnder (doc : Document) (key tag : String) : Prop :=
  ∃ e ∈ doc.endpoints, e.operation.tag = tag ∧
    ∃ s ∈ doc.operationSchemas e.operation e.item.parameters, doc.Reaches s key

/-- Some operation under the tag has a response that refers to the component. -/
def Document.UsedUnder (doc : Document) (key tag : String) : Prop :=
  ∃ e ∈ doc.endpoints, e.operation.tag = tag ∧
    ∃ entry ∈ e.operation.responses, ∃ target, entry.2 = .ref target ∧ Name.lastSegment target = key

def LeastTag (takes : String → Prop) (tag : String) : Prop := takes tag ∧ ∀ other, takes other → tag ≤ other

section Taking

variable {takes : String → Prop} {tag : String} {rest : List String}

theorem leastTag_first (hsorted : (tag :: rest).Pairwise (· < ·)) (h : takes tag) :
    LeastTag (fun t => t ∈ tag :: rest ∧ takes t) tag := by
  refine ⟨⟨List.mem_cons_self, h⟩, ?_⟩
  rintro other ⟨hother, -⟩
  rcases List.mem_cons.mp hother with rfl | hother
  · exact String.le_refl other
  · exact Std.le_of_lt ((List.pairwise_cons.mp hsorted).1 other hother)

theorem LeastTag.later {t : String} (hleast : LeastTag (fun t => t ∈ rest ∧ takes t) t) (h : ¬ takes tag) :
    LeastTag (fun t => t ∈ tag :: rest ∧ takes t) t := by
  obtain ⟨⟨hmem, ht⟩, hle⟩ := hleast
  refine ⟨⟨List.mem_cons_of_mem tag hmem, ht⟩, ?_⟩
  rintro other ⟨hother, hothertakes⟩
  rcases List.mem_cons.mp hother with rfl | hother
  · exact absurd hothertakes h
  · exact hle other ⟨hother, hothertakes⟩

end Taking

theorem infix_flatMap_snd {entries : KeyMap (List Declaration)} {key : String} {own : List Declaration}
    (h : (key, own) ∈ entries) : own <:+: entries.flatMap (·.2) := by
  obtain ⟨before, after, rfl⟩ := List.append_of_mem h
  refine ⟨before.flatMap (·.2), after.flatMap (·.2), ?_⟩
  rw [List.flatMap_append, List.flatMap_cons, List.append_assoc]

namespace Resolve

variable {doc : Document} {fuel : Nat} {s s' s'' : Session}

/-! ## Component schemas -/

def operationsUnder (operations : List TaggedOperation) (tag : String) : List TaggedOperation :=
  operations.filter (·.tag = tag)

/-- A component goes to the first tag whose operations reach it, or it is left. -/
theorem groupings_take_schema {operations : List TaggedOperation} {tags : List String}
    (hsorted : tags.Pairwise (· < ·)) {left left' : Unclaimed} {gs : List Grouping}
    (h : Runs (groupings doc fuel operations left tags) s (gs, left') s') {key : String} {own : List Declaration}
    (hentry : (key, own) ∈ left.schemas) :
    (∃ g ∈ gs, LeastTag (fun tag => tag ∈ tags ∧ key ∈ reachedBy (operationsUnder operations tag)) g.tag ∧
        own <:+: g.declarations) ∨
      (∀ tag ∈ tags, key ∉ reachedBy (operationsUnder operations tag)) ∧ (key, own) ∈ left'.schemas := by
  induction tags generalizing s left gs with
  | nil =>
    simp only [groupings, runs_pure, Prod.mk.injEq] at h
    obtain ⟨⟨rfl, rfl⟩, -⟩ := h
    exact .inr ⟨fun tag htag => absurd htag List.not_mem_nil, hentry⟩
  | cons tag rest ih =>
    obtain ⟨g, mid, t, more, hg, hrest, rfl⟩ := runs_groupings_cons h
    obtain ⟨responseTypes, -, hdeclarations, -, htag, -, rfl⟩ := runs_grouping hg
    by_cases hreached : key ∈ reachedBy (operationsUnder operations tag)
    · refine .inl ⟨g, List.mem_cons_self, ?_, ?_⟩
      · rw [htag]
        exact leastTag_first hsorted hreached
      · have htaken : (key, own) ∈ left.schemas.filter fun e =>
            (reachedBy (operationsUnder operations tag)).contains e.1 :=
          List.mem_filter.mpr ⟨hentry, List.contains_iff_mem.mpr hreached⟩
        rw [hdeclarations, List.append_assoc, List.append_assoc, List.append_assoc]
        exact (infix_flatMap_snd htaken).trans (List.prefix_append _ _).isInfix
    · have hleft : (key, own) ∈ left.schemas.filter fun e =>
          !(reachedBy (operationsUnder operations tag)).contains e.1 := by
        refine List.mem_filter.mpr ⟨hentry, ?_⟩
        simpa using hreached
      rcases ih (List.pairwise_cons.mp hsorted).2 hrest hleft with ⟨g', hg', hleast, hwithin⟩ | ⟨hnone, hin⟩
      · exact .inl ⟨g', List.mem_cons_of_mem g hg', hleast.later hreached, hwithin⟩
      · exact .inr ⟨List.forall_mem_cons.mpr ⟨hreached, hnone⟩, hin⟩

/-! ## Response components -/

/-- Response components are declared one after the other. -/
inductive ResponsesDeclared (doc : Document) (fuel : Nat) : Session → KeyMap (List Declaration) → Session → Prop
  | nil (s : Session) : ResponsesDeclared doc fuel s [] s
  | cons {s t s' : Session} {key : String} {r : ResponseSpec} {own : List Declaration}
      {rest : KeyMap (List Declaration)} : KeyMap.get? doc.components.responses key = some r →
      Runs (declareResponseComponent doc fuel key r) s own t → ResponsesDeclared doc fuel t rest s' →
      ResponsesDeclared doc fuel s ((key, own) :: rest) s'

theorem ResponsesDeclared.append {front back : KeyMap (List Declaration)}
    (h : ResponsesDeclared doc fuel s front s') (h' : ResponsesDeclared doc fuel s' back s'') :
    ResponsesDeclared doc fuel s (front ++ back) s'' := by
  induction h with
  | nil _ => exact h'
  | cons hget hown _ ih => exact .cons hget hown (ih h')

theorem ResponsesDeclared.plain {parts : KeyMap (List Declaration)} (h : ResponsesDeclared doc fuel s parts s') :
    ∀ e ∈ parts, ∀ d ∈ e.2, d.isEncoder = false := by
  induction h with
  | nil _ => exact fun e he => absurd he List.not_mem_nil
  | cons _ hown _ ih => exact List.forall_mem_cons.mpr ⟨(declareResponseComponent_emits hown).plain, ih⟩

theorem responsesDeclared_of_runs {keys : List String} (hkeys : ∀ key ∈ keys, key ∈ doc.components.responses.keys)
    {ds : List Declaration} (h : Runs (declareResponses doc fuel keys) s ds s') :
    ∃ parts : KeyMap (List Declaration), parts.keys = keys ∧ ResponsesDeclared doc fuel s parts s' ∧
      ds = parts.flatMap (·.2) := by
  induction keys generalizing s ds with
  | nil =>
    simp only [declareResponses, runs_pure] at h
    obtain ⟨rfl, rfl⟩ := h
    exact ⟨[], rfl, .nil s, rfl⟩
  | cons key rest ih =>
    obtain ⟨hkey, hrest⟩ := List.forall_mem_cons.mp hkeys
    obtain ⟨own, t, more, hown, hruns, rfl⟩ := runs_declareResponses_cons h
    obtain ⟨parts, rfl, hparts, rfl⟩ := ih hrest hruns
    rcases hown with ⟨hnone, -, -⟩ | ⟨r, hget, hown⟩
    · exact absurd hkey (KeyMap.get?_eq_none_iff.mp hnone)
    · exact ⟨(key, own) :: parts, rfl, .cons hget hown hparts, rfl⟩

/-- The response components that groupings declare: each is among those that were left, and goes to
    the first tag whose operations use it. -/
structure Taken (operations : List TaggedOperation) (tags : List String) (left left' : List String) (gs : List Grouping)
    (parts : KeyMap (List Declaration)) : Prop where
  owner : ∀ e ∈ parts, ∃ g ∈ gs,
    LeastTag (fun tag => tag ∈ tags ∧ e.1 ∈ usedBy (operationsUnder operations tag)) g.tag ∧ e.2 <:+: g.declarations
  were_left : ∀ key ∈ parts.keys, key ∈ left
  taken_or_left : ∀ key ∈ left, key ∈ parts.keys ∨ key ∈ left'
  still_left : ∀ key ∈ left', key ∈ left ∧ ∀ tag ∈ tags, key ∉ usedBy (operationsUnder operations tag)

theorem mem_taking {used left : List String} {key : String} :
    key ∈ used.filter left.contains ↔ key ∈ used ∧ key ∈ left := by
  rw [List.mem_filter, List.contains_iff_mem]

theorem mem_leaving {used left : List String} {key : String} :
    key ∈ left.filter (!used.contains ·) ↔ key ∈ left ∧ key ∉ used := by
  rw [List.mem_filter, Bool.not_eq_true', ← Bool.not_eq_true, List.contains_iff_mem]

/-- The first tag takes what its operations use, and the later ones take of what it leaves. -/
theorem Taken.first {operations : List TaggedOperation} {tag : String} {rest left left' : List String} {g : Grouping}
    {more : List Grouping} {own parts : KeyMap (List Declaration)} (hsorted : (tag :: rest).Pairwise (· < ·))
    (htag : g.tag = tag) (hkeys : own.keys = (usedBy (operationsUnder operations tag)).filter left.contains)
    (hown : ∀ e ∈ own, e.2 <:+: g.declarations)
    (h : Taken operations rest (left.filter (!(usedBy (operationsUnder operations tag)).contains ·)) left' more parts) :
    Taken operations (tag :: rest) left left' (g :: more) (own ++ parts) := by
  have hownKey : ∀ key ∈ own.keys, key ∈ usedBy (operationsUnder operations tag) ∧ key ∈ left := fun key hkey =>
    mem_taking.mp (hkeys ▸ hkey)
  have hpartKey : ∀ key ∈ parts.keys, key ∈ left ∧ key ∉ usedBy (operationsUnder operations tag) := fun key hkey =>
    mem_leaving.mp (h.were_left key hkey)
  have hall : (own ++ parts).keys = own.keys ++ parts.keys := List.map_append
  constructor
  case owner =>
    refine List.forall_mem_append.mpr ⟨?_, ?_⟩
    · intro e he
      refine ⟨g, List.mem_cons_self, ?_, hown e he⟩
      rw [htag]
      exact leastTag_first hsorted (hownKey e.1 (List.mem_map_of_mem he)).1
    · intro e he
      obtain ⟨g', hg', hleast, hwithin⟩ := h.owner e he
      exact ⟨g', List.mem_cons_of_mem g hg', hleast.later (hpartKey e.1 (List.mem_map_of_mem he)).2, hwithin⟩
  case were_left =>
    intro key hkey
    rw [hall] at hkey
    rcases List.mem_append.mp hkey with hkey | hkey
    · exact (hownKey key hkey).2
    · exact (hpartKey key hkey).1
  case taken_or_left =>
    intro key hkey
    rw [hall, List.mem_append, hkeys]
    by_cases hin : key ∈ usedBy (operationsUnder operations tag)
    · exact .inl (.inl (mem_taking.mpr ⟨hin, hkey⟩))
    · exact (h.taken_or_left key (mem_leaving.mpr ⟨hkey, hin⟩)).imp_left .inr
  case still_left =>
    intro key hkey
    obtain ⟨hin, hnone⟩ := h.still_left key hkey
    obtain ⟨hleft, hunused⟩ := mem_leaving.mp hin
    exact ⟨hleft, List.forall_mem_cons.mpr ⟨hunused, hnone⟩⟩

theorem groupings_take_responses {operations : List TaggedOperation} {tags : List String}
    (hsorted : tags.Pairwise (· < ·)) {left left' : Unclaimed} {gs : List Grouping}
    (hleft : ∀ key ∈ left.responses, key ∈ doc.components.responses.keys)
    (h : Runs (groupings doc fuel operations left tags) s (gs, left') s') :
    ∃ parts, ResponsesDeclared doc fuel s parts s' ∧
      Taken operations tags left.responses left'.responses gs parts := by
  induction tags generalizing s left gs with
  | nil =>
    simp only [groupings, runs_pure, Prod.mk.injEq] at h
    obtain ⟨⟨rfl, rfl⟩, rfl⟩ := h
    refine ⟨[], .nil s, fun e he => absurd he List.not_mem_nil, fun key hkey => absurd hkey List.not_mem_nil,
      fun key hkey => .inr hkey, fun key hkey => ⟨hkey, fun tag htag => absurd htag List.not_mem_nil⟩⟩
  | cons tag rest ih =>
    obtain ⟨g, mid, t, more, hg, hrest, rfl⟩ := runs_groupings_cons h
    obtain ⟨responseTypes, hruns, hdeclarations, -, htag, -, rfl⟩ := runs_grouping hg
    obtain ⟨own, hkeys, hown, rfl⟩ := responsesDeclared_of_runs (fun key hkey => hleft key (mem_taking.mp hkey).2) hruns
    obtain ⟨parts, hparts, htaken⟩ :=
      ih (List.pairwise_cons.mp hsorted).2 (fun key hkey => hleft key (mem_leaving.mp hkey).1) hrest
    refine ⟨own ++ parts, hown.append hparts, .first hsorted htag hkeys ?_ htaken⟩
    intro e he
    rw [hdeclarations]
    exact (infix_flatMap_snd he).trans (List.suffix_append _ _).isInfix

/-! ## Operations and endpoints -/

theorem mem_usedBy {operations : List TaggedOperation} {key : String} :
    key ∈ usedBy operations ↔ ∃ o ∈ operations, key ∈ o.mapped.responseRefs := by
  rw [usedBy, mem_firstByKey_id, List.mem_flatMap]

theorem mem_responseRefsOf {responses : KeyMap (RefOr ResponseSpec)} {key : String} :
    key ∈ responseRefsOf responses ↔
      ∃ entry ∈ responses, ∃ target, entry.2 = .ref target ∧ Name.lastSegment target = key := by
  rw [responseRefsOf, mem_firstByKey_id, List.mem_filterMap]
  constructor
  · rintro ⟨⟨code, r⟩, hentry, hr⟩
    cases r with
    | ref target =>
      cases hr
      exact ⟨_, hentry, target, rfl, rfl⟩
    | item spec => cases hr
  · rintro ⟨⟨code, r⟩, hentry, target, rfl, rfl⟩
    exact ⟨_, hentry, rfl⟩

/-- What holds of the operations under a tag holds of the endpoints with the tag. -/
theorem Phases.exists_under_iff (p : Phases doc fuel) {P : TaggedOperation → Prop} {Q : Endpoint → Prop}
    (h : ∀ e o, MappedFrom doc fuel e o → (P o ↔ Q e)) (tag : String) :
    (tag ∈ tagsOf p.operations ∧ ∃ o ∈ operationsUnder p.operations tag, P o) ↔
      ∃ e ∈ doc.endpoints, e.operation.tag = tag ∧ Q e := by
  have hendpoints := p.mapping.endpoints
  constructor
  · rintro ⟨-, o, ho, hP⟩
    obtain ⟨hin, htag⟩ := List.mem_filter.mp ho
    obtain ⟨e, he, heo⟩ := exists_of_forall₂ hendpoints hin
    exact ⟨e, he, heo.tag.symm.trans (of_decide_eq_true htag), (h e o heo).mp hP⟩
  · rintro ⟨e, he, htag, hQ⟩
    obtain ⟨o, ho, heo⟩ := exists_of_forall₂ hendpoints.flip he
    have hotag : o.tag = tag := heo.tag.trans htag
    exact ⟨mem_tagsOf.mpr ⟨o, ho, hotag⟩, o, List.mem_filter.mpr ⟨ho, decide_eq_true hotag⟩, (h e o heo).mpr hQ⟩

theorem Phases.reachedUnder_iff (p : Phases doc fuel) (key tag : String) :
    (tag ∈ tagsOf p.operations ∧ key ∈ reachedBy (operationsUnder p.operations tag)) ↔ doc.ReachedUnder key tag := by
  rw [reachedBy, List.mem_flatMap]
  refine p.exists_under_iff ?_ tag
  intro e o heo
  rw [heo.schemas, mem_operationReach]

theorem Phases.usedUnder_iff (p : Phases doc fuel) (key tag : String) :
    (tag ∈ tagsOf p.operations ∧ key ∈ usedBy (operationsUnder p.operations tag)) ↔ doc.UsedUnder key tag := by
  rw [mem_usedBy]
  refine p.exists_under_iff ?_ tag
  intro e o heo
  obtain ⟨s, s', hruns⟩ := heo.runs
  obtain ⟨-, -, -, -, -, -, -, -, -, -, -, hrefs, -, -⟩ := runs_mapOperation hruns
  rw [hrefs, mem_responseRefsOf]

theorem tagsOf_sorted (operations : List TaggedOperation) : (tagsOf operations).Pairwise (· < ·) :=
  List.pairwise_map.mpr (KeyMap.sorted_ofList _)

end Resolve

/-! ## Places -/

namespace ApiModel

/-- The declarations stand together in the grouping of the least tag that takes them, or with what
    is shared if no tag does, and their names are declared nowhere else. -/
structure Places (m : ApiModel) (takes : String → Prop) (own : List Declaration) : Prop where
  grouped : (∃ tag, takes tag) → ∃ g ∈ m.groupings, LeastTag takes g.tag ∧ own <:+: g.declarations
  shared : (∀ tag, ¬ takes tag) → own <:+: m.shared
  once : ∀ d ∈ own, (declaredNames m.declarations).count d.name = 1

theorem mem_declarations_of_grouping {m : ApiModel} {g : Grouping} {d : Declaration} (hg : g ∈ m.groupings)
    (hd : d ∈ g.declarations) : d ∈ m.declarations :=
  List.mem_append_left _ (List.mem_flatMap.mpr ⟨g, hg, hd⟩)

/-- In a model without double names it is enough to find the place. -/
theorem places_of_nodup {m : ApiModel} {takes : String → Prop} {own : List Declaration}
    (hnodup : (declaredNames m.declarations).Nodup) (hplain : ∀ d ∈ own, d.isEncoder = false)
    (hplace : (∃ g ∈ m.groupings, LeastTag takes g.tag ∧ own <:+: g.declarations) ∨
      (∀ tag, ¬ takes tag) ∧ own <:+: m.shared) : m.Places takes own where
  grouped := by
    rintro ⟨tag, htag⟩
    rcases hplace with hgrouped | ⟨hnone, -⟩
    · exact hgrouped
    · exact absurd htag (hnone tag)
  shared := by
    intro hnone
    rcases hplace with ⟨g, -, hleast, -⟩ | ⟨-, hshared⟩
    · exact absurd hleast.1 (hnone g.tag)
    · exact hshared
  once := by
    intro d hd
    have hin : d ∈ m.declarations := by
      rcases hplace with ⟨g, hg, -, hwithin⟩ | ⟨-, hwithin⟩
      · exact mem_declarations_of_grouping hg (hwithin.subset hd)
      · exact List.mem_append_right _ (hwithin.subset hd)
    have hname : d.name ∈ declaredNames m.declarations := by
      refine List.mem_map_of_mem (List.mem_filter.mpr ⟨hin, ?_⟩)
      rw [hplain d hd]
      rfl
    exact List.count_eq_one_of_mem hnodup hname

end ApiModel

namespace Resolve

variable {doc : Document} {fuel : Nat}

/-- Marked errors stay where they were. -/
theorem Phases.places (p : Phases doc fuel) {m : ApiModel}
    (hgroupings : m.groupings = p.sortedGroups.map fun g =>
      { g with declarations := markErrors p.errors g.declarations })
    (hshared : m.shared = markErrors p.errors p.shared) (hnodup : (declaredNames m.declarations).Nodup)
    {takes : String → Prop} {own : List Declaration} (hplain : ∀ d ∈ own, d.isEncoder = false)
    (hplace : (∃ g ∈ p.groups, LeastTag takes g.tag ∧ own <:+: g.declarations) ∨
      (∀ tag, ¬ takes tag) ∧ own <:+: p.shared) : m.Places takes (markErrors p.errors own) := by
  refine ApiModel.places_of_nodup hnodup ?_ ?_
  · intro d hd
    obtain ⟨made, hmade, rfl⟩ := List.mem_map.mp hd
    split
    · rw [isEncoder_markError]
      exact hplain made hmade
    · exact hplain made hmade
  · rcases hplace with ⟨g, hg, hleast, hwithin⟩ | ⟨hnone, hwithin⟩
    · refine .inl ⟨{ g with declarations := markErrors p.errors g.declarations }, ?_, hleast, hwithin.map _⟩
      rw [hgroupings]
      exact List.mem_map_of_mem ((sortBy_perm _ _).mem_iff.mpr hg)
    · exact .inr ⟨hnone, hshared ▸ hwithin.map _⟩

/-- The components as declared, under their keys. -/
theorem declareComponents_keys {schemas : KeyMap Schema} {components : KeyMap (List Declaration)} {s s' : Session}
    (h : Runs (declareComponents doc fuel schemas) s components s') : components.keys = schemas.keys := by
  induction schemas generalizing s components with
  | nil =>
    simp only [declareComponents, runs_pure] at h
    obtain ⟨rfl, -⟩ := h
    rfl
  | cons e rest ih =>
    obtain ⟨ds, t, more, -, hrest, rfl⟩ := runs_declareComponents_cons h
    exact congrArg (e.1 :: ·) (ih hrest)

/-- A component schema is in the grouping of the first tag that reaches it, or shared. -/
theorem Phases.schema_place (p : Phases doc fuel) {key : String} {own : List Declaration}
    (h : (key, own) ∈ p.components) :
    (∃ g ∈ p.groups, LeastTag (doc.ReachedUnder key) g.tag ∧ own <:+: g.declarations) ∨
      (∀ tag, ¬ doc.ReachedUnder key tag) ∧ own <:+: p.shared := by
  have htakes : (fun tag => tag ∈ tagsOf p.operations ∧ key ∈ reachedBy (operationsUnder p.operations tag)) =
      doc.ReachedUnder key := funext fun tag => propext (p.reachedUnder_iff key tag)
  rcases groupings_take_schema (tagsOf_sorted _) p.runsGroups h with hgrouped | ⟨hnone, hleft⟩
  · exact .inl (htakes ▸ hgrouped)
  · refine .inr ⟨?_, ?_⟩
    · intro tag htag
      obtain ⟨hmem, hreached⟩ := (p.reachedUnder_iff key tag).mpr htag
      exact hnone tag hmem hreached
    · have hin := infix_flatMap_snd hleft
      exact (hin.trans (List.suffix_append _ _).isInfix).trans (List.prefix_append _ _).isInfix

/-- So is a response component, declared by the groupings or after them. -/
theorem Phases.response_places (p : Phases doc fuel) :
    ∃ parts, ResponsesDeclared doc fuel p.afterOperations parts p.final ∧
      (∀ key, key ∈ parts.keys ↔ key ∈ doc.components.responses.keys) ∧
      ∀ e ∈ parts, (∃ g ∈ p.groups, LeastTag (doc.UsedUnder e.1) g.tag ∧ e.2 <:+: g.declarations) ∨
        (∀ tag, ¬ doc.UsedUnder e.1 tag) ∧ e.2 <:+: p.shared := by
  have htakes (key : String) : (fun tag => tag ∈ tagsOf p.operations ∧ key ∈ usedBy (operationsUnder p.operations tag)) =
      doc.UsedUnder key := funext fun tag => propext (p.usedUnder_iff key tag)
  obtain ⟨taken, htaken, hplaces⟩ := groupings_take_responses (tagsOf_sorted _) (fun _ hkey => hkey) p.runsGroups
  obtain ⟨rest, hkeys, hrest, hshared⟩ :=
    responsesDeclared_of_runs (fun key hkey => (hplaces.still_left key hkey).1) p.runsResponses
  refine ⟨taken ++ rest, htaken.append hrest, ?_, List.forall_mem_append.mpr ⟨?_, ?_⟩⟩
  · intro key
    have happend : (taken ++ rest).keys = taken.keys ++ rest.keys := List.map_append
    rw [happend, List.mem_append, hkeys]
    constructor
    · rintro (hin | hin)
      · exact hplaces.were_left key hin
      · exact (hplaces.still_left key hin).1
    · exact hplaces.taken_or_left key
  · intro e he
    exact .inl (htakes e.1 ▸ hplaces.owner e he)
  · intro e he
    have hkey : e.1 ∈ rest.keys := List.mem_map_of_mem he
    refine .inr ⟨?_, ?_⟩
    · intro tag htag
      obtain ⟨hmem, hused⟩ := (p.usedUnder_iff e.1 tag).mpr htag
      exact (hplaces.still_left e.1 (hkeys ▸ hkey)).2 tag hmem hused
    · rw [Phases.shared, hshared]
      exact (infix_flatMap_snd he).trans (List.suffix_append _ _).isInfix

/-- What was declared for the components of a document has its place in a model. -/
structure Phases.Placed (p : Phases doc fuel) (m : ApiModel) : Prop where
  keys : p.components.keys = doc.components.schemas.keys
  schemas : ∀ e ∈ p.components, m.Places (doc.ReachedUnder e.1) (markErrors p.errors e.2)
  responses : ∃ parts, ResponsesDeclared doc fuel p.afterOperations parts p.final ∧
    (∀ key, key ∈ parts.keys ↔ key ∈ doc.components.responses.keys) ∧
    ∀ e ∈ parts, m.Places (doc.UsedUnder e.1) (markErrors p.errors e.2)

end Resolve

open Resolve in
/-- A build puts what it declares for a component into one place: for a schema by the operations that
    reach it, for a response by those that refer to it. -/
theorem build_places {doc : Document} {fuel : Nat} {config : Config} {model : ApiModel} {ds : List Diagnostic}
    (h : build fuel doc config = .ok (model, ds)) :
    ∃ p : Phases doc fuel, Runs (buildModel doc config fuel) .start model p.final ∧ p.Placed model := by
  obtain ⟨s', hrun, -⟩ := runs_of_build h
  have hnodup := (declaredNames_model hrun).2
  obtain ⟨p, rfl, hgroupings, hshared, -⟩ := runs_buildModel hrun
  refine ⟨p, hrun, ?_⟩
  constructor
  case keys => exact declareComponents_keys p.runsComponents
  case schemas =>
    rintro ⟨key, own⟩ he
    have hplain : ∀ d ∈ own, d.isEncoder = false := by
      intro d hd
      exact (declareComponents_emits p.runsComponents).plain d (List.mem_flatMap.mpr ⟨(key, own), he, hd⟩)
    exact p.places hgroupings hshared hnodup hplain (p.schema_place he)
  case responses =>
    obtain ⟨parts, hparts, hkeys, hplaces⟩ := p.response_places
    refine ⟨parts, hparts, hkeys, ?_⟩
    intro e he
    exact p.places hgroupings hshared hnodup (hparts.plain e he) (hplaces e he)

/-- A `GET` with one response. -/
def replying (tag : String) (response : RefOr ResponseSpec) : PathItem :=
  ⟨none, none, none, [(.get, ⟨[tag], none, none, some tag, [], none, [("200", response)], false, []⟩)], []⟩

/-- Two tags, the greater of them first, use a component that refers to another, and that to it. -/
def sharedSchema : Document :=
  let reply := .item ⟨none, [("application/json", ⟨some { Schema.blank with reference := some "#/components/schemas/A" }⟩)]⟩
  { openapi := "3.0.0", info := ⟨"t", "1", none⟩, servers := [], tags := []
    paths := [("/a", replying "b" reply), ("/b", replying "a" reply)]
    components :=
      ⟨[("A", { Schema.blank with reference := some "#/components/schemas/B" }),
        ("B", { Schema.blank with reference := some "#/components/schemas/A" })], [], [], []⟩ }

/-- They refer to one response component; another is not used. -/
def sharedResponse : Document :=
  { openapi := "3.0.0", info := ⟨"t", "1", none⟩, servers := [], tags := []
    paths := [("/a", replying "b" (.ref "#/components/responses/R")), ("/b", replying "a" (.ref "#/components/responses/R"))]
    components := ⟨[], [("Q", ⟨none, []⟩), ("R", ⟨none, []⟩)], [], []⟩ }

open Resolve in
theorem build_places_shared :
    (∃ model ds, build 4 sharedSchema ⟨"p", "P"⟩ = .ok (model, ds) ∧
      model.groupings.map (fun g => (g.tag, declaredNames g.declarations)) = [("a", ["A", "B"]), ("b", [])] ∧
      ∃ p : Phases sharedSchema 4, Runs (buildModel sharedSchema ⟨"p", "P"⟩ 4) .start model p.final ∧ p.Placed model) ∧
    ∃ model ds, build 4 sharedResponse ⟨"p", "P"⟩ = .ok (model, ds) ∧
      model.groupings.map (fun g => (g.tag, g.declarations.length)) = [("a", 1), ("b", 0)] ∧ model.shared.length = 3 ∧
      ∃ p : Phases sharedResponse 4, Runs (buildModel sharedResponse ⟨"p", "P"⟩ 4) .start model p.final ∧
        p.Placed model := by
  constructor
  · obtain ⟨model, ds, h, htest⟩ := @Resolve.exists_build_of_passes sharedSchema 4 ⟨"p", "P"⟩
      (fun m _ => m.groupings.map (fun g => (g.tag, declaredNames g.declarations)) = [("a", ["A", "B"]), ("b", [])])
      (by cbv)
    exact ⟨model, ds, h, of_decide_eq_true htest, build_places h⟩
  · obtain ⟨model, ds, h, htest⟩ := @Resolve.exists_build_of_passes sharedResponse 4 ⟨"p", "P"⟩
      (fun m _ => m.groupings.map (fun g => (g.tag, g.declarations.length)) = [("a", 1), ("b", 0)] ∧ m.shared.length = 3)
      (by decide +kernel)
    obtain ⟨hgroupings, hshared⟩ := of_decide_eq_true htest
    exact ⟨model, ds, h, hgroupings, hshared, build_places h⟩

end ClientGen

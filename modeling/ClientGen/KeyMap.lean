/-
  ClientGen.KeyMap — finite maps from text keys, listed in the order of their keys.

  Keys are ordered by code point, which is also the order of their UTF-8 bytes. Every map of
  a document is read into this form, so nothing downstream depends on the order in which a
  document lists its entries.
  - `insert` keeps the keys strictly increasing (`Sorted`), and the last value of a key.
-/

namespace ClientGen

abbrev KeyMap (α : Type u) := List (String × α)

namespace KeyMap

variable {α : Type u} {β : Type v}

def get? (m : KeyMap α) (key : String) : Option α := m.lookup key

def keys (m : KeyMap α) : List String := m.map (·.1)

def contains (m : KeyMap α) (key : String) : Bool := (m.get? key).isSome

def insert (key : String) (value : α) : KeyMap α → KeyMap α
  | [] => [(key, value)]
  | (k, v) :: rest =>
    if key = k then (key, value) :: rest
    else if key < k then (key, value) :: (k, v) :: rest
    else (k, v) :: insert key value rest

/-- Change the value of a key that is there. -/
def modify (key : String) (f : α → α) (m : KeyMap α) : KeyMap α :=
  m.map fun (k, v) => if k = key then (k, f v) else (k, v)

def ofList (entries : List (String × α)) : KeyMap α := entries.foldl (fun m (k, v) => insert k v m) []

def Sorted (m : KeyMap α) : Prop := m.Pairwise (fun a b => a.1 < b.1)

/-! ## Lookup after insertion -/

theorem mem_keys_insert {key k : String} {value : α} {m : KeyMap α} :
    k ∈ keys (insert key value m) ↔ k = key ∨ k ∈ keys m := by
  induction m with
  | nil => simp [insert, keys]
  | cons e m ih =>
    obtain ⟨k', v'⟩ := e
    simp only [insert]
    split
    · rename_i h; subst h; simp [keys]
    · split
      · simp [keys]
      · have : k ∈ keys (insert key value m) ↔ k = key ∨ k ∈ keys m := ih
        simp only [keys, List.map_cons, List.mem_cons] at this ⊢
        rw [this]
        constructor
        · rintro (h | h | h) <;> simp [h]
        · rintro (h | h | h) <;> simp [h]

theorem get?_cons_self (key : String) (value : α) (m : KeyMap α) : get? ((key, value) :: m) key = some value :=
  List.lookup_cons_self

theorem get?_cons_of_ne {key k : String} (h : k ≠ key) (value : α) (m : KeyMap α) :
    get? ((key, value) :: m) k = get? m k := by
  have hk : (k == key) = false := by simpa using h
  rw [get?, List.lookup_cons, hk]
  rfl

theorem get?_insert_self (key : String) (value : α) (m : KeyMap α) :
    get? (insert key value m) key = some value := by
  induction m with
  | nil => simp [insert, get?]
  | cons e m ih =>
    obtain ⟨k', v'⟩ := e
    simp only [insert]
    split
    · exact get?_cons_self _ _ _
    · rename_i hne
      split
      · exact get?_cons_self _ _ _
      · rw [get?_cons_of_ne hne]
        exact ih

theorem get?_insert_of_ne {key k : String} (h : k ≠ key) (value : α) (m : KeyMap α) :
    get? (insert key value m) k = get? m k := by
  induction m with
  | nil => exact get?_cons_of_ne h _ _
  | cons e m ih =>
    obtain ⟨k', v'⟩ := e
    simp only [insert]
    split
    · rename_i he
      subst he
      rw [get?_cons_of_ne h, get?_cons_of_ne h]
    · split
      · exact get?_cons_of_ne h _ _
      · by_cases hk : k = k'
        · subst hk
          rw [get?_cons_self, get?_cons_self]
        · rw [get?_cons_of_ne hk, get?_cons_of_ne hk]
          exact ih

theorem get?_eq_none_iff {m : KeyMap α} {key : String} : get? m key = none ↔ key ∉ keys m := by
  induction m with
  | nil => simp [get?, keys]
  | cons e m ih =>
    obtain ⟨k, v⟩ := e
    by_cases hk : key = k
    · subst hk
      simp [get?_cons_self, keys]
    · rw [get?_cons_of_ne hk, ih]
      simp [keys, hk]

theorem mem_keys_of_get? {m : KeyMap α} {key : String} {value : α} (h : get? m key = some value) :
    key ∈ keys m := by
  by_cases hk : key ∈ keys m
  · exact hk
  · rw [get?_eq_none_iff.mpr hk] at h; cases h

theorem mem_of_get? {m : KeyMap α} {key : String} {value : α} (h : get? m key = some value) : (key, value) ∈ m := by
  induction m with
  | nil => simp [get?] at h
  | cons e m ih =>
    obtain ⟨k, v⟩ := e
    by_cases hk : key = k
    · subst hk
      rw [get?_cons_self, Option.some.injEq] at h
      exact h ▸ List.mem_cons_self
    · rw [get?_cons_of_ne hk] at h
      exact List.mem_cons_of_mem _ (ih h)

theorem get?_of_mem {m : KeyMap α} {key : String} {value : α} (hkeys : (keys m).Nodup) (h : (key, value) ∈ m) :
    get? m key = some value := by
  induction m with
  | nil => cases h
  | cons e m ih =>
    obtain ⟨k, v⟩ := e
    obtain ⟨hk, hm⟩ := List.nodup_cons.mp hkeys
    rcases List.mem_cons.mp h with heq | hin
    · cases heq
      exact get?_cons_self _ _ _
    · have hkey : key ∈ keys m := List.mem_map_of_mem hin
      have hne : key ≠ k := fun heq => hk (heq ▸ hkey)
      rw [get?_cons_of_ne hne]
      exact ih hm hin

theorem keys_insert_perm {key : String} {m : KeyMap α} (h : key ∉ keys m) (value : α) :
    (keys (insert key value m)).Perm (key :: keys m) := by
  induction m with
  | nil => exact .refl _
  | cons e m ih =>
    obtain ⟨k, v⟩ := e
    simp only [keys, List.map_cons, List.mem_cons, not_or] at h
    simp only [insert, h.1, if_false]
    split
    · exact .refl _
    · exact ((ih h.2).cons k).trans (.swap key k _)

/-! ## Order -/

theorem Sorted.insert {m : KeyMap α} (h : Sorted m) (key : String) (value : α) : Sorted (insert key value m) := by
  induction m with
  | nil => simp [KeyMap.insert, Sorted]
  | cons e m ih =>
    obtain ⟨k, v⟩ := e
    have hk : ∀ x ∈ keys m, k < x := by
      intro x hx
      obtain ⟨e, he, rfl⟩ := List.mem_map.mp hx
      exact (List.pairwise_cons.mp h).1 e he
    have hm : Sorted m := (List.pairwise_cons.mp h).2
    simp only [KeyMap.insert]
    split
    · rename_i heq
      subst heq
      exact List.pairwise_cons.mpr (List.pairwise_cons.mp h)
    · rename_i hne
      split
      · rename_i hlt
        refine List.pairwise_cons.mpr ⟨fun e he => ?_, h⟩
        rcases List.mem_cons.mp he with rfl | he
        · exact hlt
        · exact String.lt_trans hlt (hk _ (List.mem_map_of_mem he))
      · rename_i hnlt
        refine List.pairwise_cons.mpr ⟨fun e he => ?_, ih hm⟩
        rcases mem_keys_insert.mp (List.mem_map_of_mem he) with heq | hin
        · rw [heq]
          exact Std.lt_of_le_of_ne (String.not_lt.mp hnlt) (Ne.symm hne)
        · exact hk _ hin

theorem Sorted.nodup_keys {m : KeyMap α} (h : Sorted m) : (keys m).Nodup :=
  List.pairwise_map.mpr (List.Pairwise.imp String.ne_of_lt h)

/-- The order is one of keys only. -/
theorem Sorted.of_keys {m : KeyMap α} {m' : KeyMap β} (h : Sorted m) (hkeys : keys m' = keys m) : Sorted m' := by
  have hlt : (keys m').Pairwise (· < ·) := hkeys ▸ List.pairwise_map.mpr h
  exact List.pairwise_map.mp hlt

theorem sorted_foldl_insert {m : KeyMap α} (h : Sorted m) (entries : List (String × α)) :
    Sorted (entries.foldl (fun m (k, v) => KeyMap.insert k v m) m) := by
  induction entries generalizing m with
  | nil => exact h
  | cons e rest ih => exact ih (h.insert e.1 e.2)

theorem sorted_ofList (entries : List (String × α)) : Sorted (ofList entries) :=
  sorted_foldl_insert List.Pairwise.nil entries

theorem mem_keys_foldl_insert {k : String} {m : KeyMap α} {entries : List (String × α)} :
    k ∈ keys (entries.foldl (fun m (k, v) => KeyMap.insert k v m) m) ↔ k ∈ keys m ∨ k ∈ keys entries := by
  induction entries generalizing m with
  | nil => simp [keys]
  | cons e rest ih =>
    rw [List.foldl_cons, ih, mem_keys_insert, show keys (e :: rest) = e.1 :: keys rest from rfl, List.mem_cons]
    constructor
    · rintro ((h | h) | h) <;> simp [h]
    · rintro (h | h | h) <;> simp [h]

theorem mem_of_mem_insert {key : String} {value : α} {m : KeyMap α} {e : String × α} (h : e ∈ insert key value m) :
    e = (key, value) ∨ e ∈ m := by
  induction m with
  | nil => exact .inl (List.mem_singleton.mp h)
  | cons first m ih =>
    simp only [insert] at h
    split at h
    · exact (List.mem_cons.mp h).imp_right (List.mem_cons_of_mem first)
    · split at h
      · exact List.mem_cons.mp h
      · rcases List.mem_cons.mp h with rfl | h
        · exact .inr List.mem_cons_self
        · exact (ih h).imp_right (List.mem_cons_of_mem first)

theorem mem_of_mem_foldl_insert {m : KeyMap α} {entries : List (String × α)} {e : String × α}
    (h : e ∈ entries.foldl (fun m (k, v) => KeyMap.insert k v m) m) : e ∈ m ∨ e ∈ entries := by
  induction entries generalizing m with
  | nil => exact .inl h
  | cons first rest ih =>
    rcases ih h with h | h
    · rcases mem_of_mem_insert h with rfl | h
      · exact .inr List.mem_cons_self
      · exact .inl h
    · exact .inr (List.mem_cons_of_mem first h)

theorem mem_of_mem_ofList {entries : List (String × α)} {e : String × α} (h : e ∈ ofList entries) : e ∈ entries :=
  (mem_of_mem_foldl_insert h).resolve_left List.not_mem_nil

theorem mem_keys_ofList {k : String} {entries : List (String × α)} : k ∈ keys (ofList entries) ↔ k ∈ keys entries := by
  rw [ofList, mem_keys_foldl_insert]
  simp [keys]

/-- Entries with different keys are all kept. -/
theorem mem_ofList {entries : List (String × α)} (h : (keys entries).Nodup) {e : String × α} :
    e ∈ ofList entries ↔ e ∈ entries := by
  refine ⟨mem_of_mem_ofList, ?_⟩
  intro he
  have hkey : e.1 ∈ keys (ofList entries) := mem_keys_ofList.mpr (List.mem_map_of_mem he)
  obtain ⟨e', he', heq⟩ := List.mem_map.mp hkey
  have hin : (e.1, e'.2) ∈ entries := heq ▸ mem_of_mem_ofList he'
  have hvalue := get?_of_mem h hin
  rw [get?_of_mem h he, Option.some.injEq] at hvalue
  rwa [show e = e' from Prod.ext heq.symm hvalue]

theorem get?_ofList {entries : List (String × α)} (h : (keys entries).Nodup) {key : String} {value : α} :
    get? (ofList entries) key = some value ↔ (key, value) ∈ entries := by
  constructor
  · intro hget
    exact mem_of_mem_ofList (mem_of_get? hget)
  · intro he
    exact get?_of_mem (sorted_ofList entries).nodup_keys ((mem_ofList h).mpr he)

/-- Entries decide what their keys get, whatever was there before. -/
theorem get?_foldl_insert_congr {key : String} {entries : List (String × α)} {m m' : KeyMap α}
    (h : key ∈ keys entries ∨ get? m key = get? m' key) :
    get? (entries.foldl (fun m (k, v) => insert k v m) m) key =
      get? (entries.foldl (fun m (k, v) => insert k v m) m') key := by
  induction entries generalizing m m' with
  | nil => exact h.resolve_left List.not_mem_nil
  | cons e rest ih =>
    refine ih ?_
    by_cases hkey : key = e.1
    · rw [hkey, get?_insert_self, get?_insert_self]
      exact .inr rfl
    · rw [get?_insert_of_ne hkey, get?_insert_of_ne hkey]
      exact h.imp_left fun hin => (List.mem_cons.mp hin).resolve_left hkey

/-- Later entries count. -/
theorem get?_ofList_append {key : String} (first : List (String × α)) {entries : List (String × α)}
    (h : key ∈ keys entries) : get? (ofList (first ++ entries)) key = get? (ofList entries) key := by
  rw [ofList, List.foldl_append]
  exact get?_foldl_insert_congr (.inl h)

/-! ## Changing a value -/

@[simp] theorem keys_modify (key : String) (f : α → α) (m : KeyMap α) : keys (modify key f m) = keys m := by
  simp only [keys, modify, List.map_map]
  apply List.map_congr_left
  rintro ⟨k, v⟩ -
  simp only [Function.comp_apply]
  split <;> rfl

theorem get?_modify (key : String) (f : α → α) (m : KeyMap α) (k : String) :
    get? (modify key f m) k = if k = key then (get? m k).map f else get? m k := by
  induction m with
  | nil => simp [modify, get?]
  | cons e m ih =>
    obtain ⟨k', v⟩ := e
    have hcons : modify key f ((k', v) :: m) = (k', if k' = key then f v else v) :: modify key f m := by
      simp only [modify, List.map_cons]
      split <;> rfl
    rw [hcons]
    by_cases hk : k = k'
    · subst hk
      rw [get?_cons_self, get?_cons_self]
      split <;> rfl
    · rw [get?_cons_of_ne hk, get?_cons_of_ne hk]
      exact ih

end KeyMap

end ClientGen

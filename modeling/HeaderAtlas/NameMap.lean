/-!
# Tables keyed by name

A `NameMap` is a list of bindings in strictly increasing order of their names.
The order is part of the type, so there is exactly one map with given contents:
two maps that answer every lookup alike are equal (`NameMap.ext_get?`), and
listing a map is listing its names in order.
-/

namespace HeaderAtlas

/-- A finite map from names to values. -/
structure NameMap (α : Type) where
  /-- The bindings. -/
  entries : List (String × α)
  /-- Names strictly increase along the list. -/
  sorted : entries.Pairwise (·.1 < ·.1)
deriving DecidableEq

namespace NameMap

variable {α β : Type}

/-! ## Bindings as a plain list -/

/-- The value bound to `name`. -/
def find? (name : String) : List (String × α) → Option α
  | [] => none
  | (k, v) :: rest => if k = name then some v else find? name rest

/-- Binds `name` to `value` in its place, replacing an earlier binding. -/
def insertIn (name : String) (value : α) : List (String × α) → List (String × α)
  | [] => [(name, value)]
  | (k, v) :: rest =>
    if name < k then (name, value) :: (k, v) :: rest
    else if k < name then (k, v) :: insertIn name value rest
    else (name, value) :: rest

theorem mem_insertIn {name : String} {value : α} {l : List (String × α)} {b : String × α}
    (h : b ∈ insertIn name value l) : b = (name, value) ∨ b ∈ l := by
  induction l with
  | nil => simpa [insertIn] using h
  | cons e rest ih =>
    obtain ⟨k, v⟩ := e
    rw [insertIn] at h
    split at h
    · simpa using h
    · split at h
      · rcases List.mem_cons.mp h with h | h
        · exact Or.inr (by simp [h])
        · rcases ih h with h | h
          · exact Or.inl h
          · exact Or.inr (List.mem_cons_of_mem _ h)
      · rcases List.mem_cons.mp h with h | h
        · exact Or.inl h
        · exact Or.inr (List.mem_cons_of_mem _ h)

/-- Names that are not ordered either way are equal. -/
theorem eq_of_not_lt {a b : String} (hab : ¬ a < b) (hba : ¬ b < a) : a = b :=
  String.le_antisymm (String.not_lt.mp hba) (String.not_lt.mp hab)

theorem pairwise_insertIn (name : String) (value : α) {l : List (String × α)}
    (h : l.Pairwise (·.1 < ·.1)) : (insertIn name value l).Pairwise (·.1 < ·.1) := by
  induction l with
  | nil => simp [insertIn]
  | cons e rest ih =>
    obtain ⟨k, v⟩ := e
    obtain ⟨hk, hrest⟩ := List.pairwise_cons.mp h
    rw [insertIn]
    split
    · next hlt =>
      refine List.pairwise_cons.mpr ⟨?_, h⟩
      intro b hb
      rcases List.mem_cons.mp hb with rfl | hb
      · exact hlt
      · exact String.lt_trans hlt (hk b hb)
    · split
      · next hgt =>
        refine List.pairwise_cons.mpr ⟨?_, ih hrest⟩
        intro b hb
        rcases mem_insertIn hb with rfl | hb
        · exact hgt
        · exact hk b hb
      · next hnlt hngt =>
        have : name = k := eq_of_not_lt hnlt hngt
        subst this
        exact List.pairwise_cons.mpr ⟨hk, hrest⟩

/-! ## Operations -/

/-- No bindings. -/
def empty : NameMap α := ⟨[], .nil⟩

instance : Inhabited (NameMap α) := ⟨empty⟩
instance : EmptyCollection (NameMap α) := ⟨empty⟩

/-- The value bound to `name`. -/
def get? (m : NameMap α) (name : String) : Option α := find? name m.entries

/-- Is `name` bound? -/
def contains (m : NameMap α) (name : String) : Bool := (m.get? name).isSome

/-- Binds `name`, replacing an earlier binding. -/
def insert (m : NameMap α) (name : String) (value : α) : NameMap α :=
  ⟨insertIn name value m.entries, pairwise_insertIn name value m.sorted⟩

/-- Binds `name` unless it is bound already. -/
def insertIfNew (m : NameMap α) (name : String) (value : α) : NameMap α :=
  if m.contains name then m else m.insert name value

/-- Removes the binding of `name`. -/
def erase (m : NameMap α) (name : String) : NameMap α :=
  ⟨m.entries.filter (·.1 ≠ name), m.sorted.filter _⟩

/-- Changes every value. -/
def map (f : α → β) (m : NameMap α) : NameMap β :=
  ⟨m.entries.map fun (k, v) => (k, f v), by
    rw [List.pairwise_map]; exact m.sorted⟩

/-- The bindings of a list, later ones replacing earlier ones. -/
def ofList (bindings : List (String × α)) : NameMap α :=
  bindings.foldl (fun m (k, v) => m.insert k v) empty

/-- The bound names, in order. -/
def names (m : NameMap α) : List String := m.entries.map (·.1)

/-- The values, in the order of their names. -/
def values (m : NameMap α) : List α := m.entries.map (·.2)

/-- The number of bindings. -/
def size (m : NameMap α) : Nat := m.entries.length

/-! ## What a lookup answers -/

@[simp] theorem get?_empty (name : String) : (empty : NameMap α).get? name = none := rfl

theorem find?_insertIn (name other : String) (value : α) (l : List (String × α)) :
    find? other (insertIn name value l) = if name = other then some value else find? other l := by
  induction l with
  | nil => simp [insertIn, find?]
  | cons e rest ih =>
    obtain ⟨k, v⟩ := e
    rw [insertIn]
    split
    · rw [find?]
    · split
      · next hgt =>
        have hne : name ≠ k := fun h => String.lt_irrefl _ (h ▸ hgt)
        rw [find?, find?, ih]
        by_cases hko : k = other
        · have : name ≠ other := hko ▸ hne
          simp [hko, this]
        · simp [hko]
      · next hnlt hngt =>
        have : name = k := eq_of_not_lt hnlt hngt
        subst this
        rw [find?, find?]
        split <;> rfl

/-- An insertion changes the answer for its own name and no other. -/
theorem get?_insert (m : NameMap α) (name other : String) (value : α) :
    (m.insert name value).get? other = if name = other then some value else m.get? other :=
  find?_insertIn ..

@[simp] theorem get?_insert_self (m : NameMap α) (name : String) (value : α) :
    (m.insert name value).get? name = some value := by simp [get?_insert]

theorem find?_eq_none_iff {name : String} {l : List (String × α)} :
    find? name l = none ↔ ∀ b ∈ l, b.1 ≠ name := by
  induction l with
  | nil => simp [find?]
  | cons e rest ih =>
    obtain ⟨k, v⟩ := e
    by_cases h : k = name <;> simp [find?, h, ih]

theorem find?_filter_ne (name other : String) (l : List (String × α)) :
    find? other (l.filter (·.1 ≠ name)) = if name = other then none else find? other l := by
  induction l with
  | nil => simp [find?]
  | cons e rest ih =>
    obtain ⟨k, v⟩ := e
    rw [List.filter_cons]
    by_cases hk : k = name
    · subst hk
      simp only [ne_eq, not_true_eq_false, decide_false, Bool.false_eq_true, if_false]
      rw [ih, find?]
      split <;> rfl
    · simp only [ne_eq, hk, not_false_eq_true, decide_true, if_true]
      rw [find?, ih, find?]
      by_cases hko : k = other
      · have : name ≠ other := fun h => hk (hko.trans h.symm)
        simp [hko, this]
      · simp [hko]

/-- An erasure changes the answer for its own name and no other. -/
theorem get?_erase (m : NameMap α) (name other : String) :
    (m.erase name).get? other = if name = other then none else m.get? other :=
  find?_filter_ne ..

theorem find?_eq_some_of_mem {l : List (String × α)} (h : l.Pairwise (·.1 < ·.1))
    {name : String} {value : α} (hm : (name, value) ∈ l) : find? name l = some value := by
  induction l with
  | nil => simp at hm
  | cons e rest ih =>
    obtain ⟨k, v⟩ := e
    obtain ⟨hk, hrest⟩ := List.pairwise_cons.mp h
    rcases List.mem_cons.mp hm with he | hm
    · obtain ⟨rfl, rfl⟩ := Prod.mk.inj he
      simp [find?]
    · have hlt := hk _ hm
      have hne : k ≠ name := fun h => String.lt_irrefl _ (h ▸ hlt)
      simp [find?, hne, ih hrest hm]

theorem mem_of_find?_eq_some {l : List (String × α)} {name : String} {value : α}
    (h : find? name l = some value) : (name, value) ∈ l := by
  induction l with
  | nil => simp [find?] at h
  | cons e rest ih =>
    obtain ⟨k, v⟩ := e
    by_cases hk : k = name
    · simp [find?, hk] at h; simp [h, hk]
    · simp [find?, hk] at h; exact List.mem_cons_of_mem _ (ih h)

/-- A map answers with a value exactly where it has that binding. -/
theorem get?_eq_some_iff {m : NameMap α} {name : String} {value : α} :
    m.get? name = some value ↔ (name, value) ∈ m.entries :=
  ⟨mem_of_find?_eq_some, find?_eq_some_of_mem m.sorted⟩

theorem entries_eq_of_find? {l r : List (String × α)} (hl : l.Pairwise (·.1 < ·.1))
    (hr : r.Pairwise (·.1 < ·.1)) (h : ∀ name, find? name l = find? name r) : l = r := by
  induction l generalizing r with
  | nil =>
    cases r with
    | nil => rfl
    | cons e r => have := h e.1; simp [find?] at this
  | cons e l ih =>
    obtain ⟨k, v⟩ := e
    cases r with
    | nil => have := h k; simp [find?] at this
    | cons e' r =>
      obtain ⟨k', v'⟩ := e'
      obtain ⟨hk, hlt⟩ := List.pairwise_cons.mp hl
      obtain ⟨hk', hrt⟩ := List.pairwise_cons.mp hr
      have absent {q : String} {s : List (String × α)} (hs : ∀ b ∈ s, q < b.1) :
          find? q s = none :=
        find?_eq_none_iff.mpr fun b hb he => String.lt_irrefl _ (he ▸ hs b hb)
      -- The two heads carry the least name of either list.
      have hkk : k = k' := by
        apply eq_of_not_lt
        · intro hlt
          have := h k
          rw [find?, if_pos rfl, find?, if_neg (fun he => String.lt_irrefl _ (he ▸ hlt))] at this
          rw [absent (fun b hb => String.lt_trans hlt (hk' b hb))] at this
          simp at this
        · intro hlt
          have := h k'
          rw [find?, if_neg (fun he => String.lt_irrefl _ (he ▸ hlt)), find?, if_pos rfl] at this
          rw [absent (fun b hb => String.lt_trans hlt (hk b hb))] at this
          simp at this
      subst hkk
      have hv : v = v' := by have := h k; simpa [find?] using this
      subst hv
      congr 1
      apply ih hlt hrt
      intro name
      by_cases hn : k = name
      · subst hn; rw [absent hk, absent hk']
      · have := h name; simpa [find?, hn] using this

/-- Maps that answer every lookup alike are equal. -/
theorem ext_get? {m n : NameMap α} (h : ∀ name, m.get? name = n.get? name) : m = n := by
  obtain ⟨l, hl⟩ := m
  obtain ⟨r, hr⟩ := n
  have := entries_eq_of_find? hl hr h
  subst this
  rfl

/-- The later of two bindings of a name counts. -/
theorem insert_insert (m : NameMap α) (name : String) (value value' : α) :
    (m.insert name value).insert name value' = m.insert name value' := by
  refine ext_get? fun other => ?_
  rw [get?_insert, get?_insert, get?_insert]
  split <;> rfl

theorem get?_map (f : α → β) (m : NameMap α) (name : String) :
    (m.map f).get? name = (m.get? name).map f := by
  unfold get? map
  dsimp only
  induction m.entries with
  | nil => rfl
  | cons e l ih =>
    obtain ⟨k, v⟩ := e
    rw [List.map_cons, find?, find?, ih]
    split <;> rfl

theorem map_insert (f : α → β) (m : NameMap α) (name : String) (value : α) :
    (m.insert name value).map f = (m.map f).insert name (f value) := by
  refine ext_get? fun other => ?_
  rw [get?_map, get?_insert, get?_insert, get?_map]
  split <;> rfl

/-- A change of the values goes into the bindings that are added. -/
theorem map_foldl_insert (f : α → β) (bindings : List (String × α)) (m : NameMap α) :
    (bindings.foldl (fun m (k, v) => m.insert k v) m).map f
      = (bindings.map fun (k, v) => (k, f v)).foldl (fun m (k, v) => m.insert k v) (m.map f) := by
  induction bindings generalizing m with
  | nil => rfl
  | cons b bs ih => rw [List.foldl_cons, ih, map_insert]; rfl

end NameMap

end HeaderAtlas

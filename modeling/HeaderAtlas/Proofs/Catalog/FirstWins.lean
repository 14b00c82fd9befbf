import HeaderAtlas.Catalog.Union

/-!
# The union of headers: the first one wins

The catalogue of a project starts empty and takes over one header after the other. A
lookup in any table but that of the macros then answers with the entry of the first
header that has the name (`get?_unionAll`, `usages_unionAll`).

A macro can be lost on the way. A function or a variable of its name drives it out, be it
in a header before or after; an enumerator only keeps out the macros that come with it or
after it. So the one table that a header can shrink is that of the macros, and what it
holds in the end depends on three other tables (`macros_unionAll`).
-/

namespace HeaderAtlas

namespace NameMap

variable {α : Type}

theorem get?_insertIfNew (m : NameMap α) (name other : String) (value : α) :
    (m.insertIfNew name value).get? other
      = (m.get? other <|> if name = other then some value else none) := by
  unfold insertIfNew contains
  cases hm : m.get? name with
  | some v =>
    by_cases hn : name = other
    · subst hn
      simp [hm]
    · simp [hn]
  | none =>
    by_cases hn : name = other
    · subst hn
      simp [hm]
    · simp [get?_insert, hn]

/-- Filtering bindings by their names. -/
theorem find?_filter_not (p : String → Bool) (name : String) (l : List (String × α)) :
    find? name (l.filter fun b => !p b.1) = if p name then none else find? name l := by
  induction l with
  | nil => simp [find?]
  | cons b l ih =>
    obtain ⟨k, v⟩ := b
    by_cases hk : k = name
    · subst hk
      cases hp : p k <;> simp_all [find?]
    · cases hp : p k <;> simp [find?, hk, hp, ih]

theorem mem_names_iff {m : NameMap α} {name : String} :
    name ∈ m.names ↔ m.contains name = true := by
  unfold names contains
  rw [Option.isSome_iff_exists, List.mem_map]
  constructor
  · rintro ⟨⟨k, v⟩, hb, rfl⟩
    exact ⟨v, get?_eq_some_iff.mpr hb⟩
  · rintro ⟨v, hv⟩
    exact ⟨(name, v), get?_eq_some_iff.mp hv, rfl⟩

end NameMap

namespace Catalog

/-! ## One table -/

theorem get?_unite1 (m : Merging) (b : String × Entry) (name : String) :
    (unite1 m b).1.get? name
      = (m.1.get? name <|> if b.1 = name then some b.2 else none) := by
  unfold unite1
  cases hm : m.1.get? b.1 with
  | some existing =>
    by_cases hb : b.1 = name
    · subst hb
      simp only [hm]
      split <;> simp [hm]
    · simp only [hb, if_false]
      split <;> simp
  | none =>
    by_cases hb : b.1 = name
    · subst hb
      simp [hm]
    · simp [NameMap.get?_insert, hb]

/-- What is there stays, whatever the bindings that are taken over. -/
theorem get?_foldl_unite1 (l : List (String × Entry)) (m : Merging) (name : String) :
    (l.foldl unite1 m).1.get? name = (m.1.get? name <|> NameMap.find? name l) := by
  induction l generalizing m with
  | nil => simp [NameMap.find?]
  | cons b l ih =>
    rw [List.foldl_cons, ih, get?_unite1, NameMap.find?]
    by_cases hb : b.1 = name <;> cases m.1.get? name <;> simp [hb]

theorem get?_uniteTable (into other : Table) (j : Journal) (name : String) :
    (uniteTable into other j).1.get? name = (into.get? name <|> other.get? name) :=
  get?_foldl_unite1 other.entries (into, j) name

theorem get?_uniteNew {α : Type} (into other : NameMap α) (name : String) :
    (uniteNew into other).get? name = (into.get? name <|> other.get? name) := by
  unfold uniteNew
  suffices ∀ l : List (String × α),
      (l.foldl (fun m p => m.insertIfNew p.1 p.2) into).get? name
        = (into.get? name <|> NameMap.find? name l) from this other.entries
  intro l
  induction l generalizing into with
  | nil => simp [NameMap.find?]
  | cons b l ih =>
    rw [List.foldl_cons, ih, NameMap.get?_insertIfNew, NameMap.find?]
    by_cases hb : b.1 = name <;> cases into.get? name <;> simp [hb]

theorem get?_without (t : Table) (names : List String) (name : String) :
    (without t names).get? name = if name ∈ names then none else t.get? name := by
  unfold without
  induction names generalizing t with
  | nil => simp
  | cons n names ih =>
    rw [List.foldl_cons, ih, NameMap.get?_erase]
    by_cases hn : n = name
    · simp [hn]
    · have hn' : ¬ name = n := fun h => hn h.symm
      simp [hn, hn']

/-! ## One union -/

/-- Has the catalogue a function or a variable of this name? -/
def declares (c : Catalog) (name : String) : Bool :=
  c.functions.contains name || c.vars.contains name

/-- Has it anything that a macro of this name gives way to on arrival? -/
def shadows (c : Catalog) (name : String) : Bool :=
  c.declares name || c.enumerators.contains name

theorem get?_union (c h : Catalog) (j : Journal) {shelf : Shelf} (hshelf : shelf ≠ .macros)
    (name : String) :
    ((c.union h j).1.table shelf).get? name
      = ((c.table shelf).get? name <|> (h.table shelf).get? name) := by
  cases shelf with
  | functions => exact get?_uniteTable ..
  | vars => exact get?_uniteTable ..
  | structs => exact get?_uniteTable ..
  | unions => exact get?_uniteTable ..
  | enumerators => exact get?_uniteTable ..
  | typedefs => exact get?_uniteTable ..
  | macros => exact absurd rfl hshelf
  | inclusions => exact get?_uniteNew ..

theorem usages_union (c h : Catalog) (j : Journal) (name : String) :
    (c.union h j).1.usages.get? name = (c.usages.get? name <|> h.usages.get? name) :=
  get?_uniteNew ..

theorem contains_union (c h : Catalog) (j : Journal) {shelf : Shelf} (hshelf : shelf ≠ .macros)
    (name : String) :
    ((c.union h j).1.table shelf).contains name
      = ((c.table shelf).contains name || (h.table shelf).contains name) := by
  unfold NameMap.contains
  rw [get?_union c h j hshelf]
  cases (c.table shelf).get? name <;> simp

theorem shadows_union (c h : Catalog) (j : Journal) (name : String) :
    (c.union h j).1.shadows name = (c.shadows name || h.shadows name) := by
  have hf := contains_union c h j (show Shelf.functions ≠ .macros by decide) name
  have hv := contains_union c h j (show Shelf.vars ≠ .macros by decide) name
  have he := contains_union c h j (show Shelf.enumerators ≠ .macros by decide) name
  simp only [table] at hf hv he
  simp only [shadows, declares, hf, hv, he]
  ac_rfl

/-- One header's effect on a macro: its own functions and variables drive the macro out,
and its own macro comes in if nothing shadows it, the header's enumerators included. -/
theorem macros_union (c h : Catalog) (j : Journal) (name : String) :
    (c.union h j).1.macros.get? name
      = if h.declares name then none
        else (c.macros.get? name <|>
          if c.shadows name || h.shadows name then none else h.macros.get? name) := by
  have hmacros : (c.union h j).1.macros.get? name
      = ((without (without c.macros h.functions.names) h.vars.names).get? name <|>
          NameMap.find? name
            (h.macros.entries.filter fun b => !(c.union h j).1.shadows b.1)) := by
    exact get?_foldl_unite1 ..
  rw [hmacros, get?_without, get?_without, NameMap.find?_filter_not, shadows_union]
  simp only [NameMap.mem_names_iff]
  cases hf : h.functions.contains name <;> cases hv : h.vars.contains name <;>
    simp [declares, shadows, hf, hv, NameMap.get?]

/-! ## The union of a list of headers -/

/-- Takes over the headers in order. -/
def unionAll (c : Catalog) (headers : List Catalog) (j : Journal) : Catalog × Journal :=
  headers.foldl (fun m h => m.1.union h m.2) (c, j)

@[simp] theorem unionAll_nil (c : Catalog) (j : Journal) : c.unionAll [] j = (c, j) := rfl

@[simp] theorem unionAll_cons (c h : Catalog) (hs : List Catalog) (j : Journal) :
    c.unionAll (h :: hs) j = (c.union h j).1.unionAll hs (c.union h j).2 := rfl

theorem get?_unionAll (c : Catalog) (headers : List Catalog) (j : Journal) {shelf : Shelf}
    (hshelf : shelf ≠ .macros) (name : String) :
    ((c.unionAll headers j).1.table shelf).get? name
      = ((c.table shelf).get? name <|>
          headers.findSome? fun h => (h.table shelf).get? name) := by
  induction headers generalizing c j with
  | nil => simp
  | cons h hs ih =>
    rw [unionAll_cons, ih, get?_union c h j hshelf, List.findSome?_cons]
    cases (c.table shelf).get? name <;> cases (h.table shelf).get? name <;> simp

theorem usages_unionAll (c : Catalog) (headers : List Catalog) (j : Journal) (name : String) :
    (c.unionAll headers j).1.usages.get? name
      = (c.usages.get? name <|> headers.findSome? fun h => h.usages.get? name) := by
  induction headers generalizing c j with
  | nil => simp
  | cons h hs ih =>
    rw [unionAll_cons, ih, usages_union, List.findSome?_cons]
    cases c.usages.get? name <;> cases h.usages.get? name <;> simp

/-- The macro that comes first, unless an enumerator comes before or with it. -/
def firstMacro (name : String) : List Catalog → Option Entry
  | [] => none
  | h :: hs =>
    if h.enumerators.contains name then none else h.macros.get? name <|> firstMacro name hs

theorem macros_unionAll (c : Catalog) (headers : List Catalog) (j : Journal) (name : String) :
    (c.unionAll headers j).1.macros.get? name
      = if headers.any (·.declares name) then none
        else (c.macros.get? name <|>
          if c.shadows name then none else firstMacro name headers) := by
  induction headers generalizing c j with
  | nil => simp [firstMacro]
  | cons h hs ih =>
    rw [unionAll_cons, ih, macros_union, shadows_union, List.any_cons]
    -- A declaration in a later header counts whatever `h` brings.
    cases hs.any (·.declares name) with
    | true => simp
    | false =>
      cases hd : h.declares name with
      | true => simp [shadows, hd]
      | false =>
        cases hc : c.shadows name <;> cases he : h.enumerators.contains name <;>
          cases c.macros.get? name <;> simp [firstMacro, shadows, hd, he]

theorem firstMacro_eq_some_iff {name : String} {headers : List Catalog} {e : Entry} :
    firstMacro name headers = some e ↔
      ∃ before h after, headers = before ++ h :: after ∧ h.macros.get? name = some e ∧
        (∀ g ∈ before, g.macros.get? name = none) ∧
        ∀ g ∈ before ++ [h], g.enumerators.contains name = false := by
  induction headers with
  | nil => simp [firstMacro]
  | cons h hs ih =>
    unfold firstMacro
    constructor
    · intro hm
      split at hm
      · cases hm
      · next hne =>
        have hne : h.enumerators.contains name = false := by simpa using hne
        cases hh : h.macros.get? name with
        | some e' =>
          refine ⟨[], h, hs, rfl, ?_, by simp, by simpa using hne⟩
          simpa [hh] using hm
        | none =>
          rw [hh] at hm
          obtain ⟨before, g, after, rfl, hg, hbefore, henum⟩ := ih.mp (by simpa using hm)
          exact ⟨h :: before, g, after, rfl, hg, by simpa [hh] using hbefore,
            by simpa [hne] using henum⟩
    · rintro ⟨before, g, after, heq, hg, hbefore, henum⟩
      cases before with
      | nil =>
        obtain ⟨rfl, rfl⟩ := List.cons.inj heq
        simp [henum h (by simp), hg]
      | cons b before =>
        rw [List.cons_append] at heq
        obtain ⟨rfl, rfl⟩ := List.cons.inj heq
        have hlater := ih.mpr ⟨before, g, after, rfl, hg,
          fun x hx => hbefore x (List.mem_cons_of_mem _ hx),
          fun x hx => henum x (List.mem_cons_of_mem _ hx)⟩
        simp [henum h (by simp), hbefore h (by simp), hlater]

/-- The union of headers, taken over into a fresh catalogue. -/
def ofHeaders (project : String) (headers : List Catalog) (j : Journal) : Catalog :=
  (unionAll { name := project } headers j).1

theorem macros_ofHeaders (project : String) (headers : List Catalog) (j : Journal)
    (name : String) :
    (ofHeaders project headers j).macros.get? name
      = if headers.any (·.declares name) then none else firstMacro name headers :=
  macros_unionAll { name := project } headers j name

/-- Every table of the union of headers. A table other than that of the macros has the
names of all headers, each with its first entry. A macro is there, with its first entry,
if no header has a function or a variable of its name and no header up to the first one
with the macro has such an enumerator. -/
theorem ofHeaders_firstWins (project : String) (headers : List Catalog) (j : Journal) :
    (∀ shelf, shelf ≠ .macros → ∀ name,
      ((ofHeaders project headers j).table shelf).get? name
        = headers.findSome? fun h => (h.table shelf).get? name) ∧
    (∀ name, (ofHeaders project headers j).usages.get? name
      = headers.findSome? fun h => h.usages.get? name) ∧
    (∀ name e, (ofHeaders project headers j).macros.get? name = some e ↔
      (∃ before h after, headers = before ++ h :: after ∧ h.macros.get? name = some e ∧
        (∀ g ∈ before, g.macros.get? name = none) ∧
        ∀ g ∈ before ++ [h], g.enumerators.contains name = false) ∧
      ∀ g ∈ headers, g.functions.contains name = false ∧ g.vars.contains name = false) := by
  refine ⟨?_, ?_, ?_⟩
  · intro shelf hshelf name
    have h := get?_unionAll { name := project } headers j hshelf name
    cases shelf <;> exact h
  · exact usages_unionAll { name := project } headers j
  · intro name e
    rw [macros_ofHeaders, ← firstMacro_eq_some_iff]
    cases hd : headers.any (·.declares name) with
    | true =>
      obtain ⟨g, hg, hdecl⟩ := List.any_eq_true.mp hd
      rw [declares, Bool.or_eq_true] at hdecl
      refine ⟨fun h => by simp at h, fun h => ?_⟩
      obtain ⟨hf, hv⟩ := h.2 g hg
      rcases hdecl with hdecl | hdecl
      · rw [hf] at hdecl; cases hdecl
      · rw [hv] at hdecl; cases hdecl
    | false =>
      have hnone : ∀ g ∈ headers,
          g.functions.contains name = false ∧ g.vars.contains name = false := by
        simpa [declares, List.any_eq_false, not_or] using hd
      exact ⟨fun h => ⟨h, hnone⟩, fun h => h.1⟩

/-- A header with one entry, made on the given line. -/
def oneEntry (file name : String) (category : Category) (line : Nat) : Catalog :=
  add { name := file } (.declaration name category { line := some line })

theorem firstWins_of_enumerator :
    (ofHeaders "p" [oneEntry "a.h" "M" .macroDef 1, oneEntry "b.h" "M" .enumerator 2,
        oneEntry "c.h" "M" .macroDef 3] []).macros.get? "M"
      = some (Entry.create "M" .macroDef { line := some 1 })
    ∧ (ofHeaders "p" [oneEntry "a.h" "M" .macroDef 1, oneEntry "b.h" "M" .enumerator 2,
        oneEntry "c.h" "M" .enumerator 3] []).enumerators.get? "M"
      = some (Entry.create "M" .enumerator { line := some 2 }) := by
  obtain ⟨-, -, hmacros⟩ := ofHeaders_firstWins "p" [oneEntry "a.h" "M" .macroDef 1,
    oneEntry "b.h" "M" .enumerator 2, oneEntry "c.h" "M" .macroDef 3] []
  obtain ⟨htables, -, -⟩ := ofHeaders_firstWins "p" [oneEntry "a.h" "M" .macroDef 1,
    oneEntry "b.h" "M" .enumerator 2, oneEntry "c.h" "M" .enumerator 3] []
  refine ⟨(hmacros "M" _).mpr ⟨⟨[], _, _, rfl, ?_, ?_, ?_⟩, ?_⟩,
    (htables .enumerators (by decide) "M").trans ?_⟩
  all_goals decide +kernel

end Catalog

end HeaderAtlas

import HeaderAtlas.Catalog.Basic

/-!
# The sightings of a name

A catalogue is filled from a list of findings, one after the other. The entry of a name
is made of the findings that declare this name in the same table, its sightings, and of
no others (`get?_foldl_add`). So what else is found, and when, does not matter to it.

The line and the guards of an entry are those of the last sighting. Nothing else in the
entry depends on them. The detail is told by one of the sightings (`exists_sighting`).
-/

namespace HeaderAtlas

namespace Catalog

namespace Finding

/-- Does the finding declare `name` in this table? -/
def isOf (shelf : Shelf) (name : String) : Finding → Bool
  | declaration n category _ => category.shelf = shelf && n = name
  | use .. => false

/-- The same finding, made on another line and, if they are given, under other
guards. -/
def moved (line : Nat) (guards : Option (List String)) : Finding → Finding
  | declaration name category o =>
    declaration name category { o with line := some line, guards := guards <|> o.guards }
  | use name role place => use name role place

@[simp] theorem isOf_moved (shelf : Shelf) (name : String) (line : Nat)
    (guards : Option (List String)) (f : Finding) :
    (f.moved line guards).isOf shelf name = f.isOf shelf name := by
  cases f <;> rfl

end Finding

/-- The findings that declare `name` in a table. -/
def sightings (shelf : Shelf) (name : String) (fs : List Finding) : List Finding :=
  fs.filter (·.isOf shelf name)

theorem sightings_cons (shelf : Shelf) (name : String) (f : Finding) (fs : List Finding) :
    sightings shelf name (f :: fs)
      = if f.isOf shelf name then f :: sightings shelf name fs else sightings shelf name fs :=
  List.filter_cons

/-- What becomes of an entry when its name is seen again, or for the first time. -/
def see (e? : Option Entry) : Finding → Option Entry
  | .declaration name category o =>
    if admits name then
      match e? with
      | some e => some (e.amend o)
      | none => some (Entry.create name category o)
    else e?
  | .use .. => e?

/-! ## Entries and sightings -/

/-- A use changes no table. -/
theorem table_recordUse (c : Catalog) (name : String) (role : Role) (place : Place)
    (shelf : Shelf) : (c.recordUse name role place).table shelf = c.table shelf := by
  unfold recordUse
  split
  · rfl
  · cases shelf <;> rfl

/-- A finding changes the entry that it declares and no other. -/
theorem get?_add (c : Catalog) (f : Finding) (shelf : Shelf) (name : String) :
    ((c.add f).table shelf).get? name
      = if f.isOf shelf name then see ((c.table shelf).get? name) f
        else (c.table shelf).get? name := by
  cases f with
  | use n role place => rw [add, table_recordUse]; rfl
  | declaration n category o =>
    simp only [add, record, see, Finding.isOf, Bool.and_eq_true, decide_eq_true_eq]
    by_cases hadmits : admits n = true
    · rw [if_pos hadmits, if_pos hadmits, table_setTable]
      by_cases hshelf : category.shelf = shelf
      · subst hshelf
        rw [if_pos rfl, NameMap.get?_insert]
        by_cases hname : n = name
        · subst hname
          rw [if_pos rfl, if_pos ⟨rfl, rfl⟩]
          split <;> simp_all
        · rw [if_neg hname, if_neg fun h => hname h.2]
      · rw [if_neg hshelf, if_neg fun h => hshelf h.1]
    · rw [if_neg hadmits, if_neg hadmits, ite_self]

/-- The entry of a name is made of its sightings. -/
theorem get?_foldl_add (c : Catalog) (fs : List Finding) (shelf : Shelf) (name : String) :
    ((fs.foldl add c).table shelf).get? name
      = (sightings shelf name fs).foldl see ((c.table shelf).get? name) := by
  induction fs generalizing c with
  | nil => rfl
  | cons f fs ih =>
    rw [List.foldl_cons, ih, get?_add, sightings, sightings, List.filter_cons]
    split
    · rfl
    · rfl

/-! ## The detail of an entry -/

/-- What is known of a symbol was known before, or it is told by the finding. -/
theorem detail_see {e? : Option Entry} {f : Finding} {e : Entry} {d : Detail}
    (h : see e? f = some e) (hd : e.detail = some d) :
    (∃ e₀, e? = some e₀ ∧ e₀.detail = some d)
      ∨ ∃ name category o, f = .declaration name category o ∧ o.detail = some d := by
  cases f with
  | use name role place => exact .inl ⟨e, h, hd⟩
  | declaration name category o =>
    simp only [see] at h
    split at h
    · cases e? with
      | none =>
        cases h
        exact .inr ⟨name, category, o, rfl, hd⟩
      | some e₀ =>
        cases h
        cases ho : o.detail with
        | none => exact .inl ⟨e₀, rfl, by simpa [Entry.amend, ho] using hd⟩
        | some d' => exact .inr ⟨name, category, o, rfl, by simpa [Entry.amend, ho] using hd⟩
    · exact .inl ⟨e, h, hd⟩

theorem detail_foldl_see {fs : List Finding} {e? : Option Entry} {e : Entry} {d : Detail}
    (h : fs.foldl see e? = some e) (hd : e.detail = some d) :
    (∃ e₀, e? = some e₀ ∧ e₀.detail = some d)
      ∨ ∃ name category o, .declaration name category o ∈ fs ∧ o.detail = some d := by
  induction fs generalizing e? with
  | nil => exact .inl ⟨e, h, hd⟩
  | cons f fs ih =>
    rcases ih h with ⟨e₁, he₁, hd₁⟩ | ⟨name, category, o, ho, hdo⟩
    · rcases detail_see he₁ hd₁ with hbefore | ⟨name, category, o, rfl, hdo⟩
      · exact .inl hbefore
      · exact .inr ⟨name, category, o, List.mem_cons_self, hdo⟩
    · exact .inr ⟨name, category, o, List.mem_cons_of_mem f ho, hdo⟩

/-- What is known of a symbol is told by one of its sightings. -/
theorem exists_sighting {fs : List Finding} {shelf : Shelf} {name : String} {e : Entry}
    {d : Detail} (h : (sightings shelf name fs).foldl see none = some e)
    (hd : e.detail = some d) :
    ∃ category o, .declaration name category o ∈ fs ∧ category.shelf = shelf
      ∧ o.detail = some d := by
  rcases detail_foldl_see h hd with ⟨e₀, he₀, -⟩ | ⟨n, category, o, hmem, hdo⟩
  · cases he₀
  · obtain ⟨hfound, hof⟩ := List.mem_filter.mp hmem
    simp only [Finding.isOf, Bool.and_eq_true, decide_eq_true_eq] at hof
    obtain ⟨hshelf, rfl⟩ := hof
    exact ⟨category, o, hfound, hshelf, hdo⟩

/-- A property of the entry that the first sighting brings about and every later one keeps. -/
theorem foldl_see_induction {P : Entry → Prop} {fs : List Finding}
    (hcreate : ∀ name category o, .declaration name category o ∈ fs →
      P (Entry.create name category o))
    (hamend : ∀ name category o e, .declaration name category o ∈ fs → P e → P (e.amend o))
    {e? : Option Entry} (he? : ∀ e₀, e? = some e₀ → P e₀) {e : Entry}
    (h : fs.foldl see e? = some e) : P e := by
  induction fs generalizing e? with
  | nil => exact he? e h
  | cons f fs ih =>
    refine ih (fun name category o ho => hcreate name category o (List.mem_cons_of_mem f ho))
      (fun name category o e₀ ho => hamend name category o e₀ (List.mem_cons_of_mem f ho)) ?_ h
    intro e₁ he₁
    cases f with
    | use name role place => exact he? e₁ he₁
    | declaration name category o =>
      simp only [see] at he₁
      split at he₁
      · split at he₁
        · next e₀ =>
          cases he₁
          exact hamend name category o e₀ List.mem_cons_self (he? e₀ rfl)
        · cases he₁
          exact hcreate name category o List.mem_cons_self
      · exact he? e₁ he₁

/-- An entry is of the category in which it was sighted first. -/
theorem exists_sighting_category {fs : List Finding} {shelf : Shelf} {name : String} {e : Entry}
    (h : (sightings shelf name fs).foldl see none = some e) :
    ∃ o, .declaration name e.category o ∈ fs := by
  have hname : ∀ n category o, .declaration n category o ∈ sightings shelf name fs →
      .declaration name category o ∈ fs := by
    intro n category o ho
    obtain ⟨hfound, hof⟩ := List.mem_filter.mp ho
    simp only [Finding.isOf, Bool.and_eq_true, decide_eq_true_eq] at hof
    exact hof.2 ▸ hfound
  refine foldl_see_induction (P := fun e => ∃ o, .declaration name e.category o ∈ fs)
    (fun n category o ho => ⟨o, hname n category o ho⟩) (fun _ _ _ _ _ he => he) ?_ h
  intro e₀ hnone
  cases hnone

/-- Where every name is declared once and in the same category, each entry is made of its one
declaration. -/
theorem foldl_see_of_nodup {category : Category} {ds : List (String × Observation)}
    (hnodup : (ds.map Prod.fst).Nodup) (hadmits : ∀ d ∈ ds, admits d.1 = true) (shelf : Shelf)
    (name : String) :
    (sightings shelf name (ds.map fun d => .declaration d.1 category d.2)).foldl see none
      = if category.shelf = shelf then
          (ds.find? (·.1 = name)).map fun d => Entry.create d.1 category d.2
        else none := by
  induction ds with
  | nil => exact (ite_self _).symm
  | cons d ds ih =>
    rw [List.map_cons, List.nodup_cons] at hnodup
    obtain ⟨hnew, hnodup⟩ := hnodup
    obtain ⟨hd, hds⟩ := List.forall_mem_cons.mp hadmits
    have hrest := ih hnodup hds
    have hof : (Finding.declaration d.1 category d.2).isOf shelf name
        = (decide (category.shelf = shelf) && decide (d.1 = name)) := rfl
    rw [List.map_cons, sightings_cons, hof, List.find?_cons]
    by_cases hshelf : category.shelf = shelf
    · by_cases hname : d.1 = name
      · -- The name is not declared again.
        have hnone : sightings shelf name (ds.map fun d => .declaration d.1 category d.2) = [] := by
          refine List.filter_eq_nil_iff.mpr fun f hf hof => hnew ?_
          obtain ⟨e, he, rfl⟩ := List.mem_map.mp hf
          simp only [Finding.isOf, Bool.and_eq_true, decide_eq_true_eq] at hof
          rw [hname, ← hof.2]
          exact List.mem_map_of_mem he
        simp [hshelf, hname, hnone, see, hname ▸ hd]
      · simpa [hshelf, hname] using hrest
    · simpa [hshelf] using hrest

/-! ## The last sighting -/

/-- If the last sighting had been made elsewhere, the entry would say so, and would be
the same otherwise. -/
theorem see_moved {e? : Option Entry} {f : Finding} {shelf : Shelf} {name : String} {e : Entry}
    (hf : f.isOf shelf name = true) (hadmits : admits name = true) (h : see e? f = some e)
    (line : Nat) (guards : Option (List String)) :
    see e? (f.moved line guards) = some { e with line, guards := guards.getD e.guards } := by
  cases f with
  | use n role place => cases hf
  | declaration n category o =>
    simp only [Finding.isOf, Bool.and_eq_true, decide_eq_true_eq] at hf
    obtain ⟨-, rfl⟩ := hf
    simp only [see, Finding.moved, hadmits, if_true] at h ⊢
    split at h
    · cases h; cases guards <;> rfl
    · cases h; cases guards <;> rfl

/-- Names that may not be catalogued have no entry. -/
theorem foldl_see_eq_none {fs : List Finding} {shelf : Shelf} {name : String}
    (hadmits : ¬ admits name = true) (h : ∀ f ∈ fs, f.isOf shelf name = true) :
    fs.foldl see none = none := by
  induction fs with
  | nil => rfl
  | cons f fs ih =>
    have hf : see none f = none := by
      have hof := h f List.mem_cons_self
      cases f with
      | use => rfl
      | declaration n category o =>
        simp only [Finding.isOf, Bool.and_eq_true, decide_eq_true_eq] at hof
        rw [see, hof.2, if_neg hadmits]
    rw [List.foldl_cons, hf]
    exact ih fun g hg => h g (List.mem_cons_of_mem f hg)

/-- An admitted name has an entry as soon as it is sighted. -/
theorem isSome_foldl_see {fs : List Finding} {shelf : Shelf} {name : String}
    (hadmits : admits name = true) (h : ∀ f ∈ fs, f.isOf shelf name = true)
    (e? : Option Entry) : (fs.foldl see e?).isSome = (e?.isSome || !fs.isEmpty) := by
  induction fs generalizing e? with
  | nil => simp
  | cons f fs ih =>
    have hf : (see e? f).isSome = true := by
      have hof := h f List.mem_cons_self
      cases f with
      | use => cases hof
      | declaration n category o =>
        simp only [Finding.isOf, Bool.and_eq_true, decide_eq_true_eq] at hof
        simp only [see, hof.2, if_pos hadmits]
        cases e? <;> rfl
    rw [List.foldl_cons, ih (fun g hg => h g (List.mem_cons_of_mem f hg)), hf]
    simp

theorem sightings_append (shelf : Shelf) (name : String) (fs gs : List Finding) :
    sightings shelf name (fs ++ gs) = sightings shelf name fs ++ sightings shelf name gs :=
  List.filter_append ..

/-- The entry made of findings of which the last one declares the name: if that one had
been made elsewhere, the entry would differ in its place only. -/
theorem foldl_see_moved {fs : List Finding} {f : Finding} {shelf : Shelf} {name : String}
    {e : Entry} (hf : f.isOf shelf name = true)
    (h : (sightings shelf name (fs ++ [f])).foldl see none = some e) (line : Nat)
    (guards : Option (List String)) :
    (sightings shelf name (fs ++ [f.moved line guards])).foldl see none
      = some { e with line, guards := guards.getD e.guards } := by
  -- There is an entry, so the name may be catalogued.
  have hadmits : admits name = true := by
    refine Decidable.byContradiction fun hn => ?_
    have hnone := foldl_see_eq_none hn fun g (hg : g ∈ sightings shelf name (fs ++ [f])) =>
      (List.mem_filter.mp hg).2
    rw [hnone] at h
    cases h
  have hlast : ∀ {g : Finding}, g.isOf shelf name = true →
      sightings shelf name (fs ++ [g]) = sightings shelf name fs ++ [g] := by
    intro g hg
    rw [sightings_append]
    exact congrArg (_ ++ ·) (List.filter_cons_of_pos hg)
  rw [hlast hf, List.foldl_append] at h
  rw [hlast (by rwa [Finding.isOf_moved]), List.foldl_append]
  exact see_moved hf hadmits h line guards

theorem sightings_toList_of_not {shelf : Shelf} {name : String} {f? : Option Finding}
    (h : f?.any (·.isOf shelf name) = false) : sightings shelf name f?.toList = [] := by
  cases f? with
  | none => rfl
  | some f => exact List.filter_cons_of_neg (by simpa using h)

theorem length_sightings_moved (shelf : Shelf) (name : String) (f? : Option Finding) (line : Nat)
    (guards : Option (List String)) :
    (sightings shelf name (f?.map (·.moved line guards)).toList).length
      = (sightings shelf name f?.toList).length := by
  cases f? with
  | none => rfl
  | some f =>
    rw [Option.map_some, Option.toList_some, Option.toList_some, sightings, sightings,
      List.filter_cons, List.filter_cons, Finding.isOf_moved]
    cases f.isOf shelf name <;> rfl

/-- An entry and the entry as it would be if the last two findings, which are not both
about its name, had been made elsewhere. -/
theorem foldl_see_moved_last {fs : List Finding} {d t : Option Finding} {shelf : Shelf}
    {name : String} {e : Entry} (line line' : Nat) (guards : List String)
    (hone : t.any (·.isOf shelf name) = true → d.any (·.isOf shelf name) = false)
    (h : (sightings shelf name (fs ++ d.toList ++ t.toList)).foldl see none = some e) :
    (sightings shelf name (fs ++ (d.map (·.moved line none)).toList
        ++ (t.map (·.moved line' (some guards))).toList)).foldl see none
      = some (if t.any (·.isOf shelf name) then { e with line := line', guards }
          else if d.any (·.isOf shelf name) then { e with line } else e) := by
  have hmoved : ∀ (f? : Option Finding) line guards,
      (f?.map (·.moved line guards)).any (·.isOf shelf name) = f?.any (·.isOf shelf name) := by
    intro f? line guards
    cases f? <;> simp
  cases ht : t.any (·.isOf shelf name) with
  | true =>
    -- `d` is not seen, and `t` is the last sighting.
    have hd := hone ht
    obtain ⟨f, rfl, hf⟩ := (Option.any_eq_true ..).mp ht
    have hlast := foldl_see_moved hf h line' (some guards)
    rw [sightings_append, sightings_append, sightings_toList_of_not hd] at hlast
    rw [sightings_append, sightings_append,
      sightings_toList_of_not ((hmoved d line none).trans hd)]
    exact hlast
  | false =>
    -- `t` is not seen, which leaves `d` for the last sighting.
    rw [sightings_append _ _ _ t.toList, sightings_toList_of_not ht, List.append_nil] at h
    rw [sightings_append, sightings_toList_of_not ((hmoved t line' (some guards)).trans ht),
      List.append_nil]
    cases hd : d.any (·.isOf shelf name) with
    | true =>
      obtain ⟨f, rfl, hf⟩ := (Option.any_eq_true ..).mp hd
      exact foldl_see_moved hf h line none
    | false =>
      rw [sightings_append, sightings_toList_of_not hd, List.append_nil] at h
      rw [sightings_append, sightings_toList_of_not ((hmoved d line none).trans hd),
        List.append_nil]
      exact h

end Catalog

end HeaderAtlas

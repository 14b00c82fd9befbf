import HeaderAtlas.Proofs.Catalog.Enrichment

/-!
# Taking over the same catalogue again

A catalogue that has been taken over can be taken over once more: no table changes, and the
same entries are noted as different from those that were there first (`union_union`,
`conflicts_union`).

The macros need a reason of their own, since the second time they are compared with tables
that have grown. What comes in the first time is in the way of no macro that was let in:
a macro is let in only if nothing shadows it, and what shadows it then is the same as what
does later.

A catalogue also takes over itself without a change, provided that no macro has the name
of a function or a variable (`MacrosApart`), for these drive macros out. A catalogue that
was put together from an empty one is of that kind (`Assembled.macrosApart`).
-/

namespace HeaderAtlas

namespace Catalog

/-- Catalogues that answer every lookup alike are equal. -/
theorem eq_of_get? {c d : Catalog} (hname : c.name = d.name) (hinfo : c.info = d.info)
    (htable : ∀ shelf name, (c.table shelf).get? name = (d.table shelf).get? name)
    (husage : ∀ name, c.usages.get? name = d.usages.get? name) : c = d := by
  have htables : ∀ shelf, c.table shelf = d.table shelf :=
    fun shelf => NameMap.ext_get? (htable shelf)
  have husages : c.usages = d.usages := NameMap.ext_get? husage
  have hfunctions := htables .functions
  have hvars := htables .vars
  have hstructs := htables .structs
  have hunions := htables .unions
  have henumerators := htables .enumerators
  have htypedefs := htables .typedefs
  have hmacros := htables .macros
  have hinclusions := htables .inclusions
  cases c
  cases d
  simp only [table] at *
  simp_all

/-! ## A second time -/

theorem union_union (c h : Catalog) (j k : Journal) :
    ((c.union h j).1.union h k).1 = (c.union h j).1 := by
  refine eq_of_get? rfl rfl (fun shelf name => ?_) (fun name => ?_)
  · by_cases hshelf : shelf = .macros
    · subst hshelf
      simp only [table]
      rw [macros_union, macros_union, shadows_union]
      cases h.declares name <;> cases c.macros.get? name <;> cases h.shadows name <;>
        cases c.shadows name <;> simp
    · rw [get?_union _ h k hshelf, get?_union c h j hshelf]
      cases (c.table shelf).get? name <;> cases (h.table shelf).get? name <;> rfl
  · rw [usages_union, usages_union]
    cases c.usages.get? name <;> cases h.usages.get? name <;> rfl

theorem freeMacros_union (c h : Catalog) (j : Journal) :
    (c.union h j).1.freeMacros h = c.freeMacros h := by
  simp only [freeMacros, shadows_union, Bool.or_assoc, Bool.or_self]

theorem ne_macros_of_mem_wholeShelves {s : Shelf} (h : s ∈ wholeShelves) : s ≠ .macros := by
  rintro rfl
  exact absurd h (by decide)

/-- What is noted the second time is what was noted the first time. -/
theorem conflicts_union (c h : Catalog) (j : Journal) :
    (c.union h j).1.conflicts h = c.conflicts h := by
  have hwhole : ∀ s ∈ wholeShelves,
      (h.table s).entries.filterMap (conflict? ((c.union h j).1.table s))
        = (h.table s).entries.filterMap (conflict? (c.table s)) := by
    intro s hs
    refine List.filterMap_congr fun b hb => conflict?_of_or ?_
    rw [get?_union c h j (ne_macros_of_mem_wholeShelves hs), NameMap.get?_eq_some_iff.mpr hb]
  have hmacros : (c.freeMacros h).filterMap (conflict? (c.union h j).1.macros)
      = (c.freeMacros h).filterMap (conflict? c.macros) := by
    refine List.filterMap_congr fun b hb => conflict?_of_or ?_
    obtain ⟨hentry, hc, hh⟩ := mem_freeMacros hb
    rw [macros_union, declares_of_shadows hh, hc, hh, hentry]
    rfl
  rw [conflicts, conflicts, List.flatMap_congr hwhole, freeMacros_union, hmacros]

/-- There is nothing to be noted about what an empty catalogue takes over. -/
theorem conflicts_empty (project : String) (h : Catalog) :
    conflicts { name := project } h = [] := by
  have hempty : ∀ shelf b, conflict? (table { name := project } shelf) b = none := by
    intro shelf b
    cases shelf <;> exact conflict?_of_none rfl
  have hmacros := hempty .macros
  simp only [table] at hmacros
  simp [conflicts, hempty, hmacros]

/-! ## The catalogue itself -/

/-- No macro has the name of a function or a variable. -/
def MacrosApart (c : Catalog) : Prop :=
  ∀ name, c.declares name = true → c.macros.get? name = none

theorem conflicts_self (c : Catalog) : c.conflicts c = [] := by
  have hwhole : ∀ s, (c.table s).entries.filterMap (conflict? (c.table s)) = [] := fun s =>
    List.filterMap_eq_nil_iff.mpr fun b hb =>
      conflict?_of_get? (NameMap.get?_eq_some_iff.mpr hb)
  have hmacros : (c.freeMacros c).filterMap (conflict? c.macros) = [] :=
    List.filterMap_eq_nil_iff.mpr fun b hb => conflict?_of_get? (mem_freeMacros hb).1
  simp [conflicts, hwhole, hmacros]

theorem MacrosApart.union_self {c : Catalog} (h : c.MacrosApart) (j : Journal) :
    c.union c j = (c, j) := by
  have hsame : (c.union c j).1 = c := by
    refine eq_of_get? rfl rfl (fun shelf name => ?_) (fun name => ?_)
    · by_cases hshelf : shelf = .macros
      · subst hshelf
        simp only [table]
        rw [macros_union]
        cases hd : c.declares name with
        | true => exact (h name hd).symm
        | false => cases c.macros.get? name <;> simp
      · rw [get?_union c c j hshelf]
        cases (c.table shelf).get? name <;> rfl
    · rw [usages_union]
      cases c.usages.get? name <;> rfl
  refine Prod.ext hsame ?_
  rw [journal_union, conflicts_self, List.append_nil]

/-- The functions and variables of a union drive out its macros, whatever is taken over. -/
theorem MacrosApart.union {c : Catalog} (hc : c.MacrosApart) (h : Catalog) (j : Journal) :
    (c.union h j).1.MacrosApart := by
  intro name hdecl
  have hf := contains_union c h j (show Shelf.functions ≠ .macros by decide) name
  have hv := contains_union c h j (show Shelf.vars ≠ .macros by decide) name
  simp only [table] at hf hv
  rw [declares, hf, hv] at hdecl
  rw [macros_union]
  cases hh : h.declares name with
  | true => rfl
  | false =>
    -- The name is then one of the functions and variables that were there before.
    have hold : c.declares name = true := by
      rw [declares, Bool.or_eq_false_iff] at hh
      simpa [declares, hh.1, hh.2] using hdecl
    simp [hc name hold, shadows, hold]

theorem MacrosApart.enrich {c : Catalog} (hc : c.MacrosApart) (unit : Catalog) (j : Journal) :
    (c.enrich unit j).1.MacrosApart := by
  intro name hdecl
  have hfunctions : (c.enrich unit j).1.functions.contains name = c.functions.contains name :=
    contains_enrichAll c [unit] j name
  rw [declares, hfunctions] at hdecl
  exact hc name hdecl

/-- What a project's catalogue can be. It starts empty, takes over catalogues and consults
them, in any order. -/
inductive Assembled : Catalog → Prop
  | empty (project : String) : Assembled { name := project }
  | union {c : Catalog} (h : Catalog) (j : Journal) (before : Assembled c) :
      Assembled (c.union h j).1
  | enrich {c : Catalog} (unit : Catalog) (j : Journal) (before : Assembled c) :
      Assembled (c.enrich unit j).1

theorem Assembled.macrosApart {c : Catalog} (h : Assembled c) : c.MacrosApart := by
  induction h with
  | empty project => exact fun _ _ => rfl
  | union h j _ ih => exact ih.union h j
  | enrich unit j _ ih => exact ih.enrich unit j

/-- **Taking over a catalogue again changes nothing, and the same is noted again.** There is
nothing to be noted if the first time was with an empty catalogue. And whatever was put
together from an empty catalogue takes over itself without a change or a notice. -/
theorem union_again :
    (∀ (c h : Catalog) (j : Journal), ∃ d ns, c.union h j = (d, j ++ ns)
      ∧ ∀ k, d.union h k = (d, k ++ ns))
    ∧ (∀ project h j, (union { name := project } h j).2 = j)
    ∧ ∀ c, Assembled c → ∀ j, c.union c j = (c, j) := by
  refine ⟨fun c h j => ⟨(c.union h j).1, c.conflicts h, ?_, fun k => ?_⟩, ?_, ?_⟩
  · exact Prod.ext rfl (journal_union c h j)
  · refine Prod.ext (union_union c h j k) ?_
    rw [journal_union, conflicts_union]
  · intro project h j
    rw [journal_union, conflicts_empty, List.append_nil]
  · intro c hc j
    exact hc.macrosApart.union_self j

/-- A macro, an enumerator of its name that comes later, and a function. -/
def threeHeaders : List Catalog :=
  [oneEntry "a.h" "M" .macroDef 1, oneEntry "b.h" "M" .enumerator 2, oneEntry "c.h" "f" .function 3]

theorem union_of_threeHeaders :
    ∃ d n, (ofHeaders "p" threeHeaders []).macros.contains "M" = true
      ∧ (ofHeaders "p" threeHeaders []).enumerators.contains "M" = true
      ∧ (ofHeaders "p" threeHeaders []).union (ofHeaders "p" threeHeaders []) []
        = (ofHeaders "p" threeHeaders [], [])
      ∧ (ofHeaders "p" threeHeaders []).union (oneEntry "d.h" "f" .function 4) [] = (d, [n])
      ∧ d.union (oneEntry "d.h" "f" .function 4) [n] = (d, [n, n]) := by
  obtain ⟨hagain, -, hself⟩ := union_again
  have hassembled : Assembled (ofHeaders "p" threeHeaders []) :=
    (((Assembled.empty "p").union _ []).union _ _).union _ _
  obtain ⟨d, ns, honce, htwice⟩ :=
    hagain (ofHeaders "p" threeHeaders []) (oneEntry "d.h" "f" .function 4) []
  have hone : ((ofHeaders "p" threeHeaders []).union
      (oneEntry "d.h" "f" .function 4) []).2.length = 1 := by decide +kernel
  rw [honce, List.nil_append] at hone
  obtain ⟨n, rfl⟩ := List.length_eq_one_iff.mp hone
  exact ⟨d, n, by decide +kernel, by decide +kernel, hself _ hassembled [], honce, htwice [n]⟩

end Catalog

end HeaderAtlas

import Mathlib.Data.List.Basic
import HeaderAtlas.Proofs.Catalog.FirstWins

/-!
# The notices of a merge

Catalogues are put together binding by binding, and each binding gives rise to at most one
notice. Which one is decided by the table as it was before the merge: names do not repeat
in a table, so no binding changes what is said of another (`journal_foldl`).

What a merge writes can therefore be read off the two catalogues, and what was in the
journal before does not matter (`journal_union`, `journal_enrich`).
-/

namespace HeaderAtlas

namespace Catalog

/-- A run over bindings with increasing names. If a step writes the notice that the table
calls for, and changes nothing about other names, then the run writes what the table it
starts with calls for, in the order of the names. -/
theorem journal_foldl {step : Merging → String × Entry → Merging}
    {notice? : Table → String × Entry → Option Notice}
    (hstep : ∀ m b, (step m b).2 = m.2 ++ (notice? m.1 b).toList)
    (hkeep : ∀ m b b', b.1 ≠ b'.1 → notice? (step m b).1 b' = notice? m.1 b')
    {l : List (String × Entry)} (hl : l.Pairwise (·.1 < ·.1)) (m : Merging) :
    (l.foldl step m).2 = m.2 ++ l.filterMap (notice? m.1) := by
  induction l generalizing m with
  | nil => simp
  | cons b l ih =>
    obtain ⟨hb, hl⟩ := List.pairwise_cons.mp hl
    have hlater : l.filterMap (notice? (step m b).1) = l.filterMap (notice? m.1) := by
      refine List.filterMap_congr fun b' hb' => hkeep m b b' fun hname => ?_
      exact String.lt_irrefl _ (hname ▸ hb b' hb')
    rw [List.foldl_cons, ih hl, hstep, hlater, List.append_assoc]
    cases hn : notice? m.1 b <;> simp [hn]

/-! ## Union -/

/-- The notice that a binding gives rise to when a table takes it over. -/
def conflict? (t : Table) (b : String × Entry) : Option Notice :=
  (t.get? b.1).bind fun existing =>
    if existing = b.2 then none else some (redeclared b.1 existing b.2)

theorem conflict?_congr {t t' : Table} {b : String × Entry} (h : t.get? b.1 = t'.get? b.1) :
    conflict? t b = conflict? t' b := by
  rw [conflict?, conflict?, h]

/-- A table that has the binding has nothing against it. -/
theorem conflict?_of_get? {t : Table} {b : String × Entry} (h : t.get? b.1 = some b.2) :
    conflict? t b = none := by
  rw [conflict?, h]
  exact if_pos rfl

theorem conflict?_of_none {t : Table} {b : String × Entry} (h : t.get? b.1 = none) :
    conflict? t b = none := by
  rw [conflict?, h]
  rfl

/-- Where the first entry wins, taking over a binding does not change what is said
of it. -/
theorem conflict?_of_or {t t' : Table} {b : String × Entry}
    (h : t'.get? b.1 = (t.get? b.1 <|> some b.2)) : conflict? t' b = conflict? t b := by
  cases ht : t.get? b.1 with
  | none => rw [conflict?_of_none ht, conflict?_of_get? (by rw [h, ht]; rfl)]
  | some e => exact conflict?_congr (by rw [h, ht]; rfl)

theorem journal_unite1 (m : Merging) (b : String × Entry) :
    (unite1 m b).2 = m.2 ++ (conflict? m.1 b).toList := by
  unfold unite1 conflict?
  cases m.1.get? b.1 with
  | none => simp
  | some existing => by_cases h : existing = b.2 <;> simp [h]

theorem journal_foldl_unite1 {l : List (String × Entry)} (hl : l.Pairwise (·.1 < ·.1))
    (m : Merging) : (l.foldl unite1 m).2 = m.2 ++ l.filterMap (conflict? m.1) := by
  refine journal_foldl journal_unite1 (fun m b b' hne => conflict?_congr ?_) hl m
  rw [get?_unite1, if_neg hne]
  cases m.1.get? b'.1 <;> rfl

theorem journal_uniteTable (into other : Table) (j : Journal) :
    (uniteTable into other j).2 = j ++ other.entries.filterMap (conflict? into) :=
  journal_foldl_unite1 other.sorted (into, j)

/-- The tables that are taken over as they are, in this order. The macros come last. -/
def wholeShelves : List Shelf :=
  [.functions, .vars, .structs, .unions, .typedefs, .enumerators]

/-- The macros of `h` that are taken over: those that nothing shadows. -/
def freeMacros (c h : Catalog) : List (String × Entry) :=
  h.macros.entries.filter fun b => !(c.shadows b.1 || h.shadows b.1)

/-- All notices about `h` that `c` gives rise to when it takes it over. -/
def conflicts (c h : Catalog) : List Notice :=
  (wholeShelves.flatMap fun s => (h.table s).entries.filterMap (conflict? (c.table s)))
    ++ (c.freeMacros h).filterMap (conflict? c.macros)

theorem mem_freeMacros {c h : Catalog} {b : String × Entry} (hb : b ∈ c.freeMacros h) :
    h.macros.get? b.1 = some b.2 ∧ c.shadows b.1 = false ∧ h.shadows b.1 = false := by
  obtain ⟨hmem, hfree⟩ := List.mem_filter.mp hb
  refine ⟨NameMap.get?_eq_some_iff.mpr hmem, ?_⟩
  simpa using hfree

theorem declares_of_shadows {c : Catalog} {name : String} (h : c.shadows name = false) :
    c.declares name = false := by
  rw [shadows, Bool.or_eq_false_iff] at h
  exact h.1

theorem journal_union (c h : Catalog) (j : Journal) :
    (c.union h j).2 = j ++ c.conflicts h := by
  have hmacros : (c.union h j).2
      = ((h.macros.entries.filter fun b => !(c.union h j).1.shadows b.1).foldl unite1
          (without (without c.macros h.functions.names) h.vars.names,
            (uniteTable c.enumerators h.enumerators
              (uniteTable c.typedefs h.typedefs
                (uniteTable c.unions h.unions
                  (uniteTable c.structs h.structs
                    (uniteTable c.vars h.vars
                      (uniteTable c.functions h.functions j).2).2).2).2).2).2)).2 := rfl
  -- A macro that comes in is still compared with the one that was there at the start.
  have hkept : (c.freeMacros h).filterMap
        (conflict? (without (without c.macros h.functions.names) h.vars.names))
      = (c.freeMacros h).filterMap (conflict? c.macros) := by
    refine List.filterMap_congr fun b hb => conflict?_congr ?_
    have hdecl := declares_of_shadows (mem_freeMacros hb).2.2
    rw [declares, Bool.or_eq_false_iff] at hdecl
    have hf : b.1 ∉ h.functions.names := by simp [NameMap.mem_names_iff, hdecl.1]
    have hv : b.1 ∉ h.vars.names := by simp [NameMap.mem_names_iff, hdecl.2]
    rw [get?_without, if_neg hv, get?_without, if_neg hf]
  have hfree : (h.macros.entries.filter fun b => !(c.union h j).1.shadows b.1)
      = c.freeMacros h := by
    simp only [shadows_union, freeMacros]
  rw [hmacros, journal_foldl_unite1 (h.macros.sorted.filter _), hfree, hkept]
  simp only [journal_uniteTable, conflicts, wholeShelves, table, List.flatMap_cons,
    List.flatMap_nil, List.append_assoc, List.append_nil]

/-! ## Documentation from an implementation file -/

/-- The notice that a function of an implementation file gives rise to. -/
def mismatch? (t : Table) (b : String × Entry) : Option Notice :=
  (t.get? b.1).bind fun declared =>
    if declared.guards = b.2.guards then none else some (guardMismatch b.1 declared b.2)

theorem journal_enrich1 (m : Merging) (b : String × Entry) :
    (enrich1 m b).2 = m.2 ++ (mismatch? m.1 b).toList := by
  unfold enrich1 mismatch?
  cases m.1.get? b.1 with
  | none => simp
  | some declared => by_cases h : declared.guards = b.2.guards <;> simp [h]

theorem get?_enrich1_of_ne (m : Merging) {b : String × Entry} {name : String}
    (h : b.1 ≠ name) : (enrich1 m b).1.get? name = m.1.get? name := by
  unfold enrich1
  split
  · rfl
  · exact (NameMap.get?_insert ..).trans (if_neg h)

/-- All notices about the functions of an implementation file. -/
def mismatches (c unit : Catalog) : List Notice :=
  unit.functions.entries.filterMap (mismatch? c.functions)

theorem journal_enrich (c unit : Catalog) (j : Journal) :
    (c.enrich unit j).2 = j ++ c.mismatches unit := by
  refine journal_foldl journal_enrich1 (fun m b b' hne => ?_) unit.functions.sorted
    (c.functions, j)
  rw [mismatch?, mismatch?, get?_enrich1_of_ne m hne]

end Catalog

end HeaderAtlas

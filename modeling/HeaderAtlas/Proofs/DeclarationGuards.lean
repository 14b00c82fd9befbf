import HeaderAtlas.Proofs.Reader.Files

/-!
# The guards of a declaration

A function, a typedef or a macro is recorded under the guards in force where it stands:
those left by the conditionals before it, wherever these are written, also inside the
bodies of earlier functions.

What is read ahead does not matter. A prototype is recorded on its `;`, a definition on its
opening brace and a typedef when its `;` has been seen: the directives after it are taken in
later. A macro is recorded when the token after its line has been read, but before anything
else is done about that token.
-/

namespace HeaderAtlas

variable {env : ScanEnv}

/-- No directive stands between quiet cells. -/
theorem Cell.directives_of_quiet {cs : List Cell} (h : cs.all Cell.isQuiet = true) :
    Cell.directives cs = [] := by
  refine List.filterMap_eq_nil_iff.mpr fun a ha => ?_
  obtain ⟨c, hc, ha⟩ := List.mem_flatMap.mp ha
  have hquiet := List.all_eq_true.mp (List.all_eq_true.mp h c hc) a ha
  cases a with
  | directive => cases hquiet
  | comment => rfl
  | ignored => rfl

namespace Item

/-- What a declaration is spelled with holds no directive. -/
theorem isQuiet_cells {i : Item} (hi : i.isLegal env = true) :
    i.cells.all Cell.isQuiet = true := by
  cases i with
  | aside => rfl
  | _ => simp_all [isLegal, Cell.spell, cells]

/-- An item is recorded under the guards that it finds. -/
theorem guards_recordedIn {i : Item} (hi : i.isLegal env = true) (st : Standing) :
    (i.recordedIn env st).guards = st.context.guards := by
  have hopening : st.opening.guards = st.context.guards := by
    rw [Standing.opening]
    split <;> rfl
  have hcells : (Aside.afterAll env st.opening (Cell.allAsides i.cells)).guards
      = st.context.guards := by
    rw [Aside.guards_afterAll, hopening]
    exact congrArg (List.foldl Guards.obey _) (Cell.directives_of_quiet (isQuiet_cells hi))
  cases i with
  | aside => rfl
  | _ => exact hcells

/-- What an item does to the guards is what its directives do. -/
theorem guards_after {i : Item} (hi : i.isLegal env = true) (st : Standing) :
    (i.after env st).context.guards = i.directives.foldl Guards.obey st.context.guards := by
  have hguards := guards_recordedIn hi st
  cases i with
  | prototype => exact hguards
  | definition f cells body => exact congrArg (List.foldl Guards.obey · _) hguards
  | typedef => exact hguards
  | vars => exact hguards
  | aside a => cases a <;> rfl

theorem guards_afterAll {items : List Item} (hitems : items.all (isLegal env) = true)
    (st : Standing) :
    (afterAll env st items).context.guards
      = (items.flatMap directives).foldl Guards.obey st.context.guards := by
  induction items generalizing st with
  | nil => rfl
  | cons i items ih =>
    rw [List.all_cons, Bool.and_eq_true] at hitems
    rw [List.flatMap_cons, List.foldl_append, ← guards_after hitems.1]
    exact ih hitems.2 (i.after env st)

/-- What is recorded says which guards were active. -/
theorem guards_gist? {i : Item} {c : Context} {g : Gist} (h : i.gist? env c = some g) :
    g.guards = c.guards.active := by
  cases i with
  | prototype => cases h; rfl
  | definition => cases h; rfl
  | typedef => cases h; rfl
  | vars => cases h
  | aside a =>
    cases a with
    | comment => cases h
    | ignored => cases h
    | directive word args =>
      rw [gist?, Aside.gist?] at h
      split at h
      · rw [MacroParts.gist?] at h
        split at h
        · cases h
        · dsimp only at h
          split at h
          · cases h
          · cases h
            rfl
      · cases h

end Item

/-- **The guards of a declaration are those of the conditionals before it.** In a file that
is written as a list of items, with no name declared twice in the same table, each function,
typedef and macro has an entry, and its guards are what is active after the directives of
the items before it, those inside bodies included. -/
theorem guards_of_item {σ : Type} [Feed σ] [LawfulFeed σ] {o : ScanOptions} {file : String}
    {feed : σ} {C : Catalog} {before after : List Item} {i : Item} {shelf : Shelf} {name : String}
    (hlegal : (before ++ i :: after).all (Item.isLegal (o.env file)) = true)
    (hnodup : ((before ++ i :: after).filterMap (Item.key? (o.env file))).Nodup)
    (hkey : i.key? (o.env file) = some (shelf, name)) (hadmits : Catalog.admits name = true)
    (hfeed : TokenStream.Supplies ⟨feed, none⟩ ((before ++ i :: after).flatMap Item.tokens))
    (hC : (Catalog.ofFeed o file feed).result = .ok C) :
    ∃ e, (C.table shelf).get? name = some e
      ∧ e.guards = ((before.flatMap Item.directives).foldl Guards.obey
          { marker := o.settings.grammar.guardMarker }).active := by
  obtain ⟨g, e, hg, he, -, hguards, -⟩ :=
    Catalog.exists_entry hlegal hnodup hkey hadmits hfeed hC
  rw [List.all_append, List.all_cons, Bool.and_eq_true, Bool.and_eq_true] at hlegal
  refine ⟨e, he, ?_⟩
  rw [hguards, Item.guards_gist? hg, Item.guards_recordedIn hlegal.2.1,
    Item.guards_afterAll hlegal.1]
  rfl

/-- A prototype under a guard, and after the `#else` a definition with another conditional
in its body, which is not closed. -/
def guardedItems : List Item :=
  let f : Signature := ⟨.none, .int, "f", [.named .int "x" []]⟩
  let g : Signature := ⟨.static, .int, "g", []⟩
  let cells := List.map fun t => Cell.mk [] (.plain t)
  [.aside (.directive "#ifdef" ["FOO_ENABLED"]),
    .prototype f (cells (f.tokens ++ [.sep ";"])),
    .aside (.directive "#else" []),
    .definition g (cells (g.tokens ++ [.sep "\x7b"]))
      (⟨[.directive "#if" ["BAR_ENABLED"], .comment " first "], .plain (.word "f")⟩
        :: cells [.sep "(", .sep ")", .sep ";", .sep "\x7b", .sep "\x7d", .sep "\x7d"])]

/-- A typedef after them, with a comment inside. -/
def guardedTypedef : Item :=
  let wide : WrittenType :=
    { WrittenType.int with
      qualifiers := [.word "unsigned"], base := .long true false
      qualifiers_legal := rfl, base_legal := rfl }
  .typedef ⟨wide, "T", []⟩
    [⟨[], .plain (.word "typedef")⟩, ⟨[], .plain (.word "unsigned")⟩, ⟨[], .plain (.word "long")⟩,
      ⟨[.comment " wide "], .plain (.word "long")⟩, ⟨[], .plain (.word "T")⟩,
      ⟨[], .plain (.sep ";")⟩]

/-- A macro and the end of the first guard. -/
def macroItems : List Item :=
  [.aside (.directive "#define" ["M", "1"]), .aside (.directive "#endif" [])]

theorem guards_of_guardedTypedef :
    ∃ C e, (Catalog.ofFeed {} "a.h"
        ((guardedItems ++ guardedTypedef :: macroItems).flatMap Item.tokens)).result = .ok C
      ∧ (C.table .typedefs).get? "T" = some e
      ∧ e.guards = ["!(defined(FOO_ENABLED))", "BAR_ENABLED"] := by
  obtain ⟨C, hC⟩ : ∃ C, (Catalog.ofFeed {} "a.h"
      ((guardedItems ++ guardedTypedef :: macroItems).flatMap Item.tokens)).result = .ok C :=
    Outcome.exists_ok (by decide +kernel)
  obtain ⟨e, he, hguards⟩ := guards_of_item (by decide +kernel) (by decide +kernel)
    (show guardedTypedef.key? (ScanOptions.env {} "a.h") = some (.typedefs, "T") by decide +kernel)
    (by decide +kernel) (TokenStream.supplies_list _) hC
  exact ⟨C, e, hC, he, hguards.trans (by decide +kernel)⟩

end HeaderAtlas

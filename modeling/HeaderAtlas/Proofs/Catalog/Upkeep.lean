import HeaderAtlas.Proofs.Catalog.Enrichment
import HeaderAtlas.Proofs.Scanner.Findings

/-!
# A catalogue keeps its order

A catalogue is in order if every entry stands in the table of its category under its own
name, and no name is there that may not be catalogued (`Orderly`). Nothing checks this when
an entry is looked up, so it has to hold of every catalogue that can come about: an empty
one, one made by a scan, and whatever becomes of them by entering findings, taking over
other catalogues and consulting them, in any order (`Obtained`).

An entry can come into a table in few ways. It was there before, it is taken over as it is,
or it is made on the spot for a name that may be catalogued (`Operation.origin`). What was
there before is amended at most, and that leaves name and category alone, keeps the header
once it is known and never takes `static` back (`Entry.Lasts`).
-/

namespace HeaderAtlas

/-! ## What an amendment leaves alone -/

/-- What stays of an entry `e`, whatever is done to the catalogue: `e'` is found in its place
later. -/
structure Entry.Lasts (e e' : Entry) : Prop where
  name : e'.name = e.name
  category : e'.category = e.category
  header : ∀ file, e.header = some file → e'.header = some file
  isStatic : e.isStatic = true → e'.isStatic = true

namespace Entry

theorem Lasts.refl (e : Entry) : e.Lasts e := ⟨rfl, rfl, fun _ h => h, fun h => h⟩

theorem lasts_amend (e : Entry) (o : Observation) : e.Lasts (e.amend o) where
  name := rfl
  category := rfl
  header file h := by simp [amend, h]
  isStatic h := by simp [amend, h]

theorem SameDeclaration.lasts {e e' : Entry} (h : e.SameDeclaration e') : e.Lasts e' where
  name := h.name
  category := h.category
  header _ hfile := h.header.trans hfile
  isStatic hstatic := h.isStatic.trans hstatic

end Entry

/-- What stays of the uses of a name: only lines are added. -/
structure Usage.Lasts (u u' : Usage) : Prop where
  name : u'.name = u.name
  role : u'.role = u.role
  module : u'.module = u.module

theorem Usage.Lasts.refl (u : Usage) : u.Lasts u := ⟨rfl, rfl, rfl⟩

namespace Catalog

/-! ## Operations -/

/-- What can be done to a catalogue. -/
inductive Operation where
  /-- Enters a declaration or a use. -/
  | add (f : Finding)
  /-- Takes over another catalogue. -/
  | union (h : Catalog) (j : Journal)
  /-- Consults another catalogue about the functions. -/
  | enrich (unit : Catalog) (j : Journal)

namespace Operation

/-- The catalogue after the operation. -/
def apply (c : Catalog) : Operation → Catalog
  | add f => c.add f
  | union h j => (c.union h j).1
  | enrich unit j => (c.enrich unit j).1

/-- The other catalogue, if there is one. -/
def operand? : Operation → Option Catalog
  | add _ => none
  | union h _ => some h
  | enrich unit _ => some unit

end Operation

/-- Where an entry `e'` can come from that is in a table after an operation. -/
inductive Operation.Origin (op : Operation) (c : Catalog) (shelf : Shelf) (name : String)
    (e' : Entry) : Prop
  /-- The name had an entry, and this is what has become of it. -/
  | kept (e : Entry) (before : (c.table shelf).get? name = some e) (lasts : e.Lasts e')
  /-- The name had no entry, and that of the other catalogue was taken over. -/
  | taken (d : Catalog) (new : (c.table shelf).get? name = none) (operand : op.operand? = some d)
      (there : (d.table shelf).get? name = some e')
  /-- The name had no entry, and one was made for it. -/
  | made (category : Category) (o : Observation) (new : (c.table shelf).get? name = none)
      (admitted : admits name = true) (place : category.shelf = shelf)
      (entry : e' = Entry.create name category o)

variable {c : Catalog} {shelf : Shelf} {name : String} {e' : Entry}

theorem origin_add {f : Finding} (h : ((c.add f).table shelf).get? name = some e') :
    (Operation.add f).Origin c shelf name e' := by
  rw [get?_add] at h
  by_cases hof : f.isOf shelf name = true
  · rw [if_pos hof] at h
    cases f with
    | use n role place => cases hof
    | declaration n category o =>
      simp only [Finding.isOf, Bool.and_eq_true, decide_eq_true_eq] at hof
      obtain ⟨hplace, rfl⟩ := hof
      simp only [see] at h
      by_cases hadmits : admits n = true
      · rw [if_pos hadmits] at h
        cases hbefore : (c.table shelf).get? n with
        | some e =>
          simp only [hbefore, Option.some.injEq] at h
          exact .kept e hbefore (h ▸ e.lasts_amend o)
        | none =>
          simp only [hbefore, Option.some.injEq] at h
          exact .made category o hbefore hadmits hplace h.symm
      · rw [if_neg hadmits] at h
        exact .kept e' h (.refl e')
  · rw [if_neg hof] at h
    exact .kept e' h (.refl e')

theorem origin_union {d : Catalog} {j : Journal}
    (h : ((c.union d j).1.table shelf).get? name = some e') :
    (Operation.union d j).Origin c shelf name e' := by
  -- In every table, the entry that was there stays, or else that of `d` comes in.
  have hfirst : ((c.table shelf).get? name <|> (d.table shelf).get? name) = some e' := by
    by_cases hshelf : shelf = .macros
    · subst hshelf
      -- A macro that is driven out is not let in again.
      simp only [table] at h ⊢
      rw [macros_union] at h
      cases hdecl : d.declares name with
      | true => simp [hdecl] at h
      | false =>
        cases hbefore : c.macros.get? name with
        | some e => simpa [hdecl, hbefore] using h
        | none =>
          cases hshadow : (c.shadows name || d.shadows name) with
          | true => simp [hdecl, hbefore, hshadow] at h
          | false => simpa [hdecl, hbefore, hshadow] using h
    · rwa [get?_union c d j hshelf] at h
  cases hbefore : (c.table shelf).get? name with
  | some e =>
    have hsame : e = e' := by simpa [hbefore] using hfirst
    exact .kept e hbefore (hsame ▸ .refl e)
  | none => exact .taken d hbefore rfl (by simpa [hbefore] using hfirst)

theorem origin_enrich {unit : Catalog} {j : Journal}
    (h : ((c.enrich unit j).1.table shelf).get? name = some e') :
    (Operation.enrich unit j).Origin c shelf name e' := by
  by_cases hshelf : shelf = .functions
  · subst hshelf
    simp only [table, functions_enrich, Option.map_eq_some_iff] at h
    obtain ⟨e, hbefore, rfl⟩ := h
    exact .kept e hbefore (e.sameDeclaration_consultAll _).lasts
  · have hsame : (c.enrich unit j).1.table shelf = c.table shelf := by
      cases shelf with
      | functions => exact absurd rfl hshelf
      | _ => rfl
    rw [hsame] at h
    exact .kept e' h (.refl e')

theorem Operation.origin (op : Operation)
    (h : ((op.apply c).table shelf).get? name = some e') : op.Origin c shelf name e' := by
  cases op with
  | add f => exact origin_add h
  | union d j => exact origin_union h
  | enrich unit j => exact origin_enrich h

/-! ## Order -/

/-- The entry stands where it belongs, under a name that may be catalogued. -/
structure Belongs (shelf : Shelf) (name : String) (e : Entry) : Prop where
  ownName : e.name = name
  ownShelf : e.category.shelf = shelf
  nonempty : name ≠ ""
  unreserved : ¬ ['_', '_'] <+: name.toList

/-- The tables and the uses of a catalogue are in order. -/
structure Orderly (c : Catalog) : Prop where
  entries : ∀ shelf name e, (c.table shelf).get? name = some e → Belongs shelf name e
  usages : ∀ name u, c.usages.get? name = some u → u.name = name ∧ ¬ ['_', '_'] <+: name.toList

theorem not_underscores_of_not_isReserved {name : String} (h : isReserved name = false) :
    ¬ ['_', '_'] <+: name.toList := by
  rintro ⟨rest, hrest⟩
  rw [isReserved, ← hrest] at h
  cases h

theorem belongs_create {category : Category} {name : String} (h : admits name = true)
    (o : Observation) : Belongs category.shelf name (Entry.create name category o) := by
  simp only [admits, Bool.and_eq_true, Bool.not_eq_true'] at h
  refine ⟨rfl, rfl, ?_, not_underscores_of_not_isReserved h.2⟩
  rintro rfl
  exact absurd h.1 (by decide)

theorem Belongs.lasts {e : Entry} (h : Belongs shelf name e) (hlasts : e.Lasts e') :
    Belongs shelf name e' where
  ownName := hlasts.name.trans h.ownName
  ownShelf := (congrArg _ hlasts.category).trans h.ownShelf
  nonempty := h.nonempty
  unreserved := h.unreserved

theorem usages_record (c : Catalog) (name : String) (category : Category) (o : Observation) :
    (c.record name category o).usages = c.usages := by
  unfold record
  split
  · cases category <;> rfl
  · rfl

/-- The uses of a name after an operation: those from before with a line more, or else those
of the other catalogue or the first ones of a name that is not reserved. -/
theorem Operation.usages_origin (op : Operation) {u : Usage}
    (h : (op.apply c).usages.get? name = some u) :
    (∃ v, c.usages.get? name = some v ∧ v.Lasts u)
      ∨ (c.usages.get? name = none ∧ ∃ d, op.operand? = some d ∧ d.usages.get? name = some u)
      ∨ (c.usages.get? name = none ∧ u.name = name ∧ isReserved name = false) := by
  cases op with
  | add f =>
    cases f with
    | declaration n category o =>
      rw [apply, Catalog.add, usages_record] at h
      exact .inl ⟨u, h, .refl u⟩
    | use n role place =>
      simp only [apply, Catalog.add, recordUse] at h
      cases hreserved : isReserved n with
      | true =>
        rw [hreserved, if_pos rfl] at h
        exact .inl ⟨u, h, .refl u⟩
      | false =>
        simp only [hreserved, Bool.false_eq_true, if_false, NameMap.get?_insert] at h
        by_cases hname : n = name
        · subst hname
          rw [if_pos rfl, Option.some.injEq] at h
          subst h
          cases hbefore : c.usages.get? n with
          | some v => exact .inl ⟨v, rfl, ⟨rfl, rfl, rfl⟩⟩
          | none => exact .inr (.inr ⟨rfl, rfl, hreserved⟩)
        · rw [if_neg hname] at h
          exact .inl ⟨u, h, .refl u⟩
  | union d j =>
    rw [apply, usages_union] at h
    cases hbefore : c.usages.get? name with
    | some v =>
      have hsame : v = u := by simpa [hbefore] using h
      exact .inl ⟨v, rfl, hsame ▸ .refl v⟩
    | none => exact .inr (.inl ⟨rfl, d, rfl, by simpa [hbefore] using h⟩)
  | enrich unit j => exact .inl ⟨u, h, .refl u⟩

theorem Orderly.empty (name : String) : Orderly { name } where
  entries shelf _ _ h := by cases shelf <;> cases h
  usages _ _ h := by cases h

/-- Every operation leaves a catalogue in order, if the other catalogue is in order too. -/
theorem Orderly.apply (hc : c.Orderly) (op : Operation)
    (hoperand : ∀ d, op.operand? = some d → d.Orderly) : (op.apply c).Orderly where
  entries shelf name e' h := by
    cases op.origin h with
    | kept e before lasts => exact (hc.entries shelf name e before).lasts lasts
    | taken d _ operand there => exact (hoperand d operand).entries shelf name e' there
    | made category o _ admitted place entry =>
      subst place entry
      exact belongs_create admitted o
  usages name u h := by
    rcases op.usages_origin h with
      ⟨v, before, lasts⟩ | ⟨-, d, operand, there⟩ | ⟨-, hname, hreserved⟩
    · obtain ⟨hv, hunreserved⟩ := hc.usages name v before
      exact ⟨lasts.name.trans hv, hunreserved⟩
    · exact (hoperand d operand).usages name u there
    · exact ⟨hname, not_underscores_of_not_isReserved hreserved⟩

theorem Orderly.foldl_add (hc : c.Orderly) (fs : List Finding) : (fs.foldl add c).Orderly := by
  induction fs generalizing c with
  | nil => exact hc
  | cons f fs ih => exact ih (hc.apply (.add f) fun _ h => by cases h)

/-- A scan enters what it finds into an empty catalogue. -/
theorem orderly_of_ofFeed {σ : Type} [Feed σ] [LawfulFeed σ] {o : ScanOptions} {file : String}
    {feed : σ} (h : (ofFeed o file feed).result = .ok c) : c.Orderly := by
  unfold ofFeed at h
  split at h
  · next s _ =>
    cases h
    have hfound := (Orderly.empty (o.env file).file).foldl_add s.findings
    refine ⟨fun shelf name e he => hfound.entries shelf name e ?_, hfound.usages⟩
    cases shelf <;> exact he
  · cases h

/-! ## Every catalogue -/

/-- The catalogues that can come about. -/
inductive Obtained : Catalog → Prop
  | fresh (name : String) : Obtained { name }
  | scanned {σ : Type} [Feed σ] [LawfulFeed σ] {c : Catalog} (o : ScanOptions) (file : String)
      (feed : σ) (h : (ofFeed o file feed).result = .ok c) : Obtained c
  | apply {c : Catalog} (op : Operation) (before : Obtained c)
      (operand : ∀ d, op.operand? = some d → Obtained d) : Obtained (op.apply c)

theorem Obtained.orderly (h : Obtained c) : c.Orderly := by
  induction h with
  | fresh name => exact .empty name
  | scanned o file feed h => exact orderly_of_ofFeed h
  | apply op _ _ ih hoperand => exact ih.apply op hoperand

/-- **The tables of a catalogue are in order, and what is in them lasts.** In every catalogue
that can come about, each entry stands under its own name in the table of its category, and
there is neither an empty nor a reserved name. No operation changes the category of an entry,
takes away or changes a header that is set, or takes back `static`; and of the uses of a name
none changes more than the lines. -/
theorem orderly_and_lasting :
    (∀ c, Obtained c → c.Orderly)
    ∧ (∀ (c : Catalog) (op : Operation) (shelf : Shelf) (name : String) (e e' : Entry),
        (c.table shelf).get? name = some e →
        ((op.apply c).table shelf).get? name = some e' → e.Lasts e')
    ∧ ∀ (c : Catalog) (op : Operation) (name : String) (u u' : Usage),
        c.usages.get? name = some u → (op.apply c).usages.get? name = some u' → u.Lasts u' := by
  refine ⟨fun c h => h.orderly, fun c op shelf name e e' hbefore hafter => ?_,
    fun c op name u u' hbefore hafter => ?_⟩
  · cases op.origin hafter with
    | kept e₀ before lasts =>
      cases before.symm.trans hbefore
      exact lasts
    | taken _ new _ _ => cases new.symm.trans hbefore
    | made _ _ new _ _ _ => cases new.symm.trans hbefore
  · rcases op.usages_origin hafter with ⟨v, before, lasts⟩ | ⟨new, -⟩ | ⟨new, -⟩
    · cases before.symm.trans hbefore
      exact lasts
    · cases new.symm.trans hbefore
    · cases new.symm.trans hbefore

/-- `static int f(int x);` -/
def staticPrototype : List Token :=
  [⟨.name, "static"⟩, ⟨.name, "int"⟩, ⟨.name, "f"⟩, ⟨.separator, "("⟩, ⟨.name, "int"⟩, ⟨.name, "x"⟩,
    ⟨.separator, ")"⟩, ⟨.separator, ";"⟩]

/-- The function is seen once more, in another header and without `static`. -/
def seenAgain : Operation := .add (.declaration "f" .function { header := some "b.h" })

theorem lasting_of_seenAgain :
    ∃ c e, (ofFeed {} "a.h" staticPrototype).result = .ok c
      ∧ (seenAgain.apply c).Orderly
      ∧ (seenAgain.apply c).functions.get? "f" = some e
      ∧ e.header = some "a.h" ∧ e.isStatic = true := by
  have hscan : ((ofFeed {} "a.h" staticPrototype).result.toOption.any fun c =>
      (c.functions.get? "f").any (fun e => e.header = some "a.h" && e.isStatic)
        && ((seenAgain.apply c).functions.get? "f").isSome) = true := by
    decide +kernel
  obtain ⟨c, hsome, hscan⟩ := (Option.any_eq_true ..).mp hscan
  have hc := Outcome.eq_ok_of_toOption hsome
  obtain ⟨hbefore, hafter⟩ := Bool.and_eq_true_iff.mp hscan
  obtain ⟨e, he, hfields⟩ := (Option.any_eq_true ..).mp hbefore
  obtain ⟨e', he'⟩ := Option.isSome_iff_exists.mp hafter
  obtain ⟨hheader, hstatic⟩ : e.header = some "a.h" ∧ e.isStatic = true := by
    simpa using hfields
  have hobtained : Obtained (seenAgain.apply c) :=
    .apply seenAgain (.scanned {} "a.h" _ hc) fun _ h => by cases h
  have hlasts := orderly_and_lasting.2.1 c seenAgain .functions "f" e e' he he'
  exact ⟨c, e', hc, orderly_and_lasting.1 _ hobtained, he', hlasts.header _ hheader,
    hlasts.isStatic hstatic⟩

end Catalog

end HeaderAtlas

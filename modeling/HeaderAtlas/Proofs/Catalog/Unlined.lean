import HeaderAtlas.Declaration.Run

/-!
# Lines taken away

Findings, notices and failures say on which line something was read, and entries and usages
keep it. `unlined` sets these lines to nought and leaves everything else.

Nothing in a catalogue depends on a line but the lines themselves: to enter findings and take
the lines away is to take them away first (`Catalog.unlined_foldl_add`).
-/

namespace HeaderAtlas

/-! ## What is written down -/

/-- The file only. -/
def Place.unlined (p : Place) : Place := { p with line := 0 }

def Failure.unlined : Failure → Failure
  | malformed message place => malformed message place.unlined
  | width message place => width message place.unlined
  | e => e

def Notice.unlined (n : Notice) : Notice := { n with place := n.place.map Place.unlined }

def Observation.unlined (o : Observation) : Observation := { o with line := o.line.map fun _ => 0 }

def Catalog.Finding.unlined : Catalog.Finding → Catalog.Finding
  | declaration name category o => declaration name category o.unlined
  | use name role place => use name role place.unlined

def Entry.unlined (e : Entry) : Entry := { e with line := 0 }

/-- As many uses, on no particular lines. -/
def Usage.unlined (u : Usage) : Usage := { u with lines := u.lines.map fun _ => 0 }

/-! ## Catalogues -/

theorem Entry.unlined_create (name : String) (category : Category) (o : Observation) :
    (create name category o).unlined = create name category o.unlined := by
  simp only [create, unlined, Observation.unlined]
  cases o.line <;> rfl

theorem Entry.unlined_amend (e : Entry) (o : Observation) :
    (e.amend o).unlined = e.unlined.amend o.unlined := by
  simp only [amend, unlined, Observation.unlined]
  cases o.line <;> rfl

namespace Catalog

/-- The catalogue with the lines taken away, those of entries and those of uses. -/
def unlined (c : Catalog) : Catalog :=
  { c with
    functions := c.functions.map Entry.unlined
    vars := c.vars.map Entry.unlined
    inclusions := c.inclusions.map Entry.unlined
    structs := c.structs.map Entry.unlined
    unions := c.unions.map Entry.unlined
    enumerators := c.enumerators.map Entry.unlined
    typedefs := c.typedefs.map Entry.unlined
    macros := c.macros.map Entry.unlined
    usages := c.usages.map Usage.unlined }

theorem table_unlined (c : Catalog) (s : Shelf) :
    c.unlined.table s = (c.table s).map Entry.unlined := by
  cases s <;> rfl

theorem unlined_setTable (c : Catalog) (s : Shelf) (t : Table) :
    (c.setTable s t).unlined = c.unlined.setTable s (t.map Entry.unlined) := by
  cases s <;> rfl

theorem unlined_record (c : Catalog) (name : String) (category : Category) (o : Observation) :
    (c.record name category o).unlined = c.unlined.record name category o.unlined := by
  unfold record
  dsimp only
  split
  · rw [unlined_setTable, NameMap.map_insert, table_unlined, NameMap.get?_map]
    cases (c.table category.shelf).get? name with
    | none => rw [Entry.unlined_create]; rfl
    | some e => rw [Entry.unlined_amend]; rfl
  · rfl

theorem unlined_recordUse (c : Catalog) (name : String) (role : Role) (place : Place) :
    (c.recordUse name role place).unlined = c.unlined.recordUse name role place.unlined := by
  unfold recordUse
  split
  · rfl
  · simp only [unlined, NameMap.map_insert, NameMap.get?_map]
    cases c.usages.get? name with
    | none => rfl
    | some u => simp [Usage.unlined, Place.unlined]

theorem unlined_add (c : Catalog) (f : Finding) : (c.add f).unlined = c.unlined.add f.unlined := by
  cases f with
  | declaration name category o => exact unlined_record c name category o
  | use name role place => exact unlined_recordUse c name role place

theorem unlined_foldl_add (fs : List Finding) (c : Catalog) :
    (fs.foldl add c).unlined = (fs.map Finding.unlined).foldl add c.unlined := by
  induction fs generalizing c with
  | nil => rfl
  | cons f fs ih => rw [List.foldl_cons, ih, unlined_add]; rfl

end Catalog

/-- What cataloguing a file comes to, with the lines taken away. -/
def Outcome.unlined (r : Outcome Catalog) : Outcome Catalog where
  result := (r.result.map Catalog.unlined).mapError Failure.unlined
  journal := r.journal.map Notice.unlined

end HeaderAtlas

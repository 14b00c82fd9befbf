import HeaderAtlas.NameMap
import HeaderAtlas.Symbol.Entry

/-!
# Catalogues

A catalogue lists what one file, or a whole project, declares. There is one
table per category, except that function types share the table of the functions;
`Catalog.shelf` says which table a category goes to. A name may stand in several
tables at once, as when a struct and a typedef are spelt alike.

Reserved names never enter a catalogue.
-/

namespace HeaderAtlas

/-- Entries by name. -/
abbrev Table := NameMap Entry

/-- The declarations of one file or project. -/
structure Catalog where
  /-- The file or project described. -/
  name : String
  /-- Functions and function types. -/
  functions : Table := ∅
  vars : Table := ∅
  inclusions : Table := ∅
  structs : Table := ∅
  unions : Table := ∅
  enumerators : Table := ∅
  typedefs : Table := ∅
  macros : Table := ∅
  /-- Names used inside bodies. -/
  usages : NameMap Usage := ∅
  /-- `Key: value` metadata of the leading comment. -/
  info : NameMap String := ∅
deriving DecidableEq, Inhabited

/-- The tables of a catalogue. -/
inductive Shelf where
  | functions | vars | structs | unions | enumerators | typedefs | macros | inclusions
deriving DecidableEq, Inhabited, Repr

/-- Every table, in the order of a report. -/
def Shelf.all : List Shelf :=
  [functions, vars, structs, unions, enumerators, typedefs, macros, inclusions]

/-- The table's name in a report. -/
def Shelf.label : Shelf → String
  | functions => "functions"
  | vars => "variables"
  | structs => "structs"
  | unions => "unions"
  | enumerators => "enums"
  | typedefs => "typedefs"
  | macros => "macros"
  | inclusions => "includes"

/-- The table that holds the symbols of a category. -/
def Category.shelf : Category → Shelf
  | function => .functions
  | functionType => .functions
  | var => .vars
  | inclusion => .inclusions
  | struct => .structs
  | union => .unions
  | enumerator => .enumerators
  | typedef => .typedefs
  | macroDef => .macros

namespace Catalog

/-- One table. -/
def table (c : Catalog) : Shelf → Table
  | .functions => c.functions
  | .vars => c.vars
  | .structs => c.structs
  | .unions => c.unions
  | .enumerators => c.enumerators
  | .typedefs => c.typedefs
  | .macros => c.macros
  | .inclusions => c.inclusions

/-- Replaces one table. -/
def setTable (c : Catalog) (s : Shelf) (t : Table) : Catalog :=
  match s with
  | .functions => { c with functions := t }
  | .vars => { c with vars := t }
  | .structs => { c with structs := t }
  | .unions => { c with unions := t }
  | .enumerators => { c with enumerators := t }
  | .typedefs => { c with typedefs := t }
  | .macros => { c with macros := t }
  | .inclusions => { c with inclusions := t }

/-- Setting a table is seen in that table and in no other. -/
theorem table_setTable (c : Catalog) (s r : Shelf) (t : Table) :
    (c.setTable s t).table r = if s = r then t else c.table r := by
  cases s <;> cases r <;> rfl

/-! ## Recording -/

/-- May the name be catalogued? -/
def admits (name : String) : Bool := !name.isEmpty && !isReserved name

/-- Records an observation: makes the entry, or amends it. -/
def record (c : Catalog) (name : String) (category : Category) (o : Observation) : Catalog :=
  if admits name then
    let shelf := category.shelf
    let table := c.table shelf
    let entry := match table.get? name with
      | some e => e.amend o
      | none => Entry.create name category o
    c.setTable shelf (table.insert name entry)
  else c

/-- Records one use of a name inside a body. The first use fixes the role and the
file; each use adds its line. -/
def recordUse (c : Catalog) (name : String) (role : Role) (place : Place) : Catalog :=
  if isReserved name then c
  else
    let usage := (c.usages.get? name).getD ⟨name, role, place.file, []⟩
    { c with usages := c.usages.insert name { usage with lines := usage.lines ++ [place.line] } }

/-- Something found in a file. -/
inductive Finding where
  /-- A declaration. -/
  | declaration (name : String) (category : Category) (o : Observation)
  /-- A use of a name inside a body. -/
  | use (name : String) (role : Role) (place : Place)
deriving DecidableEq, Repr

/-- Enters a finding. -/
def add (c : Catalog) : Finding → Catalog
  | .declaration name category o => c.record name category o
  | .use name role place => c.recordUse name role place

/-! ## Looking up -/

/-- The entry of a name in the table of a category. -/
def get? (c : Catalog) (category : Category) (name : String) : Option Entry :=
  (c.table category.shelf).get? name

/-- The first entry of a name, the tables taken in the order of a report. -/
def find? (c : Catalog) (name : String) : Option Entry :=
  Shelf.all.findSome? fun s => (c.table s).get? name

/-- Does any table have the name? -/
def contains (c : Catalog) (name : String) : Bool := (c.find? name).isSome

/-- Every entry, table after table. -/
def entries (c : Catalog) : List Entry := Shelf.all.flatMap fun s => (c.table s).values

/-- The number of entries in all tables. -/
def size (c : Catalog) : Nat := Shelf.all.foldr (fun s n => (c.table s).size + n) 0

end Catalog

end HeaderAtlas

import HeaderAtlas.Catalog.Basic
import HeaderAtlas.Journal
import HeaderAtlas.Text.Quoted

/-!
# Putting catalogues together

A project's catalogue is made in two steps. The headers are united: every
declaration is taken over, and the first entry of a name wins. Then each
implementation file is consulted for the functions the headers declare: it
supplies their documentation and the file that defines them, and nothing else.
-/

namespace HeaderAtlas

namespace Catalog

/-! ## Union -/

/-- A table under construction, with the notices it has given rise to. -/
abbrev Merging := Table × Journal

/-- The notice that `incoming` differs from the `existing` entry of its name.
Function types are called functions here, as they share a table with them. -/
def redeclared (name : String) (existing incoming : Entry) : Notice where
  topic := .redeclaration
  message :=
    let category := match existing.category with
      | .functionType => Category.function
      | c => c
    category.label ++ " " ++ name ++ " from " ++ existing.file?.getD "?" ++
      " redeclared in " ++ incoming.file?.getD "?"
  place := incoming.place?
  quiet := false

/-- Takes over one entry. The first entry of a name stays; a different one after
it is noted. -/
def unite1 (m : Merging) (b : String × Entry) : Merging :=
  match m.1.get? b.1 with
  | some existing =>
    if existing = b.2 then m else (m.1, m.2 ++ [redeclared b.1 existing b.2])
  | none => (m.1.insert b.1 b.2, m.2)

/-- Takes over the entries of a table, by name. -/
def uniteTable (into : Table) (other : Table) (j : Journal) : Merging :=
  other.entries.foldl unite1 (into, j)

/-- Takes over the bindings whose names are new. -/
def uniteNew {α : Type} (into other : NameMap α) : NameMap α :=
  other.entries.foldl (fun m (k, v) => m.insertIfNew k v) into

/-- Removes the given names from a table. -/
def without (t : Table) (names : List String) : Table := names.foldl NameMap.erase t

/-- The union of `c` with `other`, and the journal with what it gave rise to.
A macro gives way to a function, a variable or an enumerator of its name: one
that is already there when a function or variable comes, and one that comes when
any of the three is there. -/
def union (c other : Catalog) (j : Journal) : Catalog × Journal :=
  let (functions, j) := uniteTable c.functions other.functions j
  let (vars, j) := uniteTable c.vars other.vars j
  let (structs, j) := uniteTable c.structs other.structs j
  let (unions, j) := uniteTable c.unions other.unions j
  let (typedefs, j) := uniteTable c.typedefs other.typedefs j
  let (enumerators, j) := uniteTable c.enumerators other.enumerators j
  let kept := without (without c.macros other.functions.names) other.vars.names
  -- The tables are the united ones, so an incoming declaration shadows too.
  let shadowed (name : String) : Bool :=
    functions.contains name || vars.contains name || enumerators.contains name
  let incoming := other.macros.entries.filter fun b => !shadowed b.1
  let (macros, j) := incoming.foldl unite1 (kept, j)
  ({ c with
      functions, vars, structs, unions, typedefs, enumerators, macros
      inclusions := uniteNew c.inclusions other.inclusions
      usages := uniteNew c.usages other.usages }, j)

/-! ## Documentation from an implementation file -/

/-- The notice that header and implementation of a function differ in guards. -/
def guardMismatch (name : String) (declared implemented : Entry) : Notice where
  topic := .guardMismatch
  message :=
    "Header condition differs from Function for " ++ name ++ ": H: " ++
      Text.quotedList declared.guards ++ " C: " ++ Text.quotedList implemented.guards
  place := implemented.place?
  quiet := false

/-- Consults one function of an implementation file. -/
def enrich1 (m : Merging) (b : String × Entry) : Merging :=
  match m.1.get? b.1 with
  | none => m
  | some declared =>
    let j := if declared.guards = b.2.guards then m.2
      else m.2 ++ [guardMismatch b.1 declared b.2]
    let amended := declared.amend
      { module := b.2.module, detail := b.2.detail, extra := b.2.extra }
    (m.1.insert b.1 amended, j)

/-- The catalogue with the documentation that an implementation file holds for
the functions declared in it. Guards stay as declared; a disagreement is
noted. -/
def enrich (c unit : Catalog) (j : Journal) : Catalog × Journal :=
  let (functions, j) := unit.functions.entries.foldl enrich1 (c.functions, j)
  ({ c with functions }, j)

end Catalog

end HeaderAtlas

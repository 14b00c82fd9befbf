import HeaderAtlas.Catalog.Basic

/-!
# Counting a catalogue

How many entries each table has and how many of them are public, and the table
of these counts that a summary prints.
-/

namespace HeaderAtlas

/-- The counts of one table. -/
structure TableStats where
  total : Nat
  /-- Declared in a header and not `static`. -/
  exposed : Nat
deriving DecidableEq, Inhabited, Repr

namespace Catalog

/-- The counts of one table. -/
def statsOf (c : Catalog) (s : Shelf) : TableStats where
  total := (c.table s).size
  exposed := (c.table s).values.countP Entry.isPublic

/-- A text filled up on the right to the given width. -/
def padRight (width : Nat) (s : String) : String :=
  s ++ String.ofList (List.replicate (width - s.length) ' ')

/-- A text filled up on the left to the given width. -/
def padLeft (width : Nat) (s : String) : String :=
  String.ofList (List.replicate (width - s.length) ' ') ++ s

/-- One line of the table: a label and a count, in columns. -/
def statsRow (label : String) (count : Nat) : String :=
  "  " ++ padRight 10 label ++ " " ++ padLeft 6 (toString count)

/-- The table of counts, without a line break at its end. -/
def statsText (c : Catalog) : String :=
  let rows := Shelf.all.map fun s =>
    let stats := c.statsOf s
    statsRow s.label stats.total ++ " (" ++ toString stats.exposed ++ " public)"
  "\n".intercalate (rows ++ [statsRow "references" c.usages.size])

/-- The summary of a catalogue: its name, its metadata and its counts. -/
def summary (c : Catalog) : String :=
  let info := c.info.entries.map fun (key, value) => "  " ++ key ++ ": " ++ value
  "\n".intercalate ([c.name] ++ info ++ [c.statsText])

end Catalog

end HeaderAtlas

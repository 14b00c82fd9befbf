/-!
# Places

Where in the sources something was found. Lexing goes line by line, so a place
is a file and a line.
-/

namespace HeaderAtlas

/-- A line of a file, counted from one. -/
structure Place where
  file : String
  line : Nat
deriving DecidableEq, Inhabited, Repr

/-- `file:line`. -/
def Place.text (p : Place) : String := p.file ++ ":" ++ toString p.line

end HeaderAtlas

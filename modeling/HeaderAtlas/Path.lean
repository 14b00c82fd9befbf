import HeaderAtlas.Text.Blank

/-!
# Paths

Paths are texts whose components are set apart by slashes. Empty components and
single dots say nothing.
-/

namespace HeaderAtlas

namespace Path

open Text

/-- The components of a path, without the ones that say nothing. -/
def components (path : String) : List (List Char) :=
  (pieces (· == '/') path.toList).filter fun c => !c.isEmpty && c != ['.']

/-- The last component, unless it leads upwards. -/
def fileName? (path : String) : Option (List Char) :=
  match (components path).getLast? with
  | some ['.', '.'] => none
  | last => last

/-- What follows the last dot of the file name. A name that starts with its only
dot has no extension. -/
def extension? (path : String) : Option String := do
  let name ← fileName? path
  let tail := (name.reverse.takeWhile (· != '.')).reverse
  -- There is a dot, and something before it.
  if tail.length + 1 < name.length then some (String.ofList tail) else none

end Path

/-- Does a file declare the public interface, or implement it? -/
inductive FileKind where
  | header
  | source
deriving DecidableEq, Inhabited, Repr

/-- Files ending in `.h` are headers, all others are sources. -/
def FileKind.ofPath (path : String) : FileKind :=
  if Path.extension? path = some "h" then .header else .source

end HeaderAtlas

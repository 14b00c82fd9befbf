import HeaderAtlas.Place

/-!
# Failures

What stops a run. Problems with documentation, redeclarations and the like do
not: they are noted in a `Journal` and the run goes on.
-/

namespace HeaderAtlas

/-- Why a file could not be read to its end, or a run could not start. -/
inductive Failure where
  /-- The declarations at `place` have a shape the grammar does not know. -/
  | malformed (message : String) (place : Place)
  /-- A declaration at `place` uses `long` without permission. -/
  | width (message : String) (place : Place)
  /-- The settings do not describe a configuration. -/
  | settings
  /-- There is no such file. -/
  | missing (path : String)
  /-- The system would not read a file. -/
  | unreadable
deriving DecidableEq, Inhabited, Repr

namespace Failure

/-- The failure in words. The causes that the system or a settings file words
itself are named, not quoted. -/
def message : Failure → String
  | malformed message place => "Parse error at " ++ place.text ++ ": " ++ message
  | width message place => "Width policy violation at " ++ place.text ++ ": " ++ message
  | settings => "Configuration error"
  | missing path => "File not found: " ++ path
  | unreadable => "IO error"

/-- The offending line, where there is one. -/
def place? : Failure → Option Place
  | malformed _ place => some place
  | width _ place => some place
  | _ => none

end Failure

end HeaderAtlas

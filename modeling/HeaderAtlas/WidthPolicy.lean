import HeaderAtlas.Settings.Basic
import HeaderAtlas.Symbol.Detail

/-!
# The width policy

A `long` is as wide as the platform likes, so public declarations must use
`long long`. The functions and structs that are older than this rule are listed
in the settings; anything else with a plain `long` is refused.
-/

namespace HeaderAtlas

namespace WidthPolicy

/-- Does the type use `long` other than in `long long`? The test is on the text:
one `long long` anywhere in it excuses the whole type. -/
def isPlainLong (type : String) : Bool :=
  Text.containsText "long" type && !Text.containsText "long long" type

/-- A use of `long` that the settings do not tolerate. -/
inductive Violation where
  | result (function : String)
  | param (function : String) (param : Option String)
  | field (struct field : String)
deriving DecidableEq, Inhabited, Repr

/-- The violation in words. -/
def Violation.message : Violation → String
  | result f => "function '" ++ f ++ "' is not allowed to return long, use long long instead"
  | param f p =>
    "function '" ++ f ++ "' is not allowed to take long parameter '" ++ p.getD "" ++
      "', use long long instead"
  | field s f =>
    "struct '" ++ s ++ "' is not allowed to contain long field '" ++ f ++
      "', use long long instead"

/-- The first violation in a signature: the result, then the parameters in
order. -/
def inFunction? (w : WidthSettings) (name returnType : String) (params : List Param) :
    Option Violation :=
  if isPlainLong returnType && !w.allowsReturn name then some (.result name)
  else params.findSome? fun p =>
    if isPlainLong p.type && !w.allowsParam name p.name then some (.param name p.name) else none

/-- The first violation among the fields of a struct. Only the fields themselves
are looked at, not the fields nested in them. -/
def inStruct? (w : WidthSettings) (name : String) (fields : List Field) : Option Violation :=
  fields.findSome? fun f =>
    if isPlainLong f.type && !w.allowsField name f.name then some (.field name f.name) else none

end WidthPolicy

end HeaderAtlas

import HeaderAtlas.NameMap
import HeaderAtlas.Text.Search

/-!
# Settings

The tables that a scan consults: which words to drop, which macros to hide,
which call-like macros have a layout of their own, which functions need no
documentation and which uses of `long` are tolerated.
-/

namespace HeaderAtlas

/-- A set of names. -/
abbrev NameSet := NameMap Unit

/-- The set of the given names. -/
def NameSet.ofList (names : List String) : NameSet := NameMap.ofList (names.map fun n => (n, ()))

/-- Call-like macros that stand where a declaration could and have a layout of
their own. -/
inductive SpecialForm where
  /-- `NAME(type);` -/
  | enumDecl
  /-- `NAME(type, sentinel, "a", N_("b"), ...);` -/
  | enumImpl
  /-- `NAME("module");` -/
  | logInit
  /-- Anything up to the next `;`. -/
  | staticAssert
deriving DecidableEq, Inhabited, Repr

/-- How the names a usage rule matches are taken. -/
inductive UsageMode where
  /-- `name(` is a call, `name other;` is a use of a type. -/
  | callsAndTypes
  /-- Every occurrence is a use of a type. -/
  | anyUse
deriving DecidableEq, Inhabited, Repr

/-- Names starting with `stem` are looked for inside bodies. -/
structure UsageRule where
  stem : String
  mode : UsageMode
deriving DecidableEq, Inhabited, Repr

/-- What the declaration reader consults. -/
structure GrammarSettings where
  /-- Only guards containing this text are kept on symbols. -/
  guardMarker : String
  /-- A comment containing this text switches errors off. -/
  errorsOffMarker : String
  /-- A comment containing this text switches errors on again. -/
  errorsOnMarker : String
  /-- Macros whose names end in one of these are header guards. -/
  headerGuardTails : List String
  /-- Macros that are never recorded. -/
  hiddenMacros : NameSet
  /-- Words to drop, each with the number of tokens to drop after it. -/
  ignoredWords : NameMap Nat
  specialForms : NameMap SpecialForm
  /-- Are the uses of names inside bodies recorded? -/
  collectUsages : Bool
  /-- The names to look for; the first rule that matches decides. -/
  usageRules : List UsageRule
deriving DecidableEq

/-- What the documentation checks consult. -/
structure DocSettings where
  /-- Entry points of programs, which nobody documents. -/
  entryPoints : NameSet
  /-- Functions excused from documentation. -/
  ignoredFunctions : NameSet
  /-- Macros excused from documentation. -/
  ignoredMacros : NameSet
deriving DecidableEq

/-- The uses of `long` tolerated in one function. -/
structure LegacyFunction where
  returnsLong : Bool := false
  /-- The parameters that may be `long`. -/
  params : List String := []
deriving DecidableEq, Inhabited, Repr

/-- The uses of `long` that are tolerated. -/
structure WidthSettings where
  legacyFunctions : NameMap LegacyFunction
  /-- The fields that may be `long`, by struct. -/
  legacyFields : NameMap (List String)
deriving DecidableEq

/-- All settings of a scan. -/
structure Settings where
  grammar : GrammarSettings
  docs : DocSettings
  width : WidthSettings
deriving DecidableEq

/-! ## Questions asked of the settings -/

/-- Is the macro the sentinel of a header? -/
def GrammarSettings.isHeaderGuard (g : GrammarSettings) (name : String) : Bool :=
  g.headerGuardTails.any fun tail => Text.endsWithText tail name

/-- Is the function excused from documentation? -/
def DocSettings.excusesFunction (d : DocSettings) (name : String) : Bool :=
  d.entryPoints.contains name || d.ignoredFunctions.contains name

/-- Is the macro excused from documentation? -/
def DocSettings.excusesMacro (d : DocSettings) (name : String) : Bool :=
  d.ignoredMacros.contains name

/-- May the function return `long`? -/
def WidthSettings.allowsReturn (w : WidthSettings) (function : String) : Bool :=
  (w.legacyFunctions.get? function).any (·.returnsLong)

/-- May the parameter of the function be `long`? -/
def WidthSettings.allowsParam (w : WidthSettings) (function : String) (param : Option String) :
    Bool :=
  match w.legacyFunctions.get? function, param with
  | some f, some p => f.params.contains p
  | _, _ => false

/-- May the field of the struct be `long`? -/
def WidthSettings.allowsField (w : WidthSettings) (struct field : String) : Bool :=
  (w.legacyFields.get? struct).any (·.contains field)

end HeaderAtlas

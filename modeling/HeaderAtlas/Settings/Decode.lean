import HeaderAtlas.Settings.Builtin
import HeaderAtlas.Settings.Decoder

/-!
# Settings from structured data

A section or a table that is not mentioned keeps its built-in value; one that is
mentioned is replaced as a whole. Fields nobody knows are passed over. Anything
of the wrong type spoils the whole: there are then no settings.
-/

namespace HeaderAtlas

open Decoder

/-- A layout of a call-like macro. -/
def SpecialForm.decode : Decoder SpecialForm := fun x => do
  match ← word x with
  | "enum_decl" => return .enumDecl
  | "enum_impl" => return .enumImpl
  | "log_init" => return .logInit
  | "static_assert" => return .staticAssert
  | _ => failure

/-- The word for a layout. -/
def SpecialForm.key : SpecialForm → String
  | enumDecl => "enum_decl"
  | enumImpl => "enum_impl"
  | logInit => "log_init"
  | staticAssert => "static_assert"

/-- A way to take a name. -/
def UsageMode.decode : Decoder UsageMode := fun x => do
  match ← word x with
  | "calls_and_types" => return .callsAndTypes
  | "any_use" => return .anyUse
  | _ => failure

/-- The word for a way to take a name. -/
def UsageMode.key : UsageMode → String
  | callsAndTypes => "calls_and_types"
  | anyUse => "any_use"

/-- A usage rule; both of its parts are needed. -/
def UsageRule.decode : Decoder UsageRule := fun x => do
  let given ← fields ["prefix", "mode"] x
  return ⟨← required given "prefix" text, ← required given "mode" UsageMode.decode⟩

/-- The section `parser`. -/
def GrammarSettings.decode : Decoder GrammarSettings := fun x => do
  let d := builtin
  let given ← fields
    ["conditional_marker", "errors_disabled_marker", "errors_enabled_marker",
      "header_guard_suffixes", "hidden_macros", "ignored_words", "special_forms",
      "collect_references", "reference_rules"] x
  return {
    guardMarker := ← field given "conditional_marker" text d.guardMarker
    errorsOffMarker := ← field given "errors_disabled_marker" text d.errorsOffMarker
    errorsOnMarker := ← field given "errors_enabled_marker" text d.errorsOnMarker
    headerGuardTails :=
      ← field given "header_guard_suffixes" (list text) d.headerGuardTails
    hiddenMacros := ← field given "hidden_macros" nameSet d.hiddenMacros
    ignoredWords := ← field given "ignored_words" (table count) d.ignoredWords
    specialForms := ← field given "special_forms" (table SpecialForm.decode) d.specialForms
    collectUsages := ← field given "collect_references" bool d.collectUsages
    usageRules := ← field given "reference_rules" (list UsageRule.decode) d.usageRules }

/-- The section `docs`. -/
def DocSettings.decode : Decoder DocSettings := fun x => do
  let d := builtin
  let given ← fields ["entry_points", "ignored_functions", "ignored_macros"] x
  return {
    entryPoints := ← field given "entry_points" nameSet d.entryPoints
    ignoredFunctions := ← field given "ignored_functions" nameSet d.ignoredFunctions
    ignoredMacros := ← field given "ignored_macros" nameSet d.ignoredMacros }

/-- The tolerances of one function. -/
def LegacyFunction.decode : Decoder LegacyFunction := fun x => do
  let given ← fields ["returns_long", "params"] x
  return {
    returnsLong := ← field given "returns_long" bool false
    params := ← field given "params" (list text) [] }

/-- The section `width`. -/
def WidthSettings.decode : Decoder WidthSettings := fun x => do
  let d := builtin
  let given ← fields ["legacy_functions", "legacy_struct_fields"] x
  return {
    legacyFunctions :=
      ← field given "legacy_functions" (table LegacyFunction.decode) d.legacyFunctions
    legacyFields :=
      ← field given "legacy_struct_fields" (table (list text)) d.legacyFields }

/-- Settings from data. -/
def Settings.decode : Decoder Settings := fun x => do
  let d := builtin
  let given ← fields ["parser", "docs", "width"] x
  return {
    grammar := ← field given "parser" GrammarSettings.decode d.grammar
    docs := ← field given "docs" DocSettings.decode d.docs
    width := ← field given "width" WidthSettings.decode d.width }

/-- The settings in a document. -/
def Settings.ofDocument? (d : Document) : Option Settings := (Settings.decode d.root).run' d

end HeaderAtlas

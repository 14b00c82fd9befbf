import HeaderAtlas.Settings.Basic

/-!
# Built-in settings

The tables used where a settings file says nothing.
-/

namespace HeaderAtlas

/-- The built-in words, macros and rules of the declaration reader. -/
def GrammarSettings.builtin : GrammarSettings where
  guardMarker := "ENABLED"
  errorsOffMarker := "DOC_DISABLE"
  errorsOnMarker := "DOC_ENABLE"
  headerGuardTails := ["_H", "_H_ALLOW"]
  hiddenMacros := .ofList ["VIR_DEPRECATED", "VIR_EXPORT_VAR"]
  ignoredWords := .ofList [
    ("G_GNUC_UNUSED", 0), ("G_GNUC_NULL_TERMINATED", 0), ("VIR_DEPRECATED", 0),
    ("VIR_EXPORT_VAR", 0), ("WINAPI", 0), ("__declspec", 3), ("__stdcall", 0)]
  specialForms := .ofList [
    ("VIR_ENUM_DECL", .enumDecl), ("VIR_ENUM_IMPL", .enumImpl), ("VIR_LOG_INIT", .logInit),
    ("G_STATIC_ASSERT", .staticAssert)]
  collectUsages := false
  usageRules := [⟨"vir", .callsAndTypes⟩, ⟨"XEN_", .anyUse⟩, ⟨"LIBXEN_", .anyUse⟩]

/-- The built-in excuses from documentation. -/
def DocSettings.builtin : DocSettings where
  entryPoints := .ofList ["main"]
  ignoredFunctions := .ofList [
    "virConnectSupportsFeature",
    "virDomainMigrateFinish",
    "virDomainMigrateFinish2",
    "virDomainMigratePerform",
    "virDomainMigratePrepare",
    "virDomainMigratePrepare2",
    "virDomainMigratePrepareTunnel",
    "virDomainMigrateBegin3",
    "virDomainMigrateFinish3",
    "virDomainMigratePerform3",
    "virDomainMigratePrepare3",
    "virDomainMigrateConfirm3",
    "virDomainMigratePrepareTunnel3",
    "DllMain",
    "virTypedParamsValidate",
    "virTypedParameterValidateSet",
    "virTypedParameterAssign",
    "virTypedParameterAssignFromStr",
    "virTypedParameterToString",
    "virTypedParamsCheck",
    "virTypedParamsCopy",
    "virDomainMigrateBegin3Params",
    "virDomainMigrateFinish3Params",
    "virDomainMigratePerform3Params",
    "virDomainMigratePrepare3Params",
    "virDomainMigrateConfirm3Params",
    "virDomainMigratePrepareTunnel3Params",
    "virErrorCopyNew"]
  ignoredMacros := .ofList ["_virSchedParameter", "_virBlkioParameter", "_virMemoryParameter"]

/-- The built-in list of functions that still use `long`. The list is closed: a
new function has to use `long long`. -/
def WidthSettings.builtinFunctions : List (String × LegacyFunction) :=
  let both := ["flags", "bandwidth"]
  [
    ("virGetVersion", ⟨false, ["libVer", "typeVer"]⟩),
    ("virConnectGetLibVersion", ⟨false, ["libVer"]⟩),
    ("virConnectGetVersion", ⟨false, ["hvVer"]⟩),
    ("virDomainGetMaxMemory", ⟨true, []⟩),
    ("virDomainMigrate", ⟨false, both⟩),
    ("virDomainMigrate2", ⟨false, both⟩),
    ("virDomainMigrateBegin3", ⟨false, both⟩),
    ("virDomainMigrateConfirm3", ⟨false, both⟩),
    ("virDomainMigrateDirect", ⟨false, both⟩),
    ("virDomainMigrateFinish", ⟨false, ["flags"]⟩),
    ("virDomainMigrateFinish2", ⟨false, ["flags"]⟩),
    ("virDomainMigrateFinish3", ⟨false, ["flags"]⟩),
    ("virDomainMigratePeer2Peer", ⟨false, both⟩),
    ("virDomainMigratePerform", ⟨false, both⟩),
    ("virDomainMigratePerform3", ⟨false, both⟩),
    ("virDomainMigratePrepare", ⟨false, both⟩),
    ("virDomainMigratePrepare2", ⟨false, both⟩),
    ("virDomainMigratePrepare3", ⟨false, both⟩),
    ("virDomainMigratePrepareTunnel", ⟨false, both⟩),
    ("virDomainMigratePrepareTunnel3", ⟨false, both⟩),
    ("virDomainMigrateToURI", ⟨false, both⟩),
    ("virDomainMigrateToURI2", ⟨false, both⟩),
    ("virDomainMigrateVersion1", ⟨false, both⟩),
    ("virDomainMigrateVersion2", ⟨false, both⟩),
    ("virDomainMigrateVersion3", ⟨false, both⟩),
    ("virDomainMigrateSetMaxSpeed", ⟨false, ["bandwidth"]⟩),
    ("virDomainSetMaxMemory", ⟨false, ["memory"]⟩),
    ("virDomainSetMemory", ⟨false, ["memory"]⟩),
    ("virDomainSetMemoryFlags", ⟨false, ["memory"]⟩),
    ("virDomainBlockCommit", ⟨false, ["bandwidth"]⟩),
    ("virDomainBlockJobSetSpeed", ⟨false, ["bandwidth"]⟩),
    ("virDomainBlockPull", ⟨false, ["bandwidth"]⟩),
    ("virDomainBlockRebase", ⟨false, ["bandwidth"]⟩),
    ("virDomainMigrateGetMaxSpeed", ⟨false, ["bandwidth"]⟩)]

/-- The built-in tolerance of `long`. -/
def WidthSettings.builtin : WidthSettings where
  legacyFunctions := .ofList builtinFunctions
  legacyFields := .ofList [
    ("_virDomainInfo", ["maxMem", "memory"]), ("_virNodeInfo", ["memory"]),
    ("_virDomainBlockJobInfo", ["bandwidth"])]

/-- The settings of a scan that was given none. -/
def Settings.builtin : Settings := ⟨.builtin, .builtin, .builtin⟩

instance : Inhabited Settings := ⟨.builtin⟩

end HeaderAtlas

import HeaderAtlas.Catalog.Union
import HeaderAtlas.Declaration.Run
import HeaderAtlas.FileTree
import HeaderAtlas.Settings.Decode
import HeaderAtlas.Yaml.Document

/-!
# Surveying a project

The headers and sources of a project are catalogued one file at a time. The
headers are united; the sources only add documentation to the functions that the
headers declare.
-/

namespace HeaderAtlas

/-! ## Single files -/

/-- The settings in the file at a path. -/
def Settings.load (disk : Disk) (path : String) : Except Failure Settings :=
  match disk path with
  | none => .error (.missing path)
  | some (.dir _) => .error .unreadable
  | some (.file bytes) =>
    match Text.decodeExact? bytes with
    | none => .error .unreadable
    | some text =>
      match (Document.ofYaml? text).bind Settings.ofDocument? with
      | some settings => .ok settings
      | none => .error .settings

/-- The catalogue of the file at a path. -/
def Catalog.ofFile (o : ScanOptions) (disk : Disk) (path : String) : Outcome Catalog :=
  match disk path with
  | none => ⟨.error (.missing path), []⟩
  | some (.dir _) => ⟨.error .unreadable, []⟩
  | some (.file bytes) => Catalog.ofBytes o path bytes

/-! ## Projects -/

/-- The files of a project. -/
structure FileLists where
  headers : List String := []
  sources : List String := []
deriving DecidableEq, Inhabited, Repr

/-- The files with the extension `ext`. -/
def FileLists.withExtension (ext : String) (paths : List String) : List String :=
  paths.filter fun p => Path.extension? p = some ext

/-- The headers and sources below a path, or the file at it. -/
def FileLists.discover (disk : Disk) (root : String) : FileLists :=
  let paths := match disk root with
    | some t => (t.filesAt root).map (·.1)
    | none => []
  ⟨withExtension "h" paths, withExtension "c" paths⟩

/-- Adds the files of another list at the end. -/
def FileLists.append (a b : FileLists) : FileLists :=
  ⟨a.headers ++ b.headers, a.sources ++ b.sources⟩

/-- What becomes of a survey when a file cannot be catalogued. -/
inductive OnFailure where
  /-- The survey ends. -/
  | abort
  /-- The file is left out. -/
  | skip
deriving DecidableEq, Inhabited, Repr

/-- A file that was left out. -/
structure Skipped where
  file : String
  failure : Failure
deriving DecidableEq, Inhabited, Repr

/-- The outcome of a survey. -/
structure Survey where
  /-- The catalogue of the whole project. -/
  catalog : Catalog
  /-- The catalogues of the headers. -/
  headers : NameMap Catalog := ∅
  /-- The catalogues of the sources. -/
  sources : NameMap Catalog := ∅
  journal : Journal := []
  skipped : List Skipped := []

namespace Survey

/-- Takes in one header. -/
def addHeader (s : Survey) (file : String) (c : Catalog) : Survey :=
  let (catalog, journal) := s.catalog.union c s.journal
  { s with catalog, journal, headers := s.headers.insert file c }

/-- Takes in one source. -/
def addSource (s : Survey) (file : String) (c : Catalog) : Survey :=
  let (catalog, journal) := s.catalog.enrich c s.journal
  { s with catalog, journal, sources := s.sources.insert file c }

/-- Takes in what cataloguing a file came to. Its journal counts either way. -/
def take (onFailure : OnFailure) (add : Survey → String → Catalog → Survey) (s : Survey)
    (file : String) (o : Outcome Catalog) : Except Failure Survey :=
  let s := { s with journal := s.journal ++ o.journal }
  match o.result, onFailure with
  | .ok c, _ => .ok (add s file c)
  | .error failure, .abort => .error failure
  | .error failure, .skip => .ok { s with skipped := s.skipped ++ [⟨file, failure⟩] }

/-- Surveys the files of a project. -/
def run (settings : Settings) (disk : Disk) (name : String) (onFailure : OnFailure)
    (files : FileLists) : Except Failure Survey := do
  let catalogued (kind : FileKind) (path : String) : Outcome Catalog :=
    Catalog.ofFile { settings, kind := some kind } disk path
  let s ← files.headers.foldlM
    (fun s path => take onFailure addHeader s path (catalogued .header path))
    { catalog := { name } }
  files.sources.foldlM
    (fun s path => take onFailure addSource s path (catalogued .source path)) s

end Survey

end HeaderAtlas

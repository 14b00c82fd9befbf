import HeaderAtlas.Declaration.Global
import HeaderAtlas.DocBlock.FileInfo
import HeaderAtlas.Settings.Builtin
import HeaderAtlas.Token.Lexer

/-!
# Cataloguing a file

From a source of tokens, a text or the bytes of a file to the catalogue of what
is declared in it.
-/

namespace HeaderAtlas

/-- What cataloguing a file comes to. The journal is there either way. -/
structure Outcome (α : Type) where
  result : Except Failure α
  journal : Journal

namespace Outcome

variable {α : Type} {r : Outcome α} {a : α}

theorem eq_ok_of_toOption (h : r.result.toOption = some a) : r.result = .ok a := by
  cases hr : r.result with
  | error f => rw [hr] at h; cases h
  | ok b => rw [hr] at h; cases h; rfl

theorem exists_ok (h : r.result.isOk = true) : ∃ a, r.result = .ok a := by
  cases hr : r.result with
  | error f => rw [hr] at h; cases h
  | ok a => exact ⟨a, rfl⟩

end Outcome

variable {σ : Type} [Feed σ] [LawfulFeed σ]

namespace Scanner

/-- A scan that has not begun. -/
def start (env : ScanEnv) (feed : σ) : Scanner σ where
  stream := { feed }
  guards := { marker := env.settings.grammar.guardMarker }

/-- Scans all of a feed. -/
def run (env : ScanEnv) (feed : σ) : Ending σ Unit :=
  Reader.readFile.run (Routine.run env) env (start env feed)

/-- The catalogue of what has been found. The first comment describes the file. -/
def catalog (env : ScanEnv) (s : Scanner σ) : Catalog :=
  { s.findings.foldl Catalog.add { name := env.file } with
    info := (s.topComment.map FileInfo.ofComment).getD ∅ }

end Scanner

/-- How a file is to be scanned. -/
structure ScanOptions where
  settings : Settings := .builtin
  /-- Taken from the name of the file, unless it is given. -/
  kind : Option FileKind := none
  /-- Taken from the settings, unless it is given. -/
  collectUsages : Option Bool := none

/-- What stays the same while the file is scanned. -/
def ScanOptions.env (o : ScanOptions) (file : String) : ScanEnv where
  file := file
  kind := o.kind.getD (.ofPath file)
  settings := o.settings
  collectUsages := o.collectUsages.getD o.settings.grammar.collectUsages

namespace Catalog

/-- The catalogue of what a feed declares. -/
def ofFeed (o : ScanOptions) (file : String) (feed : σ) : Outcome Catalog :=
  match Scanner.run (o.env file) feed with
  | .ok _ s => ⟨.ok (s.catalog (o.env file)), s.journal⟩
  | .failed failure s => ⟨.error failure, s.journal⟩

/-- The catalogue of what a text declares. -/
def ofText (o : ScanOptions) (file text : String) : Outcome Catalog :=
  ofFeed o file (Lexer.ofText text)

/-- The catalogue of what the bytes of a file declare. -/
def ofBytes (o : ScanOptions) (file : String) (bytes : List UInt8) : Outcome Catalog :=
  ofFeed o file (Lexer.ofBytes bytes)

end Catalog

end HeaderAtlas

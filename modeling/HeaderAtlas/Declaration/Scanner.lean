import HeaderAtlas.Catalog.Basic
import HeaderAtlas.Failure
import HeaderAtlas.Guards
import HeaderAtlas.Journal
import HeaderAtlas.Path
import HeaderAtlas.Settings.Basic
import HeaderAtlas.Token.Feed

/-!
# The state of a scan

What is carried along while a file is scanned (`Scanner`), what stays the same
(`ScanEnv`), and the few ways in which the state is written to.

A scan only writes down what it finds. The catalogue is made of its findings when
it is over, so that nothing found can influence the scan.
-/

namespace HeaderAtlas

/-- What stays the same while a file is scanned. -/
structure ScanEnv where
  /-- The file, as it is to appear in places. -/
  file : String
  kind : FileKind
  settings : Settings
  /-- Are the uses of names inside bodies recorded? -/
  collectUsages : Bool

namespace ScanEnv

/-- Outside headers everything but functions is local to its file. -/
def isLocal (env : ScanEnv) : Bool := env.kind != .header

/-- An observation made on a line, under the given guards. -/
def observe (env : ScanEnv) (guards : List String) (line : Nat) (detail : Option Detail)
    (extra : Option String) (isStatic : Bool) : Observation where
  header := if env.kind = .header then some env.file else none
  module := some env.file
  detail := detail
  extra := extra
  isStatic := isStatic
  guards := some guards
  line := some line

end ScanEnv

/-- The state of a scan. -/
structure Scanner (σ : Type) where
  stream : TokenStream σ
  /-- The token under consideration; it is no longer in the stream. -/
  current : Option Token := none
  /-- How many tokens have been passed, not counting those put back. -/
  position : Nat := 0
  /-- What has been found, in order. -/
  findings : List Catalog.Finding := []
  journal : Journal := []
  /-- The comment waiting for the declaration it documents. -/
  comment : Option String := none
  /-- The first comment of the file. -/
  topComment : Option String := none
  /-- Are errors switched off? -/
  errorsOff : Bool := false
  guards : Guards

namespace Scanner

variable {σ : Type} [Feed σ]

/-- A bound on the number of tokens still to be considered. -/
def size (s : Scanner σ) : Nat := s.stream.size + s.current.toList.length

/-- The place being read. -/
def place (env : ScanEnv) (s : Scanner σ) : Place := ⟨env.file, s.stream.line⟩

/-- Notes a failure where errors are switched off. -/
def swallow (failure : Failure) (s : Scanner σ) : Scanner σ :=
  { s with
    journal := s.journal ++ [⟨.swallowedError, failure.message, failure.place?, true⟩] }

/-- Warns about the place being read; quietly where errors are switched off. -/
def warn (env : ScanEnv) (topic : Topic) (messages : List String) (s : Scanner σ) : Scanner σ :=
  let notices := messages.map fun m => ⟨topic, m, some (s.place env), s.errorsOff⟩
  { s with journal := s.journal ++ notices }

/-- Writes down findings. -/
def find (fs : List Catalog.Finding) (s : Scanner σ) : Scanner σ :=
  { s with findings := s.findings ++ fs }

/-- Records a declaration seen at the place being read. -/
def record (env : ScanEnv) (name : String) (category : Category) (detail : Option Detail)
    (extra : Option String) (isStatic : Bool) (s : Scanner σ) : Scanner σ :=
  let o := env.observe s.guards.active s.stream.line detail extra isStatic
  s.find [.declaration name category o]

/-- Forgets the pending comment. -/
def forget (s : Scanner σ) : Scanner σ := { s with comment := none }

/-- Drops what is left of the current line. -/
def discardLine (s : Scanner σ) : Scanner σ := { s with stream := s.stream.discardLine }

end Scanner

end HeaderAtlas

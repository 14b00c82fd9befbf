import HeaderAtlas.Place

/-!
# The journal of a run

Everything worth a warning is written down as a `Notice`; nothing is printed
here. Whoever runs the scan decides how to show the notices and what exit status
they amount to.

Quiet notices count but are not shown. Errors swallowed in a region where errors
are switched off are kept as well, yet they are not warnings.
-/

namespace HeaderAtlas

/-- What a notice is about. -/
inductive Topic where
  /-- A doc comment is absent or badly laid out. -/
  | documentation
  /-- A name came up again with a different entry. -/
  | redeclaration
  /-- Header and implementation disagree on a function's guards. -/
  | guardMismatch
  /-- An enumerator's value could not be counted. -/
  | enumValue
  /-- An error in a region where errors are switched off. -/
  | swallowedError
deriving DecidableEq, Inhabited, Repr

/-- Every topic. -/
def Topic.all : List Topic :=
  [documentation, redeclaration, guardMismatch, enumValue, swallowedError]

/-- The topic as shown after a message. -/
def Topic.label : Topic → String
  | documentation => "documentation"
  | redeclaration => "redeclaration"
  | guardMismatch => "conditional-mismatch"
  | enumValue => "enum-value"
  | swallowedError => "suppressed-error"

/-- One warning. -/
structure Notice where
  topic : Topic
  message : String
  place : Option Place
  /-- Counted, but not shown. -/
  quiet : Bool
deriving DecidableEq, Inhabited, Repr

/-- `file:line: message [topic]`. -/
def Notice.text (n : Notice) : String :=
  let body := n.message ++ " [" ++ n.topic.label ++ "]"
  match n.place with
  | some place => place.text ++ ": " ++ body
  | none => body

/-- The notices of a run, oldest first. -/
abbrev Journal := List Notice

namespace Journal

/-- The notices that count as warnings. -/
def warnings (j : Journal) : List Notice := j.filter (·.topic ≠ .swallowedError)

/-- The number of warnings. -/
def warningCount (j : Journal) : Nat := (warnings j).length

/-- The number of notices on one topic. -/
def countOf (j : Journal) (topic : Topic) : Nat := j.countP (·.topic = topic)

/-- The notices that are shown. -/
def visible (j : Journal) : List Notice := j.filter (!·.quiet)

/-- Is there nothing to warn about? -/
def isClean (j : Journal) : Bool := warningCount j == 0

end Journal

end HeaderAtlas

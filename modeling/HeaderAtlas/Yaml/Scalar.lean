import HeaderAtlas.Text.Numeral
import HeaderAtlas.Text.Utf8

/-!
# Scalars

A scalar is a text, and what else it may be taken for depends on how it is
written: a bare `12` is a count where a count is asked for, and a `12` in quotes
never is.
-/

namespace HeaderAtlas.Yaml

/-- The octets of a tag, which need not be the octets of a text. -/
abbrev Tag := List UInt8

/-- The octets of a text. -/
def Tag.ofString (s : String) : Tag := s.toUTF8.toList

/-- The tag of a kind of values that everybody knows. -/
def Tag.common (kind : String) : Tag := .ofString ("tag:yaml.org,2002:" ++ kind)

/-- The name in a tag that belongs to the document alone. -/
def Tag.local? : Tag → Option String
  | 0x21 :: name => Text.decodeExact? name
  | _ => none

/-- How a scalar is written. -/
inductive ScalarStyle where
  | plain
  | quoted
  | literal
  | folded
deriving DecidableEq, Inhabited, Repr

/-- A scalar. -/
structure Scalar where
  text : String := ""
  style : ScalarStyle := .plain
  tag : Option Tag := none
deriving DecidableEq, Inhabited, Repr

namespace Scalar

/-- Nothing at all, where a value could stand. -/
def isAbsent (s : Scalar) : Bool := s.style = .plain && s.text = ""

/-- May the scalar be anything but a text? A bare one may; one in lines of its own
needs a tag that says so. -/
def isOpen (kind : String) (s : Scalar) : Bool :=
  match s.style with
  | .plain => true
  | .literal => s.tag = some (.common kind)
  | _ => false

/-- The words for no value. -/
def isNullWord (word : String) : Bool := ["", "~", "null", "Null", "NULL"].contains word

/-- The words for the truth values. -/
def truthWord? : String → Option Bool
  | "true" => some true
  | "True" => some true
  | "TRUE" => some true
  | "false" => some false
  | "False" => some false
  | "FALSE" => some false
  | _ => none

/-- A word as a count. A sign may lead, a base may follow it, and a decimal numeral
has no leading zeros. -/
def countWord? (word : List Char) : Option Nat :=
  let unsigned := match word with
    | '+' :: rest => rest
    | rest => rest
  match unsigned with
  | '0' :: 'x' :: rest => Text.numeral? 16 rest
  | '0' :: 'o' :: rest => Text.numeral? 8 rest
  | '0' :: 'b' :: rest => Text.numeral? 2 rest
  | '0' :: _ :: _ => none
  | rest => Text.numeral? 10 rest

/-- The scalar as a truth value. -/
def bool? (s : Scalar) : Option Bool := if s.isOpen "bool" then truthWord? s.text else none

/-- The scalar as a count. -/
def count? (s : Scalar) : Option Nat :=
  if s.isOpen "int" then countWord? s.text.toList else none

/-- The scalar as one word out of several. A tag can give the word if there is no
value beside it. -/
def word? (s : Scalar) : Option String :=
  match s.tag.bind Tag.local? with
  | none => some s.text
  | some word => if s.style = .plain && isNullWord s.text then some word else none

end Scalar

end HeaderAtlas.Yaml

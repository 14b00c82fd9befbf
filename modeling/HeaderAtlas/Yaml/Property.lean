import HeaderAtlas.Text.Numeral
import HeaderAtlas.Yaml.Cursor
import HeaderAtlas.Yaml.Scalar

/-!
# Names and tags of values

A value may carry an anchor, by which the document can refer to it again, and a
tag, which says what it is. Tags are octets: an escaped octet need not be part of a
character. Directives at the head of a document give its version and abbreviate
tags.
-/

namespace HeaderAtlas.Yaml

open Text (isGap)

/-! ## Anchors -/

/-- The characters that may follow the name of an anchor at once. -/
def endsAnchor (c : Char) : Bool :=
  ['?', ':', ',', ']', '\x7d', '%', '@', '\x60'].contains c

/-- Reads the name of an anchor, after its sign. -/
def anchorName (c : Cursor) : Option (List Char × Cursor) :=
  let (name, c) := c.span isWordChar
  let isOver := c.isSpaceAt 0 || c.rest.head?.any endsAnchor
  if name.isEmpty || !isOver then none else some (name, c)

/-! ## Tags -/

/-- The characters of a tag. The first three are for tags set off by angles or by
their place in a directive. -/
def isTagChar (wide : Bool) (c : Char) : Bool :=
  (wide && [',', '[', ']'].contains c) || isWordChar c ||
  [';', '/', '?', ':', '@', '&', '=', '+', '$', '.', '!', '~', '*', '\'', '(', ')'].contains c

/-- The octet that two hexadecimal digits give. -/
def octet? : List Char → Option UInt8
  | a :: b :: _ => (Text.numeral? 16 [a, b]).map Nat.toUInt8
  | _ => none

/-- How many octets follow a leading one. -/
def followers? (o : UInt8) : Option Nat :=
  if o < 0x80 then some 0
  else if 0xC0 ≤ o && o < 0xE0 then some 1
  else if 0xE0 ≤ o && o < 0xF0 then some 2
  else if 0xF0 ≤ o && o < 0xF8 then some 3
  else none

/-- Reads the octets of a tag, after the octets `acc` (last first), of a sequence of
which `more` are still to come. -/
def tagOctets (wide : Bool) (more : Nat) (acc : Tag) (c : Cursor) : Option (Tag × Cursor) :=
  match h : c.rest with
  | [] => if more = 0 then some (acc.reverse, c) else none
  | x :: xs =>
    have := Cursor.length_skip_lt h 2
    have := Cursor.length_skip_lt h 0
    if x == '%' then
      match octet? xs with
      | none => none
      | some o =>
        let left := if more = 0 then followers? o
          else if 0x80 ≤ o && o < 0xC0 then some (more - 1) else none
        match left with
        | none => none
        | some left => tagOctets wide left (o :: acc) (c.skip 3)
    else if more ≠ 0 then none
    else if isTagChar wide x then tagOctets wide 0 (x.toUInt8 :: acc) (c.skip 1)
    else some (acc.reverse, c)
termination_by c.rest.length
decreasing_by all_goals assumption

/-- Reads a part of a tag that begins with `start`. It is not empty, and a zero
octet ends it. -/
def tagPart (wide : Bool) (start : List Char) (c : Cursor) : Option (Tag × Cursor) := do
  let (octets, c') ← tagOctets wide 0 [] c
  if start.isEmpty && octets.isEmpty then none
  else some (((start.drop 1).map Char.toUInt8 ++ octets).takeWhile (· != 0), c')

/-- Reads an exclamation mark, the word after it and a second mark if there is
one. -/
def tagHandle (c : Cursor) : Option (List Char × Cursor) :=
  match c.rest with
  | '!' :: _ =>
    let (word, c) := (c.skip 1).span isWordChar
    if c.rest.head? == some '!' then some ('!' :: word ++ ['!'], c.skip 1)
    else some ('!' :: word, c)
  | _ => none

/-- Is it a handle, which a second mark ends? -/
def isHandle (handle : List Char) : Bool := 1 < handle.length && handle.getLast? == some '!'

/-- Reads a tag: its handle, which is empty if the tag is written in full, and the
rest of it. -/
def tagParts (flow : Bool) (c : Cursor) : Option (List Char × Tag × Cursor) := do
  let (handle, part, c) ←
    if c.rest[1]? == some '<' then do
      let (part, c) ← tagPart true [] (c.skip 2)
      if c.rest.head? == some '>' then some ([], part, c.skip 1) else none
    else do
      let (handle, c) ← tagHandle c
      if isHandle handle then do
        let (part, c) ← tagPart false [] c
        pure (handle, part, c)
      else do
        let (part, c) ← tagPart false handle c
        pure (if part.isEmpty then ([], Tag.ofString "!", c) else (['!'], part, c))
  let isOver := c.isSpaceAt 0 || (flow && c.rest.head? == some ',')
  if isOver then some (handle, part, c) else none

/-! ## Directives -/

/-- What the head of a document says about it. -/
inductive Directive where
  | version (major minor : Nat)
  | handle (handle : List Char) (stem : Tag)
deriving DecidableEq, Repr

/-- Reads a number of at most nine digits. -/
def versionNumber (c : Cursor) : Option (Nat × Cursor) := do
  let (digits, c) := c.span Char.isDigit
  if 9 < digits.length then none else some (← Text.numeral? 10 digits, c)

/-- Reads the version that a document is written in. -/
def versionDirective (c : Cursor) : Option (Directive × Cursor) := do
  let (major, c) ← versionNumber (c.skipWhile isGap)
  if c.rest.head? != some '.' then none
  else do
    let (minor, c) ← versionNumber (c.skip 1)
    return (.version major minor, c)

/-- Reads an abbreviation of tags. -/
def handleDirective (c : Cursor) : Option (Directive × Cursor) := do
  let (handle, c) ← tagHandle (c.skipWhile isGap)
  if (handle != ['!'] && !isHandle handle) || !c.rest.head?.any isGap then none
  else do
    let (stem, c) ← tagPart true [] (c.skipWhile isGap)
    if c.isSpaceAt 0 then some (.handle handle stem, c) else none

/-- Reads a directive, after its sign, and the end of its line. -/
def directive (c : Cursor) : Option (Directive × Cursor) := do
  let (name, c) := c.span isWordChar
  if !c.isSpaceAt 0 then none
  else do
    let (d, c) ←
      if name == ['Y', 'A', 'M', 'L'] then versionDirective c
      else if name == ['T', 'A', 'G'] then handleDirective c
      else none
    return (d, ← c.endLine?)

end HeaderAtlas.Yaml

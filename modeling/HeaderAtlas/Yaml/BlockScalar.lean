import HeaderAtlas.Yaml.Cursor

/-!
# Scalars in lines of their own

A scalar that a bar or an angle introduces takes the indented lines that follow.
After a bar the lines stay as they are; after an angle, a line break between two
lines that do not start with a blank becomes a space.
-/

namespace HeaderAtlas.Yaml

open Text (isGap)

/-- What becomes of the line breaks at the end. -/
inductive Chomp where
  /-- They go. -/
  | strip
  /-- The first one stays. -/
  | clip
  /-- All of them stay. -/
  | keep
deriving DecidableEq, Inhabited, Repr

/-- The sign for the line breaks at the end, if there is one. -/
def chompSign (c : Cursor) : Chomp × Cursor :=
  match c.rest with
  | '+' :: _ => (.keep, c.skip 1)
  | '-' :: _ => (.strip, c.skip 1)
  | _ => (.clip, c)

/-- The digit for the indentation, or zero if there is none. A zero may not be
written. -/
def indentDigit (c : Cursor) : Option (Nat × Cursor) :=
  match c.rest.head?.filter Char.isDigit with
  | none => some (0, c)
  | some '0' => none
  | some x => some (x.toNat - '0'.toNat, c.skip 1)

/-- The two signs after the bar or angle, in either order, and the end of the
line. -/
def blockHeader (c : Cursor) : Option (Chomp × Nat × Cursor) := do
  let (chomp, c') := chompSign c
  let (indent, c') ← indentDigit c'
  let (chomp, c') := if chomp = .clip then chompSign c' else (chomp, c')
  return (chomp, indent, ← c'.endLine?)

/-- Passes over empty lines and the indentation of the line after them. While the
indentation is not known (`indent = 0`) all leading spaces count as indentation.
Gives the furthest column reached, the line breaks, and what follows. A tab may
not stand in the indentation. -/
def blockGap (indent furthest : Nat) (breaks : List Char) (c : Cursor) :
    Option (Nat × List Char × Cursor) :=
  match h : c.rest with
  | [] => some (max furthest c.column, breaks, c)
  | x :: _ =>
    have := Cursor.length_skip_lt h 0
    have := Cursor.length_nextLine_lt h
    let isIndentation := indent == 0 || c.column < indent
    if isIndentation && x == ' ' then blockGap indent furthest breaks (c.skip 1)
    else if isIndentation && x == '\t' then none
    else if isBreak x then
      blockGap indent (max furthest c.column) (breaks ++ [breakChar x]) c.nextLine
    else some (max furthest c.column, breaks, c)
termination_by c.rest.length
decreasing_by all_goals assumption

/-- The lines read so far: their text, last character first, the break after the
last of them, the breaks of the empty lines after it, and whether it started with
a blank. -/
structure BlockLines where
  text : List Char := []
  lead : List Char := []
  breaks : List Char := []
  isBlank : Bool := false

/-- Adds a line. -/
def BlockLines.add (b : BlockLines) (folded : Bool) (line : List Char) : BlockLines :=
  let isBlank := line.head?.any isGap
  let joint :=
    if folded && b.lead == ['\n'] && !b.isBlank && !isBlank then
      if b.breaks.isEmpty then [' '] else b.breaks
    else b.lead ++ b.breaks
  { text := line.reverse ++ joint.reverse ++ b.text, isBlank }

/-- Reads the lines that are indented by `indent`. -/
def blockLines (fuel : Nat) (folded : Bool) (indent : Nat) (b : BlockLines) (c : Cursor) :
    Option (BlockLines × Cursor) :=
  match fuel with
  | 0 => none
  | fuel + 1 =>
    if c.column == indent && !c.rest.isEmpty then do
      let (line, c) := c.span (!isBreak ·)
      let lead := (c.rest.head?.map breakChar).toList
      let (_, breaks, c) ← blockGap indent 0 [] c.nextLine
      blockLines fuel folded indent { b.add folded line with lead, breaks } c
    else some (b, c)

/-- Reads a scalar in lines of its own, after the bar or angle. `least` is the
least indentation its lines can have where it stands. -/
def blockScalar (folded : Bool) (least : Nat) (c : Cursor) : Option (List Char × Cursor) := do
  let (chomp, digit, c) ← blockHeader c
  let given := if digit = 0 then 0 else least - 1 + digit
  let (furthest, breaks, c) ← blockGap given 0 [] c
  let indent := if given = 0 then max (max furthest least) 1 else given
  -- Every round takes a character away.
  let (b, c) ← blockLines (c.rest.length + 1) folded indent { breaks } c
  let tail := match chomp with
    | .strip => []
    | .clip => b.lead
    | .keep => b.lead ++ b.breaks
  return (b.text.reverse ++ tail, c)

end HeaderAtlas.Yaml

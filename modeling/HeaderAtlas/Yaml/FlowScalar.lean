import HeaderAtlas.Text.Numeral
import HeaderAtlas.Yaml.Cursor

/-!
# Scalars within the text

Bare words and words in quotes. Such a scalar may run over several lines; the line
breaks within it are then folded, one into a space and more of them into all but
the first.
-/

namespace HeaderAtlas.Yaml

open Text (isGap)

/-! ## Folding -/

/-- The blanks and line breaks between two words of a scalar. -/
structure Gap where
  /-- The blanks before the first line break. -/
  blanks : List Char := []
  breaks : List Char := []
  /-- Did the gap start with a line break that a backslash takes back? -/
  isEscaped : Bool := false
deriving DecidableEq, Inhabited, Repr

namespace Gap

/-- Is there nothing between the words? -/
def isEmpty (g : Gap) : Bool := g.blanks.isEmpty && g.breaks.isEmpty

/-- Has the gap left the line? -/
def isBroken (g : Gap) : Bool := g.isEscaped || !g.breaks.isEmpty

/-- One more blank. The indentation of a line is no part of the scalar. -/
def addBlank (x : Char) (g : Gap) : Gap :=
  if g.isBroken then g else { g with blanks := g.blanks ++ [x] }

/-- One more line break. -/
def addBreak (x : Char) (g : Gap) : Gap := { g with breaks := g.breaks ++ [breakChar x] }

/-- What the gap leaves in the scalar. -/
def fold (g : Gap) : List Char :=
  if g.isEscaped then g.breaks
  else match g.breaks with
    | [] => g.blanks
    | ['\n'] => [' ']
    | '\n' :: more => more
    | breaks => breaks

@[simp] theorem fold_empty : fold {} = [] := rfl

/-- Within a line the blanks stay. -/
theorem fold_blanks (blanks : List Char) : fold { blanks } = blanks := rfl

end Gap

/-! ## Bare words -/

/-- The characters that no bare word starts with. -/
def isIndicator (c : Char) : Bool :=
  ['-', '?', ':', ',', '[', ']', '\x7b', '\x7d', '#', '&', '*', '!', '|', '>', '\'', '"', '%', '@',
    '\x60'].contains c

/-- May a bare word start here? A dash may lead it unless a gap follows; outside
brackets a question mark or a colon may, unless it stands alone. -/
def startsPlain (flow : Bool) (c : Cursor) : Bool :=
  match c.rest with
  | [] => false
  | x :: xs =>
    if x == '-' then !xs.head?.any isGap
    else if x == '?' || x == ':' then !flow && !c.isSpaceAt 1
    else !isGap x && !isBreak x && !isIndicator x

/-- Does a character other than blanks and breaks end the bare word? -/
def endsPlain (flow : Bool) (c : Cursor) : Bool :=
  match c.rest with
  | [] => true
  | x :: _ => (x == ':' && c.isSpaceAt 1) || (flow && isFlowMark x)

/-- Inside brackets, a colon that runs into one of them is a mistake. -/
def isColonClash (c : Cursor) : Bool :=
  match c.rest with
  | ':' :: x :: _ => x == '?' || isFlowMark x
  | _ => false

/-- Reads a bare word from a cursor inside it, after the characters `acc` (last
first) and a gap. A line belongs to the word if it is indented by at least
`indent`, which matters outside brackets only. Gives the word, whether the gap
after it left the line, and what follows that gap. -/
def plain (flow : Bool) (indent : Nat) (acc : List Char) (g : Gap) (c : Cursor) :
    Option (List Char × Bool × Cursor) :=
  match h : c.rest with
  | [] => some (acc.reverse, g.isBroken, c)
  | x :: _ =>
    have := Cursor.length_skip_lt h 0
    have := Cursor.length_nextLine_lt h
    if isGap x then
      if x == '\t' && g.isBroken && c.column < indent then none
      else plain flow indent acc (g.addBlank x) (c.skip 1)
    else if isBreak x then plain flow indent acc (g.addBreak x) c.nextLine
    else if !g.isEmpty && (c.atDocumentMark || x == '#' || (!flow && c.column < indent)) then
      some (acc.reverse, g.isBroken, c)
    else if flow && isColonClash c then none
    else if endsPlain flow c then some (acc.reverse, g.isBroken, c)
    else plain flow indent (x :: (g.fold.reverse ++ acc)) {} (c.skip 1)
termination_by c.rest.length
decreasing_by all_goals assumption

/-! ## Words in quotes -/

/-- Reads a word in single quotes, after the opening one. Two quotes stand for
one. -/
def singleQuoted (acc : List Char) (g : Gap) (c : Cursor) : Option (List Char × Cursor) :=
  match h : c.rest with
  | [] => none
  | x :: xs =>
    have := Cursor.length_skip_lt h 0
    have := Cursor.length_skip_lt h 1
    have := Cursor.length_nextLine_lt h
    if isGap x then singleQuoted acc (g.addBlank x) (c.skip 1)
    else if isBreak x then singleQuoted acc (g.addBreak x) c.nextLine
    else if c.atDocumentMark then none
    else
      let acc := g.fold.reverse ++ acc
      if x != '\'' then singleQuoted (x :: acc) {} (c.skip 1)
      else if xs.head? == some '\'' then singleQuoted ('\'' :: acc) {} (c.skip 2)
      else some (acc.reverse, c.skip 1)
termination_by c.rest.length
decreasing_by all_goals assumption

/-- The character that a one-letter escape stands for. -/
def escape? : Char → Option Char
  | '0' => some '\x00'
  | 'a' => some '\x07'
  | 'b' => some '\x08'
  | 't' => some '\t'
  | '\t' => some '\t'
  | 'n' => some '\n'
  | 'v' => some '\x0b'
  | 'f' => some '\x0c'
  | 'r' => some '\r'
  | 'e' => some '\x1b'
  | ' ' => some ' '
  | '"' => some '"'
  | '/' => some '/'
  | '\\' => some '\\'
  | 'N' => some '\u0085'
  | '_' => some '\u00a0'
  | 'L' => some '\u2028'
  | 'P' => some '\u2029'
  | _ => none

/-- The number of hexadecimal digits that an escape letter asks for. -/
def escapeWidth : Char → Nat
  | 'x' => 2
  | 'u' => 4
  | 'U' => 8
  | _ => 0

/-- The character with the given code in hexadecimal digits. -/
def coded? (width : Nat) (cs : List Char) : Option Char := do
  let digits := cs.take width
  let code ← if digits.length < width then none else Text.numeral? 16 digits
  if code.isValidChar then some (Char.ofNat code) else none

/-- What an escape stands for, read after the backslash, and its length. -/
def escaped? : List Char → Option (Char × Nat)
  | [] => none
  | x :: xs =>
    match escapeWidth x with
    | 0 => (escape? x).map (·, 1)
    | width => (coded? width xs).map (·, width + 1)

/-- Reads a word in double quotes, after the opening one. -/
def doubleQuoted (acc : List Char) (g : Gap) (c : Cursor) : Option (List Char × Cursor) :=
  match h : c.rest with
  | [] => none
  | x :: xs =>
    have hs := Cursor.length_skip_lt h
    have := Cursor.length_nextLine_lt h
    have := Nat.lt_of_le_of_lt (Cursor.length_nextLine_le (c.skip 1)) (hs 0)
    if isGap x then doubleQuoted acc (g.addBlank x) (c.skip 1)
    else if isBreak x then doubleQuoted acc (g.addBreak x) c.nextLine
    else if c.atDocumentMark then none
    else
      let acc := g.fold.reverse ++ acc
      if x == '"' then some (acc.reverse, c.skip 1)
      else if x != '\\' then doubleQuoted (x :: acc) {} (c.skip 1)
      else if xs.head?.any isBreak then
        doubleQuoted acc { isEscaped := true } (c.skip 1).nextLine
      else match escaped? xs with
        | none => none
        | some (y, width) => doubleQuoted (y :: acc) {} (c.skip (width + 1))
termination_by c.rest.length
decreasing_by
  · exact hs 0
  · assumption
  · exact hs 0
  · assumption
  · exact hs _

end HeaderAtlas.Yaml

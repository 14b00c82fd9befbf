import HeaderAtlas.Text.Blank

/-!
# Places in a document

A settings document is read from its front, and what a character means depends on
where it stands: the column decides what it belongs to, and a key must not run on
over a line break or for too long. A `Cursor` is the text that is left together
with the place where it starts.

Readers move a cursor forward by `skip` and `nextLine` only, and both shorten the
text that is left; that is why the loops over a cursor end.
-/

namespace HeaderAtlas.Yaml

open Text (isGap)

/-! ## Characters -/

/-- May the character stand in a document at all? -/
def isAllowed (c : Char) : Bool :=
  let n := c.toNat
  n == 0x09 || n == 0x0A || n == 0x0D || (0x20 ≤ n && n ≤ 0x7E) || n == 0x85 ||
  (0xA0 ≤ n && n ≤ 0xFFFD) || 0x10000 ≤ n

/-- Does the character end a line? -/
def isBreak (c : Char) : Bool :=
  c == '\n' || c == '\r' || c == '\u0085' || c == '\u2028' || c == '\u2029'

/-- A line break as it stands in a value. The two Unicode separators stay what
they are. -/
def breakChar (c : Char) : Char := if c == '\u2028' || c == '\u2029' then c else '\n'

/-- The characters of anchors, tag handles and directives. -/
def isWordChar (c : Char) : Bool := c.isAlphanum || c == '_' || c == '-'

/-- The characters that divide a bracketed collection. -/
def isFlowMark (c : Char) : Bool := [',', '[', ']', '\x7b', '\x7d'].contains c

/-- A line break is no gap within a line. -/
theorem isGap_eq_false_of_isBreak {c : Char} (h : isBreak c = true) : isGap c = false := by
  simp only [isBreak, Bool.or_eq_true, beq_iff_eq] at h
  rcases h with (((rfl | rfl) | rfl) | rfl) | rfl <;> decide

/-! ## Cursors -/

/-- The text that is left, and where it starts. Lines and columns count from zero. -/
structure Cursor where
  rest : List Char
  index : Nat := 0
  line : Nat := 0
  column : Nat := 0
deriving DecidableEq, Inhabited, Repr

namespace Cursor

/-- Past `n` characters of the line. -/
def skip (n : Nat) (c : Cursor) : Cursor :=
  { c with rest := c.rest.drop n, index := c.index + n, column := c.column + n }

/-- Past a line break. A carriage return and a line feed are one break. -/
def nextLine (c : Cursor) : Cursor :=
  match c.rest with
  | '\r' :: '\n' :: cs => ⟨cs, c.index + 2, c.line + 1, 0⟩
  | _ :: cs => ⟨cs, c.index + 1, c.line + 1, 0⟩
  | [] => c

/-- The longest run of characters that satisfy `p`, and what follows it. No line
break satisfies `p`. -/
def span (p : Char → Bool) (c : Cursor) : List Char × Cursor :=
  let run := c.rest.takeWhile p
  (run, c.skip run.length)

/-- Past the longest run of characters that satisfy `p`. -/
def skipWhile (p : Char → Bool) (c : Cursor) : Cursor := (c.span p).2

/-- Is there a gap, a line break or the end, `n` characters on? -/
def isSpaceAt (n : Nat) (c : Cursor) : Bool :=
  match c.rest[n]? with
  | none => true
  | some x => isGap x || isBreak x

/-- Does the line end here? -/
def atLineEnd (c : Cursor) : Bool :=
  match c.rest with
  | [] => true
  | x :: _ => isBreak x

/-- Three of the character `x` make up a word at the start of a line. -/
def atMark (x : Char) (c : Cursor) : Bool :=
  c.column == 0 && [x, x, x].isPrefixOf c.rest && c.isSpaceAt 3

/-- Does a document start or end here? -/
def atDocumentMark (c : Cursor) : Bool := c.atMark '-' || c.atMark '.'

/-- Past the line, on which only a comment may be left. -/
def endLine? (c : Cursor) : Option Cursor :=
  let c := c.skipWhile isGap
  let c := if c.rest.head? == some '#' then c.skipWhile (!isBreak ·) else c
  if c.atLineEnd then some c.nextLine else none

@[simp] theorem rest_skip (n : Nat) (c : Cursor) : (c.skip n).rest = c.rest.drop n := rfl

/-- Skipping shortens the text that is left. -/
theorem length_skip_lt {c : Cursor} {x : Char} {xs : List Char} (h : c.rest = x :: xs) (n : Nat) :
    (c.skip (n + 1)).rest.length < c.rest.length := by
  rw [rest_skip, h, List.length_drop, List.length_cons]
  omega

/-- So does the end of a line. -/
theorem length_nextLine_lt {c : Cursor} {x : Char} {xs : List Char} (h : c.rest = x :: xs) :
    c.nextLine.rest.length < c.rest.length := by
  unfold nextLine
  split
  case h_1 heq => rw [heq]; simp only [List.length_cons]; omega
  case h_2 heq => rw [heq]; simp
  case h_3 heq => simp [heq] at h

/-- The end of a line never lengthens the text. -/
theorem length_nextLine_le (c : Cursor) : c.nextLine.rest.length ≤ c.rest.length := by
  cases h : c.rest with
  | nil => simp [nextLine, h]
  | cons x xs => exact h ▸ Nat.le_of_lt (length_nextLine_lt h)

/-- Skipping a run never lengthens the text. -/
theorem length_skipWhile_le (p : Char → Bool) (c : Cursor) :
    (c.skipWhile p).rest.length ≤ c.rest.length := by
  simp [skipWhile, span]

end Cursor

end HeaderAtlas.Yaml

import HeaderAtlas.Yaml.BlockScalar
import HeaderAtlas.Yaml.FlowScalar
import HeaderAtlas.Yaml.Property

/-!
# Lexemes

The smallest parts of a document. Indentation becomes lexemes too: a collection
told apart by its indentation has a lexeme at its start and one at its end.

A key is recognised late, by the colon after it. Where a key could start, the place
is kept; when the colon comes, the lexeme that announces a key is put in there, in
front of what has been read since. A place is given up at the end of its line, or
when the key has become too long. There is at most one place for each open bracket
and one outside of all brackets.
-/

namespace HeaderAtlas.Yaml

open Text (isGap)

/-- A smallest part of a document. -/
inductive Lexeme where
  | directive (d : Directive)
  | documentStart
  | documentEnd
  | blockListStart
  | blockRecordStart
  | blockEnd
  /-- The dash before an item. -/
  | item
  | key
  | value
  | openList
  | closeList
  | openRecord
  | closeRecord
  | comma
  | anchor (name : String)
  | alias (name : String)
  | tag (handle : List Char) (part : Tag)
  | scalar (text : String) (style : ScalarStyle)
deriving DecidableEq, Repr

/-- A place where a key may have started. -/
structure KeyPlace where
  index : Nat
  line : Nat
  column : Nat
  /-- The number of lexemes before it. -/
  before : Nat
  /-- Can nothing but a key stand here? -/
  isRequired : Bool
deriving DecidableEq, Repr

/-- A document that has been read in part. -/
structure Reading where
  cursor : Cursor
  /-- The columns of the open block collections, innermost first. -/
  indents : List Nat := []
  /-- The place for a key inside the innermost bracket. -/
  place : Option KeyPlace := none
  /-- The places outside of it, one for each open bracket. -/
  outer : List (Option KeyPlace) := []
  /-- May a key start at the next lexeme? -/
  allowsKey : Bool := true
  lexemes : Array Lexeme := #[]

namespace Reading

/-! ## Brackets, indentation and places for keys -/

/-- Is a bracket open? -/
def inFlow (r : Reading) : Bool := !r.outer.isEmpty

/-- The least column that belongs to the innermost block collection and is not its
own. -/
def inside (r : Reading) : Nat :=
  match r.indents with
  | [] => 0
  | n :: _ => n + 1

/-- Adds a lexeme. -/
def emit (l : Lexeme) (r : Reading) : Reading := { r with lexemes := r.lexemes.push l }

/-- Puts a lexeme in after the first `n`. -/
def emitAt (n : Nat) (l : Lexeme) (r : Reading) : Reading :=
  { r with lexemes := r.lexemes.insertIdxIfInBounds n l }

/-- Moves on by `n` characters. -/
def skip (n : Nat) (r : Reading) : Reading := { r with cursor := r.cursor.skip n }

/-- Sets whether a key may start at the next lexeme. -/
def allow (b : Bool) (r : Reading) : Reading := { r with allowsKey := b }

/-- Gives up the place for a key. Where nothing else can stand, that is a mistake. -/
def dropPlace (r : Reading) : Option Reading :=
  if r.place.any (·.isRequired) then none else some { r with place := none }

/-- Keeps this place for a key, if one may start here. -/
def keepPlace (r : Reading) : Option Reading :=
  if !r.allowsKey then some r
  else do
    let r ← r.dropPlace
    let c := r.cursor
    let isRequired := !r.inFlow && r.indents.head? == some c.column
    return { r with place := some ⟨c.index, c.line, c.column, r.lexemes.size, isRequired⟩ }

/-- The number of characters that a key may have. -/
def keyLimit : Nat := 1024

/-- Is the cursor too far from the place for a key to have started there? -/
def isStale (c : Cursor) (k : KeyPlace) : Bool := k.line < c.line || k.index + keyLimit < c.index

/-- Gives up the places that are too far away. -/
def dropStale (r : Reading) : Option Reading :=
  let stale := isStale r.cursor
  let places := r.place :: r.outer
  if places.any (·.any fun k => k.isRequired && stale k) then none
  else some { r with
    place := r.place.filter (!stale ·)
    outer := r.outer.map (·.filter (!stale ·)) }

/-- Opens a block collection at a column, after the first `n` lexemes, unless it is
open already. -/
def openBlock (column n : Nat) (l : Lexeme) (r : Reading) : Reading :=
  if r.inFlow || column < r.inside then r
  else { r.emitAt n l with indents := column :: r.indents }

/-- Closes the block collections whose columns satisfy `p`, from the innermost on. -/
def closeBlocks (p : Nat → Bool) (r : Reading) : Reading :=
  if r.inFlow then r
  else
    let closed := r.indents.takeWhile p
    { r with
      indents := r.indents.drop closed.length
      lexemes := r.lexemes ++ closed.map fun _ => Lexeme.blockEnd }

/-- Enters a bracket. -/
def enter (l : Lexeme) (r : Reading) : Option Reading := do
  let r ← r.keepPlace
  return { r with outer := r.place :: r.outer, place := none, allowsKey := true }.emit l |>.skip 1

/-- Leaves a bracket. -/
def leave (l : Lexeme) (r : Reading) : Option Reading := do
  let r ← r.dropPlace
  let r := match r.outer with
    | [] => r
    | place :: outer => { r with place, outer }
  return (r.allow false).emit l |>.skip 1

/-! ## Single lexemes -/

/-- Passes over blanks, comments and line breaks, and over a byte order mark at the
start of a line. Outside brackets a line break lets a key start, and while a key may
start a tab is no blank. -/
def gap (flow allowsKey : Bool) (c : Cursor) : Bool × Cursor :=
  match h : c.rest with
  | [] => (allowsKey, c)
  | x :: _ =>
    have := Cursor.length_nextLine_lt h
    have := Cursor.length_skip_lt h 0
    have := Nat.lt_of_le_of_lt (Cursor.length_skipWhile_le (!isBreak ·) (c.skip 1)) this
    if x == ' ' || (x == '\t' && (flow || !allowsKey)) || (x == '\ufeff' && c.column == 0) then
      gap flow allowsKey (c.skip 1)
    else if x == '#' then gap flow allowsKey ((c.skip 1).skipWhile (!isBreak ·))
    else if isBreak x then gap flow (!flow || allowsKey) c.nextLine
    else (allowsKey, c)
termination_by c.rest.length
decreasing_by all_goals assumption

/-- Reads a dash before an item. -/
def item (r : Reading) : Option Reading := do
  if !r.inFlow && !r.allowsKey then none
  else
    let r := r.openBlock r.cursor.column r.lexemes.size .blockListStart
    let r ← r.dropPlace
    return (r.allow true).emit .item |>.skip 1

/-- Reads a question mark before a key. -/
def markedKey (r : Reading) : Option Reading := do
  if !r.inFlow && !r.allowsKey then none
  else
    let r := r.openBlock r.cursor.column r.lexemes.size .blockRecordStart
    let r ← r.dropPlace
    return (r.allow !r.inFlow).emit .key |>.skip 1

/-- Reads a colon before a value. -/
def value (r : Reading) : Option Reading :=
  match r.place with
  | some k =>
    let r := (r.emitAt k.before .key).openBlock k.column k.before .blockRecordStart
    some ({ r with place := none, allowsKey := false }.emit .value |>.skip 1)
  | none =>
    if !r.inFlow && !r.allowsKey then none
    else
      let r := r.openBlock r.cursor.column r.lexemes.size .blockRecordStart
      some ((r.allow !r.inFlow).emit .value |>.skip 1)

/-- Ends all blocks, as a mark or a directive between documents does. -/
def endBlocks (r : Reading) : Option Reading := (r.closeBlocks fun _ => true).dropPlace

/-- Reads one lexeme and what it entails. -/
def lexeme (x : Char) (r : Reading) : Option Reading :=
  let c := r.cursor
  let flow := r.inFlow
  if c.column == 0 && x == '%' then do
    let r ← r.endBlocks
    let (d, cursor) ← directive (c.skip 1)
    return { r.allow false with cursor }.emit (.directive d)
  else if c.atDocumentMark then do
    let r ← r.endBlocks
    return (r.allow false).emit (if x == '-' then .documentStart else .documentEnd) |>.skip 3
  else match x with
    | '[' => r.enter .openList
    | '\x7b' => r.enter .openRecord
    | ']' => r.leave .closeList
    | '\x7d' => r.leave .closeRecord
    | ',' => do return ((← r.dropPlace).allow true).emit .comma |>.skip 1
    | '*' => name .alias
    | '&' => name .anchor
    | '!' => do
      let r ← r.keepPlace
      let (handle, part, cursor) ← tagParts flow c
      return { r.allow false with cursor }.emit (.tag handle part)
    | '\'' => quoted singleQuoted
    | '"' => quoted doubleQuoted
    | '|' => block false
    | '>' => block true
    | _ =>
      if x == '-' && c.isSpaceAt 1 then r.item
      else if x == '?' && (flow || c.isSpaceAt 1) then r.markedKey
      else if x == ':' && (flow || c.isSpaceAt 1) then r.value
      else if startsPlain flow c then do
        let r ← r.keepPlace
        let (text, isBroken, cursor) ← plain flow r.inside [] {} c
        return { r.allow isBroken with cursor }.emit (.scalar (String.ofList text) .plain)
      else none
where
  /-- An anchor or a reference to one. -/
  name (l : String → Lexeme) : Option Reading := do
    let r ← r.keepPlace
    let (name, cursor) ← anchorName (r.cursor.skip 1)
    return { r.allow false with cursor }.emit (l (String.ofList name))
  /-- A word in quotes. -/
  quoted (read : List Char → Gap → Cursor → Option (List Char × Cursor)) : Option Reading := do
    let r ← r.keepPlace
    let (text, cursor) ← read [] {} (r.cursor.skip 1)
    return { r.allow false with cursor }.emit (.scalar (String.ofList text) .quoted)
  /-- A scalar in lines of its own. -/
  block (folded : Bool) : Option Reading := do
    let r ← if r.inFlow then none else r.dropPlace
    let (text, cursor) ← blockScalar folded r.inside (r.cursor.skip 1)
    return { r.allow true with cursor }.emit
      (.scalar (String.ofList text) (if folded then .folded else .literal))

/-! ## All lexemes -/

/-- Reads on to the end. -/
def run (fuel : Nat) (r : Reading) : Option (List Lexeme) :=
  match fuel with
  | 0 => none
  | fuel + 1 => do
    let (allowsKey, cursor) := gap r.inFlow r.allowsKey r.cursor
    let r ← { r with allowsKey, cursor }.dropStale
    let r := r.closeBlocks (r.cursor.column < ·)
    match r.cursor.rest with
    | [] => return (← r.endBlocks).lexemes.toList
    | x :: _ => run fuel (← r.lexeme x)

end Reading

/-- The lexemes of a document. -/
def lexemes? (document : List Char) : Option (List Lexeme) :=
  if document.all isAllowed then
    -- Every lexeme takes a character away.
    Reading.run (document.length + 1) { cursor := { rest := document } }
  else none

end HeaderAtlas.Yaml

import HeaderAtlas.Settings.Datum
import HeaderAtlas.Yaml.Lexeme

/-!
# Documents

The value that the lexemes of a document make up. `Document.ofYaml?` reads a whole
text; a text that is not well formed, or that holds more than one document, has no
value.
-/

namespace HeaderAtlas.Yaml

/-! ## The state of assembly -/

/-- A value that has been put together in part. -/
structure Assembly where
  rest : List Lexeme
  /-- The slots that the anchors seen so far stand for. -/
  anchors : List (String × Nat) := []
  /-- The anchored values with their slots, in the order in which they start. -/
  anchored : Array (Nat × Datum) := #[]
  /-- The number of values so far, a collection counting for two. -/
  size : Nat := 0

/-- A step of assembly, which can fail. -/
abbrev Assembler := StateT Assembly Option

namespace Assembler

/-- The next lexeme. -/
def peek : Assembler (Option Lexeme) := do return (← get).rest.head?

/-- Passes over a lexeme. -/
def skip : Assembler Unit := modify fun a => { a with rest := a.rest.drop 1 }

/-- The next lexeme, which is passed over. -/
def next : Assembler (Option Lexeme) := do
  let l ← peek
  skip
  return l

/-- Is the next lexeme one of these? -/
def isNext (ls : List Lexeme) : Assembler Bool := do return (← peek).any ls.contains

/-- Passes over a lexeme that must be there. -/
def expect (l : Lexeme) : Assembler Unit := do
  if (← next) = some l then return () else failure

/-- Counts `n` values. -/
def count (n : Nat) : Assembler Unit := modify fun a => { a with size := a.size + n }

/-- A value that is left out. -/
def absent : Assembler Datum := do
  count 1
  return .absent

/-- Reserves a slot for the value that an anchor names, and gives its number among
the anchored values. An anchor that is used again takes a slot of its own. -/
def reserve (name : String) : Assembler Nat := do
  let a ← get
  let slot := a.anchors.length
  set { a with
    anchors := (name, slot) :: a.anchors.filter (·.1 != name)
    anchored := a.anchored.push (slot, .absent) }
  return a.anchored.size

/-- Puts the value of an anchor where it was reserved. -/
def fill (number : Nat) (d : Datum) : Assembler Unit :=
  modify fun a => { a with anchored := a.anchored.modify number fun (slot, _) => (slot, d) }

/-- Refers to the value of an anchor. -/
def refer (name : String) : Assembler Datum := do
  match (← get).anchors.lookup name with
  | some slot => do
    count 1
    return .reference slot
  | none => failure

/-! ## Tags and anchors of a value -/

/-- The tags that handles abbreviate. -/
abbrev Handles := List (List Char × Tag)

/-- The handles every document starts with. -/
def commonHandles : Handles := [(['!'], .ofString "!"), (['!', '!'], .common "")]

/-- A tag in full. -/
def resolve? (handles : Handles) (handle : List Char) (part : Tag) : Option Tag :=
  if handle.isEmpty then some part else (handles.lookup handle).map (· ++ part)

/-- Reads an anchor, if there is one. -/
def anchor? : Assembler (Option String) := do
  match ← peek with
  | some (.anchor name) => do
    skip
    return some name
  | _ => return none

/-- Reads a tag, if there is one. -/
def tag? (handles : Handles) : Assembler (Option Tag) := do
  match ← peek with
  | some (.tag handle part) => do
    skip
    return some (← liftM (resolve? handles handle part))
  | _ => return none

/-- Reads an anchor and a tag, in either order. -/
def properties (handles : Handles) : Assembler (Option String × Option Tag) := do
  match ← anchor? with
  | some name => return (some name, ← tag? handles)
  | none =>
    match ← tag? handles with
    | some tag => return (← anchor?, some tag)
    | none => return (none, none)

/-! ## Values -/

mutual

/-- Assembles a value. `block` says whether a block collection may stand here, and
`loose` whether the items of a list may, without a start and an end. -/
def value (handles : Handles) (fuel : Nat) (block loose : Bool) : Assembler Datum :=
  match fuel with
  | 0 => failure
  | fuel + 1 => do
    match ← peek with
    | some (.alias name) => do
      skip
      refer name
    | _ => do
      let (anchor, tag) ← properties handles
      let number ← anchor.mapM reserve
      let d ← content handles fuel block loose (anchor.isSome || tag.isSome) tag
      number.forM (fill · d)
      return d

/-- Assembles a value after its anchor and tag. If it has one of them, it may be left
out. -/
def content (handles : Handles) (fuel : Nat) (block loose isMarked : Bool) (tag : Option Tag) :
    Assembler Datum :=
  match fuel with
  | 0 => failure
  | fuel + 1 => do
    match ← peek, block, loose with
    | some (.scalar text style), _, _ => do
      skip
      count 1
      return .scalar { text, style, tag := tag.filter (· != .ofString "!") }
    | some .openList, _, _ => do
      skip
      count 2
      return .list (← flowItems handles fuel true)
    | some .openRecord, _, _ => do
      skip
      count 2
      return .record (← flowFields handles fuel true)
    | some .item, _, true => do
      count 2
      return .list (← looseItems handles fuel)
    | some .blockListStart, true, _ => do
      skip
      count 2
      return .list (← blockItems handles fuel)
    | some .blockRecordStart, true, _ => do
      skip
      count 2
      return .record (← blockFields handles fuel)
    | _, _, _ => do
      if isMarked then
        count 1
        return .scalar { tag }
      else failure

/-- A value, unless one of `ends` is next. -/
def valueBefore (handles : Handles) (fuel : Nat) (block loose : Bool) (ends : List Lexeme) :
    Assembler Datum :=
  match fuel with
  | 0 => failure
  | fuel + 1 => do
    if ← isNext ends then absent else value handles fuel block loose

/-- A colon and the value after it. Either may be left out. -/
def valueAfterColon (handles : Handles) (fuel : Nat) (block loose : Bool) (ends : List Lexeme) :
    Assembler Datum :=
  match fuel with
  | 0 => failure
  | fuel + 1 => do
    if ← isNext [.value] then
      skip
      valueBefore handles fuel block loose ends
    else absent

/-- The items of a block list, to its end. -/
def blockItems (handles : Handles) (fuel : Nat) : Assembler (List Datum) :=
  match fuel with
  | 0 => failure
  | fuel + 1 => do
    match ← next with
    | some .item => do
      let d ← valueBefore handles fuel true false [.item, .blockEnd]
      return d :: (← blockItems handles fuel)
    | some .blockEnd => return []
    | _ => failure

/-- The items of a list that is indented no further than the key before it. -/
def looseItems (handles : Handles) (fuel : Nat) : Assembler (List Datum) :=
  match fuel with
  | 0 => failure
  | fuel + 1 => do
    if ← isNext [.item] then
      skip
      let d ← valueBefore handles fuel true false [.item, .key, .value, .blockEnd]
      return d :: (← looseItems handles fuel)
    else return []

/-- The fields of a block record, to its end. -/
def blockFields (handles : Handles) (fuel : Nat) : Assembler (List (Datum × Datum)) :=
  match fuel with
  | 0 => failure
  | fuel + 1 => do
    match ← next with
    | some .key => do
      let k ← valueBefore handles fuel true true [.key, .value, .blockEnd]
      let v ← valueAfterColon handles fuel true true [.key, .value, .blockEnd]
      return (k, v) :: (← blockFields handles fuel)
    | some .blockEnd => return []
    | _ => failure

/-- The items of a bracketed list, to its end. A comma comes before each of them but
the first. -/
def flowItems (handles : Handles) (fuel : Nat) (isFirst : Bool) : Assembler (List Datum) :=
  match fuel with
  | 0 => failure
  | fuel + 1 => do
    if !isFirst && !(← isNext [.closeList]) then expect .comma
    match ← peek with
    | some .closeList => do
      skip
      return []
    | some .key => do
      skip
      count 2
      let d ← flowPair handles fuel
      return d :: (← flowItems handles fuel false)
    | _ => do
      let d ← value handles fuel false false
      return d :: (← flowItems handles fuel false)

/-- A record of one field as the item of a bracketed list. Where the key is left out,
the lexeme in its place is lost. -/
def flowPair (handles : Handles) (fuel : Nat) : Assembler Datum :=
  match fuel with
  | 0 => failure
  | fuel + 1 => do
    let k ←
      if ← isNext [.value, .comma, .closeList] then do
        skip
        absent
      else value handles fuel false false
    let v ← valueAfterColon handles fuel false false [.comma, .closeList]
    return .record [(k, v)]

/-- The fields of a bracketed record, to its end. A comma comes before each of them
but the first. -/
def flowFields (handles : Handles) (fuel : Nat) (isFirst : Bool) :
    Assembler (List (Datum × Datum)) :=
  match fuel with
  | 0 => failure
  | fuel + 1 => do
    if !isFirst && !(← isNext [.closeRecord]) then expect .comma
    match ← peek with
    | some .closeRecord => do
      skip
      return []
    | some .key => do
      skip
      let k ← valueBefore handles fuel false false [.value, .comma, .closeRecord]
      let v ← valueAfterColon handles fuel false false [.comma, .closeRecord]
      return (k, v) :: (← flowFields handles fuel false)
    | _ => do
      let k ← value handles fuel false false
      let v ← absent
      return (k, v) :: (← flowFields handles fuel false)

end

/-! ## Documents -/

/-- Takes in the directives at the head of a document: at most one version, which is
1.1 or 1.2, and no handle twice. -/
def head (isVersioned : Bool) (handles : Handles) :
    List Lexeme → Option (Handles × List Lexeme)
  | .directive (.version major minor) :: ls =>
    if isVersioned || major != 1 || (minor != 1 && minor != 2) then none
    else head true handles ls
  | .directive (.handle handle stem) :: ls =>
    if (handles.lookup handle).isSome then none
    else head isVersioned (handles ++ [(handle, stem)]) ls
  | ls => some (handles ++ commonHandles, ls)

/-- Does an explicit document stop here, before any value? -/
def isDocumentEdge : Option Lexeme → Bool
  | none => true
  | some (.directive _) => true
  | some .documentStart => true
  | some .documentEnd => true
  | _ => false

/-- Assembles the only document. The mark at its start may be left out if it has no
directives. -/
def document : Assembler Datum := do
  let ls := (← get).rest
  -- A value takes a lexeme away within five steps.
  let fuel := 5 * ls.length + 5
  let root ←
    if ls.isEmpty then absent
    else if isDocumentEdge ls.head? && ls.head? != some .documentEnd then do
      let (handles, ls) ← liftM (head false [] ls)
      modify fun a => { a with rest := ls }
      expect .documentStart
      if isDocumentEdge (← peek) then absent else value handles fuel true false
    else value commonHandles fuel true false
  if (← get).rest.all (· = .documentEnd) then return root else failure

end Assembler

end Yaml

/-- The value of a YAML text. -/
def Document.ofYaml? (text : String) : Option Document := do
  let rest ← Yaml.lexemes? text.toList
  let (root, a) ← Yaml.Assembler.document.run { rest }
  return { root, slots := a.anchored.toList.reverse, patience := 100 * a.size }

end HeaderAtlas

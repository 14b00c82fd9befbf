import HeaderAtlas.Settings.Basic
import HeaderAtlas.Settings.Datum

/-!
# Reading data

A decoder reads a value out of a datum, or fails. It follows references as it goes,
and fails when it has to follow too many.
-/

namespace HeaderAtlas

/-- Reading under way: the document says what references stand for and how many
more may be followed. -/
abbrev Decoding := StateT Document Option

/-- A way to read a value out of a datum. -/
abbrev Decoder (α : Type) := Datum → Decoding α

namespace Decoder

/-- The datum itself, or the one it refers to. -/
def follow : Decoder Datum
  | .reference slot => do
    let d ← get
    match d.patience, d.slots.lookup slot with
    | patience + 1, some target => do
      set { d with patience }
      return target
    | _, _ => failure
  | d => return d

/-- Follows a reference and reads what is there. -/
def direct {α : Type} (read : Datum → Option α) : Decoder α := fun d => do
  liftM (read (← follow d))

/-- Numbers that a count can hold are below this one. -/
def countLimit : Nat := 18446744073709551616

/-- A count. -/
def count : Decoder Nat := direct fun d =>
  Option.filter (· < countLimit) <| match d with
    | .int (.ofNat n) => some n
    | .scalar s => s.count?
    | _ => none

/-- A truth value. -/
def bool : Decoder Bool := direct fun
  | .bool b => some b
  | .scalar s => s.bool?
  | _ => none

/-- A text. -/
def text : Decoder String := direct fun
  | .text s => some s
  | .scalar s => some s.text
  | _ => none

/-- One word out of several. A record of the word alone will do. -/
def word : Decoder String := direct fun
  | .text s => some s
  | .scalar s => s.word?
  | .record [(.text s, .null)] => some s
  | _ => none

/-- The items of a list. A value left out is an empty list. -/
def items : Decoder (List Datum) := direct fun
  | .list items => some items
  | .tuple items => some items
  | .scalar s => if s.isAbsent then some [] else none
  | _ => none

/-- The entries of a record. A value left out is an empty record. -/
def entries : Decoder (List (String × Datum)) := fun d => do
  let entries : List (Datum × Datum) ← direct (fun
    | .record entries => some entries
    | .scalar s => if s.isAbsent then some [] else none
    | _ => none) d
  entries.mapM fun (k, v) => do return (← text k, v)

/-- A list of what `d` decodes. -/
def list {α : Type} (d : Decoder α) : Decoder (List α) := fun x => do (← items x).mapM d

/-- A set of names. -/
def nameSet : Decoder NameSet := fun x => NameSet.ofList <$> list text x

/-- A table of what `d` decodes. -/
def table {α : Type} (d : Decoder α) : Decoder (NameMap α) := fun x => do
  let bindings ← (← entries x).mapM fun (k, v) => do return (k, ← d v)
  return NameMap.ofList bindings

/-- The fields of a record with the given names, which are in order if the record is
written as a tuple. A field given twice or one item too many is a failure; other
entries are passed over. -/
def fields (names : List String) : Decoder (List (String × Datum)) := fun x => do
  match ← follow x with
  | .tuple items => if items.length ≤ names.length then return names.zip items else failure
  | x =>
    let given := (← entries x).filter fun f => names.contains f.1
    if given.map (·.1) |>.Nodup then return given else failure

/-- The field `name` of a record, or `default` when it is not given. -/
def field {α : Type} (given : List (String × Datum)) (name : String) (d : Decoder α)
    (default : α) : Decoding α :=
  match given.lookup name with
  | some x => d x
  | none => return default

/-- The field `name` of a record, which must be given. -/
def required {α : Type} (given : List (String × Datum)) (name : String) (d : Decoder α) :
    Decoding α :=
  match given.lookup name with
  | some x => d x
  | none => failure

end Decoder

end HeaderAtlas

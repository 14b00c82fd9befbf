import HeaderAtlas.Yaml.Scalar

/-!
# Structured data

What a settings file holds before it is read as settings. Two notations lead here.
In one of them a scalar has a type of its own, and a list may stand for a record,
its items being the fields in order. In the other a scalar is whatever the reader
of it asks for, and a value given once can be referred to again.
-/

namespace HeaderAtlas

/-- A piece of structured data. -/
inductive Datum where
  | null
  | bool (b : Bool)
  | int (n : Int)
  /-- A number that is no integer. -/
  | fraction
  | text (s : String)
  /-- A scalar that takes its type from where it stands. -/
  | scalar (s : Yaml.Scalar)
  | list (items : List Datum)
  /-- A list that may stand for a record. -/
  | tuple (items : List Datum)
  | record (fields : List (Datum × Datum))
  /-- Another value of the same document. -/
  | reference (slot : Nat)
deriving Inhabited, Repr

/-- No value, where one could stand. -/
def Datum.absent : Datum := .scalar {}

/-- Data with the values that references stand for. -/
structure Document where
  root : Datum
  /-- What each slot holds. Of two entries for a slot the first counts. -/
  slots : List (Nat × Datum) := []
  /-- How often references may be followed: an end to values that multiply. -/
  patience : Nat := 0
deriving Inhabited, Repr

end HeaderAtlas

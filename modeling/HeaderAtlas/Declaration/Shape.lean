import HeaderAtlas.Symbol.Detail

/-!
# The shapes of declarations

What the readers of declarations hand to each other: types as they were read,
declarators, and what is left to do once a declaration is over.
-/

namespace HeaderAtlas

/-! ## Types -/

/-- A struct or a union. -/
inductive Aggregate where
  | struct
  | union
deriving DecidableEq, Inhabited, Repr

/-- The category of the symbols it declares. -/
def Aggregate.category : Aggregate → Category
  | struct => .struct
  | union => .union

/-- The keyword. -/
def Aggregate.keyword (a : Aggregate) : String := a.category.label

/-- A type as it was read. -/
structure TypeSpec where
  text : String := ""
  /-- The body of an aggregate defined in place. -/
  body : Option (Aggregate × List Field) := none
  /-- The tag of that body; it is also left as the current token. -/
  tag : Option String := none
  /-- The parameters of a function pointer. -/
  signature : Option (List Param) := none
  /-- Were enumerators defined in place? -/
  enumBody : Bool := false
deriving DecidableEq, Inhabited

namespace TypeSpec

/-- Adds a word, set apart by a blank. -/
def word (ty : TypeSpec) (w : String) : TypeSpec :=
  { ty with text := if ty.text.isEmpty then w else ty.text ++ " " ++ w }

/-- Adds text as it is. -/
def append (ty : TypeSpec) (s : String) : TypeSpec := { ty with text := ty.text ++ s }

/-- Does the type define something by itself? -/
def isDefinition (ty : TypeSpec) : Bool := ty.body.isSome || ty.enumBody

end TypeSpec

/-! ## Declarators -/

/-- A name and its type, in the middle of a list of declarators. -/
structure Declarator where
  /-- The name being declared. -/
  name : String
  /-- Its type. -/
  type : String
deriving DecidableEq, Inhabited

/-- What is left to do for a declaration once the token that ends it is passed. -/
inductive Closing where
  | nothing
  /-- The comment before a prototype is used up. -/
  | forget
  /-- The last declarator of a list is recorded. -/
  | declare (ty : TypeSpec) (d : Declarator) (isStatic : Bool)
deriving DecidableEq

end HeaderAtlas

import HeaderAtlas.Place
import HeaderAtlas.Symbol.Detail

/-!
# Catalogue entries

One entry per declared name and category. The first time a declaration is seen
makes the entry; every later time amends it. Neither is done field by field by
the callers: they hand over an `Observation`, and `Entry.create` and
`Entry.amend` decide what becomes of it.
-/

namespace HeaderAtlas

/-- What one look at a declaration tells. An absent part leaves the entry as it
is. -/
structure Observation where
  header : Option String := none
  module : Option String := none
  detail : Option Detail := none
  extra : Option String := none
  guards : Option (List String) := none
  line : Option Nat := none
  isStatic : Bool := false
deriving DecidableEq, Inhabited, Repr

/-- A declared name and everything known about it. -/
structure Entry where
  name : String
  /-- The header declaring the symbol. -/
  header : Option String
  /-- The file holding the definition. -/
  module : Option String
  category : Category
  detail : Option Detail
  /-- A second annotation, such as the doc comment of a typedef. -/
  extra : Option String
  line : Nat
  isStatic : Bool
  /-- The guards under which the symbol exists; all of them must hold. -/
  guards : List String
deriving DecidableEq, Inhabited, Repr

namespace Entry

/-- The entry made by the first observation. -/
def create (name : String) (category : Category) (o : Observation) : Entry where
  name := name
  header := o.header
  module := o.module
  category := category
  detail := o.detail
  extra := o.extra
  line := o.line.getD 0
  isStatic := o.isStatic
  guards := o.guards.getD []

/-- A later observation. The header stays once it is known. The module moves as
long as it only repeats the header, so that a definition takes the place of a
declaration. Everything else that is present replaces what was there, and
`static` is never taken back. -/
def amend (e : Entry) (o : Observation) : Entry :=
  -- The module is compared with the header as it is from now on.
  let header := e.header <|> o.header
  { e with
    header
    module :=
      match o.module with
      | some m => if e.module.isNone || header == e.module then some m else e.module
      | none => e.module
    detail := o.detail <|> e.detail
    extra := o.extra <|> e.extra
    guards := o.guards.getD e.guards
    line := o.line.getD e.line
    isStatic := e.isStatic || o.isStatic }

/-- The file the symbol was first seen in. -/
def file? (e : Entry) : Option String := e.header <|> e.module

/-- The place to name in a message about the symbol. -/
def place? (e : Entry) : Option Place := e.file?.map fun file => ⟨file, e.line⟩

/-- The signature of a function or function type. -/
def function? (e : Entry) : Option FunctionDetail := e.detail.bind Detail.function?

/-- Declared in a header and not `static`. -/
def isPublic (e : Entry) : Bool := e.header.isSome && !e.isStatic

end Entry

/-- How a name is used inside a body. -/
inductive Role where
  | call
  | typeUse
deriving DecidableEq, Inhabited, Repr

/-- The role in a stored document. -/
def Role.key : Role → String
  | call => "function"
  | typeUse => "type"

/-- The uses of one name inside the bodies of a file. -/
structure Usage where
  name : String
  /-- The role of the first use. -/
  role : Role
  /-- The file of the first use. -/
  module : String
  /-- The lines of all uses, in order. -/
  lines : List Nat
deriving DecidableEq, Inhabited, Repr

end HeaderAtlas

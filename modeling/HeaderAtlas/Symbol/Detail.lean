/-!
# What is known about a symbol

Each category of symbol has its own shape of detail: a function has a signature
and prose, a macro has formal parameters, an aggregate has fields, and so on.
-/

namespace HeaderAtlas

/-- Names that belong to the implementation start with two underscores; they are
never catalogued. -/
def isReserved (name : String) : Bool :=
  match name.toList with
  | '_' :: '_' :: _ => true
  | _ => false

/-- The sort of declaration a symbol comes from. -/
inductive Category where
  | function
  /-- A typedef of a function pointer, documented like a function. -/
  | functionType
  | var
  /-- A file named by `#include`. -/
  | inclusion
  | struct
  | union
  | enumerator
  | typedef
  | macroDef
deriving DecidableEq, Inhabited, Repr

/-- The category in a message. -/
def Category.label : Category → String
  | function => "function"
  | functionType => "functype"
  | var => "variable"
  | inclusion => "include"
  | struct => "struct"
  | union => "union"
  | enumerator => "enum"
  | typedef => "typedef"
  | macroDef => "macro"

/-- The category in a stored document. -/
def Category.key : Category → String
  | functionType => "function_type"
  | enumerator => "enum_member"
  | c => c.label

/-- Every category. -/
def Category.all : List Category :=
  [function, functionType, var, inclusion, struct, union, enumerator, typedef, macroDef]

/-- A parameter of a function or function type. -/
structure Param where
  type : String
  /-- Absent for a bare type such as `(void)`. -/
  name : Option String
  /-- What the doc comment says of it. -/
  description : Option String := none
deriving DecidableEq, Inhabited, Repr

/-- The signature and prose of a function or function type. -/
structure FunctionDetail where
  returnType : String
  /-- The text after `Returns`. -/
  returnDescription : String := ""
  params : List Param := []
  /-- The summary, line breaks kept. -/
  description : String := ""
deriving DecidableEq, Inhabited, Repr

/-- A macro argument as its doc comment describes it. -/
structure MacroArg where
  name : String
  description : String
deriving DecidableEq, Inhabited, Repr

/-- A macro definition. -/
structure MacroDetail where
  /-- The formal parameters of `#define NAME(a, b)`. -/
  params : List String := []
  /-- The arguments that the doc comment describes. -/
  args : List MacroArg := []
  description : String := ""
  /-- The body, when it is one quoted word. -/
  stringValue : Option String := none
deriving DecidableEq, Inhabited, Repr

/-- A field of a struct or union. -/
structure Field where
  type : String
  name : String
  /-- The comment after the field. -/
  description : Option String
  /-- The fields of an aggregate declared in place. -/
  nested : List Field
deriving Inhabited, Repr

mutual

/-- Equality of fields is decidable, fields inside fields included. -/
def Field.equal : (a b : Field) → Decidable (a = b)
  | ⟨ta, na, da, fa⟩, ⟨tb, nb, db, fb⟩ =>
    match decEq ta tb, decEq na nb, decEq da db, Field.equalLists fa fb with
    | isTrue ht, isTrue hn, isTrue hd, isTrue hf => isTrue (by subst ht hn hd hf; rfl)
    | isFalse h, _, _, _ => isFalse (by intro e; cases e; exact h rfl)
    | _, isFalse h, _, _ => isFalse (by intro e; cases e; exact h rfl)
    | _, _, isFalse h, _ => isFalse (by intro e; cases e; exact h rfl)
    | _, _, _, isFalse h => isFalse (by intro e; cases e; exact h rfl)

/-- Equality of lists of fields is decidable. -/
def Field.equalLists : (as bs : List Field) → Decidable (as = bs)
  | [], [] => isTrue rfl
  | [], _ :: _ => isFalse nofun
  | _ :: _, [] => isFalse nofun
  | a :: as, b :: bs =>
    match Field.equal a b, Field.equalLists as bs with
    | isTrue h, isTrue hs => isTrue (by subst h hs; rfl)
    | isFalse h, _ => isFalse (by intro e; cases e; exact h rfl)
    | _, isFalse h => isFalse (by intro e; cases e; exact h rfl)

end

instance : DecidableEq Field := Field.equal

/-- The value of an enumerator. -/
structure EnumValue where
  /-- The counted value, or the text of the explicit one. -/
  value : String
  /-- The value as a number, when it could be computed. -/
  numeric : Option Int
  /-- `n` for a value written as `1 << n`. -/
  bitShift : Option Nat
  description : String
  /-- The name given to the enumeration, when there is one. -/
  enumType : Option String
deriving DecidableEq, Inhabited, Repr

/-- What is known about a symbol beyond its name and place. -/
inductive Detail where
  | function (detail : FunctionDetail)
  | macroDef (detail : MacroDetail)
  | fields (fields : List Field)
  | enumerator (value : EnumValue)
  /-- The type of a typedef or variable. -/
  | type (text : String)
deriving DecidableEq, Inhabited, Repr

/-- The signature, if the detail is one of a function. -/
def Detail.function? : Detail → Option FunctionDetail
  | function d => some d
  | _ => none

end HeaderAtlas

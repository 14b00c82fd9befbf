import HeaderAtlas.Declaration.SpecialForm
import HeaderAtlas.Declaration.Typedef

/-!
# Declarations at the top level

Variables, functions, typedefs, aggregates and enumerations, alone or inside an
`extern "C"` block.

A declaration is read up to the token that ends it, its `;` or closing brace.
Passing that token is a step of its own, because the comments and directives before
the next declaration are taken in with it.
-/

namespace HeaderAtlas

namespace Reader

/-! ## Variables -/

/-- Records a variable. -/
def recordVariable (name type : String) (isStatic : Bool) : Reader Unit := do
  record name .var (some (.type type)) none (isStatic || (← isLocal))

/-- Records what the last declarator of a declaration declares: an aggregate, if
it is the tag of a body defined in place, and a variable otherwise. -/
def recordDeclarator (ty : TypeSpec) (d : Declarator) (isStatic : Bool) :
    Reader Unit := do
  match ty.body with
  | some (a, fields) =>
    if ty.tag = some d.name && d.type = ty.text then recordAggregate a d.name fields
    else recordVariable d.name d.type isStatic
  | none => recordVariable d.name d.type isStatic

/-- Skips the value of a declarator, from its `=` on. -/
def skipInitializer : Reader Unit := do
  advance
  if ← atSep "\x7b" then
    advance
    readBody
    if ← atSep "\x7d" then advance
  else
    dropComment
    takeWhile (fun t => !t.isSep "," && !t.isSep ";") (fun _ _ => ()) ()
  dropComment
  if !(← atSep ";") && !(← atSep ",") then unexpected "missing ';' or ',' after value"

/-- The text up to the `;` that ends the declaration, added to the type. -/
def readToSemicolon (type : String) : Reader String :=
  takeWhile (!·.isSep ";") (fun type t => type ++ t.text) type

/-- The separators and operators before the next name of a list, added to its
type. -/
def readMarks (type : String) : Reader String :=
  takeWhile (fun t => t.cls == .separator || t.cls == .operator)
    (fun type t => type ++ " " ++ t.text) type

/-! ## The end of a declaration -/

/-- Passes the token that ends a declaration, and does what is left to do. -/
def close (c : Closing) : Reader Unit := do
  advance
  match c with
  | .nothing => pure ()
  -- A comment after the `;` is lost: it has just been taken in.
  | .forget => dropComment
  -- The directives after the `;` already count for the record.
  | .declare ty d isStatic => recordDeclarator ty d isStatic

/-! ## Functions -/

/-- Records a function. A definition must be documented, unless it is `static` or
excused; a declaration need not be. -/
def recordFunction (name returnType : String) (params : List Param)
    (isStatic isDefinition : Bool) : Reader Unit := do
  let env ← env
  enforce (WidthPolicy.inFunction? env.settings.width name returnType params)
  let excused := env.settings.docs.excusesFunction name || isReserved name
  let doc := DocBlock.readFunction (← look).comment name returnType params
  let quiet := !isDefinition || isStatic || excused
  edit (.warn .documentation (DocBlock.flawMessages .function name doc.flaws quiet))
  record name .function (some (.function doc.value)) none isStatic

/-- A function from after its parameter list up to the token that ends it, if it is
reached. -/
def readFunction (name returnType : String) (params : List Param) (isStatic : Bool) :
    Reader (Option Closing) := do
  if ← atSep "\x7b" then
    recordFunction name returnType params isStatic true
    advance
    readBody
    return if ← atSep "\x7d" then some .nothing else none
  else if ← atSep ";" then
    recordFunction name returnType params isStatic false
    return some .forget
  else return none

/-! ## Declarators -/

/-- What separates a declarator from the next, or else how the declaration ends. -/
def endDeclarator (ty : TypeSpec) (isStatic : Bool) (d : Declarator) :
    Reader (Round (Declarator × Option Closing)) := do
  if ← atSep ";" then
    dropComment
    return .done (d, some (.declare ty d isStatic))
  else if ← atSep "(" then
    advance
    return .done (d, ← readFunction d.name d.type (← readParams) isStatic)
  else if ← atSep "," then
    dropComment
    recordVariable d.name d.type isStatic
    advance
    let type ← readMarks ty.text
    match ← currentName with
    | some name =>
      advance
      return .again (⟨name, type⟩, none)
    | none => return .done (d, none)
  else return .done (d, none)

/-- One declarator from after its name, and what separates it from the next. -/
def declaratorRound (ty : TypeSpec) (isStatic : Bool) (p : Declarator × Option Closing) :
    Reader (Round (Declarator × Option Closing)) := do
  let (d, _) := p
  if !((← atClass .separator) || (← atClass .operator)) then return .done (d, none)
  -- A dimension left over here takes in everything up to the end of the declaration.
  let d ← if ← atSep "[" then pure { d with type := ← readToSemicolon d.type } else pure d
  if ← atOp "=" then skipInitializer
  endDeclarator ty isStatic d

/-- A declaration from its type up to the token that ends it, if it is reached. -/
def readDeclarators (isStatic : Bool) : Reader (Option Closing) := do
  let ty ← readType
  if ty.isDefinition && (← atSep ";") then return some .nothing
  else if let some name ← currentName then
    advance
    return (← loop (declaratorRound ty isStatic) (⟨name, ty.text⟩, none)).2
  else return none

/-- A declaration from after `static` or `extern` up to the token that ends it, if it
is reached. -/
def readUnqualified (isStatic : Bool) : Reader (Option Closing) := do
  match (← look).current with
  | none => return none
  | some t =>
    if t.isWord "typedef" then
      advance
      return if ← readTypedef then some .nothing else none
    else match (← env).settings.grammar.specialForms.get? t.text with
      | some form => return if ← readSpecialForm form then some .nothing else none
      | none => readDeclarators isStatic

/-! ## Blocks of declarations -/

/-- The current token cannot start a declaration. It ends what it is. -/
def strayToken : Reader (Option Closing) := do
  malformed ((← describe) ++ " unexpected at the top level")
  return some .nothing

/-- A declaration or a stray token up to the token that ends it, if it is reached. -/
def readItem : Reader (Option Closing) := do
  if ← atName then readDeclaration else strayToken

/-- One item of a block. -/
def blockRound : Reader Unit := do
  if let some c ← readItem then close c

/-- One item of an `extern "C"` block, unless it ends here. -/
def linkageRound (_ : Unit) : Reader (Round Unit) := do
  if (← atEnd) || (← atSep "\x7d") then return .done ()
  blockRound
  return .again ()

/-- The declarations of an `extern "C"` block, from its opening brace up to its closing
one. -/
def readLinkageBlock : Reader (Option Closing) := do
  advance
  loop linkageRound ()
  return some .nothing

/-- A declaration up to the token that ends it, if it is reached. -/
def wholeDeclaration : Reader (Option Closing) := do
  if ← atWord "extern" then
    advance
    if ← atClass .string then
      if ← at? (·.text != "C") then return none
      advance
      if ← atSep "\x7b" then return ← readLinkageBlock
    readUnqualified false
  else if ← atWord "static" then
    advance
    if ← atName then readUnqualified true else return none
  else readUnqualified false

/-- One item of a file, unless there is none left. -/
def fileRound (_ : Unit) : Reader (Round Unit) := do
  if ← atEnd then return .done ()
  blockRound
  return .again ()

/-- All declarations of a file. -/
def readFile : Reader Unit := do
  advance
  loop fileRound ()

end Reader

/-! ## Routines -/

namespace Routine

/-- What the routine does. -/
def body : (r : Routine) → Reader r.Result
  | type => Reader.wholeType
  | declaration => Reader.wholeDeclaration

variable {σ : Type} [Feed σ] [LawfulFeed σ]

/-- May `q` be read inside `r` when `r` was begun in the first state? Either a token
was passed in between, or `q` is of a lower rank. -/
def Admits (r q : Routine) (s s' : Scanner σ) : Prop :=
  s.Passed s' ∨ (q.rank < r.rank ∧ s'.size ≤ s.size)

instance (r q : Routine) (s s' : Scanner σ) : Decidable (r.Admits q s s') :=
  inferInstanceAs (Decidable (_ ∨ _))

/-- Runs a routine. -/
def run (env : ScanEnv) (r : Routine) (s : Scanner σ) : Ending σ r.Result :=
  r.body.run (fun q s' => if _h : r.Admits q s s' then run env q s' else .ok default s') env s
termination_by 2 * s.size + r.rank
decreasing_by
  have hq : q.rank ≤ 1 := by cases q <;> decide
  rcases _h with h | ⟨hr, hs⟩
  · have := h.2
    omega
  · omega

end Routine

end HeaderAtlas

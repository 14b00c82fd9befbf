import HeaderAtlas.Declaration.Enumerators

/-!
# Types

A type up to the name it declares. Pointers, array dimensions and the signature
of a function pointer are folded into the text of the type, and the declared name
is left as the current token.

Types contain types: the fields of an aggregate and the parameters of a function
pointer have one each. `readType` stands for the reader of the types inside;
`wholeType` is what it does.
-/

namespace HeaderAtlas

namespace Reader

/-! ## Words -/

/-- Adds the current tokens to the type, as long as they satisfy `p`. -/
def takeWords (p : Token → Bool) (ty : TypeSpec) : Reader TypeSpec :=
  takeWhile p (fun ty t => ty.word t.text) ty

/-- Adds `w` to the type, if it is the current token. -/
def optionalWord (w : String) (ty : TypeSpec) : Reader TypeSpec := do
  if ← atWord w then
    advance
    return ty.word w
  else return ty

/-- Qualifiers that may lead a type. -/
def isQualifier (t : Token) : Bool := t.isWord "const" || t.isWord "unsigned" || t.isWord "signed"

/-- Operators and qualifiers that may follow the base of a type. -/
def isPointerPart (t : Token) : Bool := t.cls == .operator || t.isWord "const"

/-- `long`, `long long`, `long int` and `long long int`, from after the first
word. -/
def longRest (ty : TypeSpec) : Reader TypeSpec := do
  advance
  optionalWord "int" (← optionalWord "long" ty)

/-- `short` and `short int`, from after the first word. -/
def shortRest (ty : TypeSpec) : Reader TypeSpec := do
  advance
  optionalWord "int" ty

/-! ## Parameters and fields -/

/-- The parameter that a type and the token after it amount to. A bare type has
no name; an empty one is no parameter. -/
def bareParam (type : String) : List Param :=
  if type = "..." then [⟨"...", some "...", none⟩]
  else if type.isEmpty then []
  else [⟨type, none, none⟩]

/-- One parameter and the separator after it. -/
def paramRound (params : List Param) : Reader (Round (List Param)) := do
  if ← atEnd then return .done params
  let ty ← readType
  let params ← match ← currentName with
    | some name =>
      advance
      pure (params ++ [⟨ty.text, some name, none⟩])
    | none =>
      if (← atSep ",") || (← atSep ")") then pure (params ++ bareParam ty.text) else pure params
  if ← atSep "," then
    advance
    return .again params
  else if ← atSep ")" then
    advance
    return .done params
  else
    unexpected "parsing signature: expecting ',' or ')'"
    advance
    return .again params

/-- A parameter list from after its opening parenthesis to after its closing
one. -/
def readParams : Reader (List Param) := do
  if ← atSep ")" then
    advance
    return []
  loop (paramRound) []

/-- The text of a field's type. The tag of an aggregate defined in place is used
up and becomes part of it. -/
def fieldType (ty : TypeSpec) : Reader String := do
  match ty.tag with
  | some tag =>
    if ← atWord tag then
      advance
      return ty.text ++ " " ++ tag
    else return ty.text
  | none => return ty.text

/-- One field, the closing brace, or a block to pass over. The comment after a
field describes it. -/
def fieldRound (a : Aggregate) (fields : List Field) :
    Reader (Round (List Field)) := do
  if ← atEnd then return .done fields
  if ← atSep "\x7d" then
    advance
    return .done fields
  if ← atSep "\x7b" then
    advance
    skipBraces
    return .again fields
  let ty ← readType
  let type ← fieldType ty
  match ← currentName with
  | some name =>
    advance
    if ← atSep ";" then
      -- Only a comment after the `;` describes the field.
      dropComment
      advance
      let description ← takeComment
      let nested := (ty.body.map (·.2)).getD []
      return .again (fields ++ [⟨type, name, description, nested⟩])
    else
      unexpected ("parsing " ++ a.keyword ++ " field " ++ name ++ ": expecting ';'")
      return .again fields
  | none =>
    if ← atSep "\x7b" then
      advance
      skipBraces
      if ← atName then advance
      if ← atSep ";" then advance
      else unexpected ("parsing " ++ a.keyword ++ ": expecting ';'")
      return .again fields
    else
      unexpected ("parsing " ++ a.keyword ++ ": expecting a field name")
      advance
      return .again fields

/-- The fields from after the opening brace to after the closing one. -/
def readFields (a : Aggregate) : Reader (List Field) :=
  loop (fieldRound a) []

/-! ## Bases -/

/-- A type whose base has been read, and whether pointers may follow it. -/
structure BaseSpec where
  type : TypeSpec
  continues : Bool

/-- `struct` or `union`, from the keyword on. With a body the type ends there,
and the tag is put back as if it were the declared name. -/
def readAggregate (a : Aggregate) (ty : TypeSpec) : Reader BaseSpec := do
  let ty := ty.word a.keyword
  advance
  past fun tag => do
    if ← atSep "\x7b" then
      advance
      let fields ← readFields a
      return (⟨{ ty with body := some (a, fields), tag }, false⟩, true)
    match tag with
    | some tag => return (⟨ty.word tag, true⟩, false)
    | none =>
      unexpected ("parsing " ++ a.keyword ++ ": expecting a name or '\x7b'")
      return (⟨ty, false⟩, false)

/-- `enum`, from the keyword on. A body records its enumerators. -/
def readEnum (ty : TypeSpec) : Reader BaseSpec := do
  let ty := ty.word "enum"
  advance
  let tag ← currentName
  if tag.isSome then advance
  if ← atSep "\x7b" then
    dropComment
    advance
    let es ← readEnumerators
    recordEnumerators es (← currentName)
    return ⟨{ ty with enumBody := true }, false⟩
  match tag with
  | some tag => return ⟨ty.word tag, true⟩
  | none =>
    unexpected "parsing enum: expecting '\x7b'"
    return ⟨ty, false⟩

/-- The base of a type, after its leading qualifiers. -/
def readBase (ty : TypeSpec) : Reader BaseSpec := do
  if ← atWord "long" then return ⟨← longRest (ty.word "long"), true⟩
  else if ← atWord "short" then return ⟨← shortRest (ty.word "short"), true⟩
  else if ← atWord "struct" then readAggregate .struct ty
  else if ← atWord "union" then readAggregate .union ty
  else if ← atWord "enum" then readEnum ty
  else if ← atName then
    match ← take with
    | some t => return ⟨ty.word t.text, true⟩
    | none => return ⟨ty, true⟩
  else if ty.text.isEmpty then
    unexpected "parsing type: expecting a name"
    return ⟨ty, false⟩
  else return ⟨ty, true⟩

/-! ## Declarators -/

/-- An operator made of asterisks only. -/
def isStars (t : Token) : Bool := t.cls == .operator && t.text.toList.all (· == '*')

/-- `(*name)(params)`, from its first parenthesis on. The name is put back. -/
def readFunctionPointer (ty : TypeSpec) : Reader TypeSpec := do
  let ty := ty.append "("
  advance
  let ty ← takeWhile isStars (fun ty t => ty.append t.text) ty
  past fun
    | none => do
      unexpected "parsing function type, name expected"
      return (ty, false)
    | some name => do
      let ty := ty.append name
      if !(← atSep ")") then
        unexpected "parsing function type, ')' expected"
        return (ty, false)
      let ty := ty.append ")"
      advance
      if !(← atSep "(") then
        unexpected "parsing function type, '(' expected"
        return (ty, false)
      advance
      let params ← readParams
      return ({ ty with signature := some params }, true)

/-- The dimensions of an array: whether they were all closed is returned. -/
def readDimensions (ty : TypeSpec) : Reader (TypeSpec × Bool) :=
  loop (fun (ty, _) => do
    if !(← atSep "[") then return .done (ty, true)
    advance
    let ty ← takeWhile (·.cls != .separator) (fun ty t => ty.append t.text) (ty.append "[")
    if ← atSep "]" then
      advance
      return .again (ty.append "]", true)
    else
      unexpected "parsing array type, ']' expected"
      return .done (ty, false)) (ty, true)

/-- The array dimensions or the bit-field width after the declared name, which is
put back unless a dimension is not closed. -/
def readSuffix (ty : TypeSpec) : Reader TypeSpec :=
  past fun _ => do
    if ← atSep "[" then readDimensions ty
    else
      if ← atSep ":" then
        -- The colon and the width, which is a single token.
        advance
        advance
      return (ty, true)

/-- What follows the words of a type: a function pointer, a name or nothing of it. -/
def readRest (ty : TypeSpec) : Reader TypeSpec := do
  if ← atSep "(" then readFunctionPointer ty
  else if ← atName then readSuffix ty
  else return ty

/-! ## Types -/

/-- A type up to the name it declares. -/
def wholeType : Reader TypeSpec := do
  if ← atEnd then return {}
  let ty ← takeWords isQualifier {}
  let base ← readBase ty
  if !base.continues then return base.type
  readRest (← takeWords isPointerPart base.type)

end Reader

end HeaderAtlas

import HeaderAtlas.Declaration.Reader

/-!
# Call-like macros

Some macros stand where a declaration could and have a layout of their own. They
declare nothing, but they have to be passed over.

Every expectation below uses up a token even if it is not met, so that a scan
with errors switched off gets on.
-/

namespace HeaderAtlas

namespace Reader

/-- Uses up a token that should satisfy `p`. -/
def expect (form what : String) (p : Token → Bool) : Reader Unit := do
  if !(← at? p) then unexpected ("parsing " ++ form ++ ": expecting " ++ what)
  advance

/-- Uses up a name. -/
def expectName (form : String) : Reader Unit := expect form "name" Token.isName

/-- Uses up a string. -/
def expectString (form : String) : Reader Unit := expect form "string" (·.cls == .string)

/-- Uses up a separator. -/
def expectSep (form sep : String) : Reader Unit := expect form ("'" ++ sep ++ "'") (Token.isSep sep)

/-- `type, sentinel, "a", N_("b"), ...`, up to the closing parenthesis. A comma
may be left over before it. -/
def readEnumImpl (form : String) : Reader Unit := do
  expectName form
  expectSep form ","
  expectName form
  loop (fun _ => do
    if !(← atSep ",") then return .done ()
    advance
    if ← atSep ")" then return .done ()
    if ← atWord "N_" then
      advance
      expectSep form "("
      expectString form
      expectSep form ")"
    else expectString form
    return .again ()) ()

/-- Passes over everything before the next `;`. -/
def skipToSemicolon : Reader Unit := do
  loop (fun _ => do
    if (← atEnd) || (← atSep ";") then return .done ()
    advance
    return .again ()) ()

/-- A call-like macro from its name up to its `;`: whether it was reached. A static
assertion always has one. -/
def readSpecialForm (form : SpecialForm) : Reader Bool := do
  let name := ((← look).current.map Token.text).getD ""
  advance
  if form = .staticAssert then
    skipToSemicolon
    return true
  else if !(← atSep "(") then
    unexpected ("parsing " ++ name ++ ": expecting '('")
    return false
  else
    advance
    match form with
    | .enumDecl => expectName name
    | .enumImpl => readEnumImpl name
    | .logInit => expectString name
    | .staticAssert => pure ()
    expectSep name ")"
    atSep ";"

end Reader

end HeaderAtlas

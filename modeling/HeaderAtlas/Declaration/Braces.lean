import HeaderAtlas.Declaration.Reader

/-!
# Blocks in braces

Blocks are skipped by counting braces. Inside the body of a function or an
initializer, the names that the usage rules ask for are recorded on the way.
-/

namespace HeaderAtlas

namespace Reader

/-- Skips a block from after its opening brace to after its closing one. -/
def skipBraces : Reader Unit := do
  let _ ← loop (fun depth => do
    if ← atEnd then return .done depth
    else if ← atSep "\x7b" then
      advance
      return .again (depth + 1)
    else if ← atSep "\x7d" then
      advance
      if depth = 1 then return .done 0 else return .again (depth - 1)
    else
      advance
      return .again depth) 1

/-- Records a token as a use, if a rule asks for it. The tokens after it tell a
call from a use of a type, and those that do are used up. -/
def noteUse (t : Token) : Reader Unit := do
  if !t.isName then return
  let rules := (← env).settings.grammar.usageRules
  let some rule := rules.find? fun r => Text.startsWithText r.stem t.text | return
  let here ← place
  match rule.mode with
  | .anyUse => edit (.find [.use t.text .typeUse here])
  | .callsAndTypes =>
    if ← atSep "(" then
      edit (.find [.use t.text .call here])
      advance
    else if ← atName then
      -- The second name is used up, whether or not it declares a variable.
      advance
      if (← atSep ";") || (← atSep ",") || (← atOp "=") then
        edit (.find [.use t.text .typeUse here])

/-- One token of a body that is `depth` blocks deep. A comment inside it documents
nothing after it. -/
def bodyRound (depth : Nat) : Reader (Round Nat) := do
  if ← atEnd then return .done depth
  else if ← atSep "\x7b" then
    advance
    return .again (depth + 1)
  else if ← atSep "\x7d" then
    dropComment
    if depth = 1 then return .done 0
    advance
    return .again (depth - 1)
  else if (← env).collectUsages then
    if let some t ← take then noteUse t
    return .again depth
  else
    advance
    return .again depth

/-- Reads a body from after its opening brace up to its closing one, which is left
as the current token. -/
def readBody : Reader Unit := do
  let _ ← loop bodyRound 1

end Reader

end HeaderAtlas

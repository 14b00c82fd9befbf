import HeaderAtlas.ConstExpr
import HeaderAtlas.Declaration.Braces

/-!
# Enumerations

The enumerators between the braces of an `enum`. Values are counted where none
is given, and an explicit value is evaluated so that counting can go on after
it. If a comment stands right after the opening brace, comments precede the
enumerator they describe; otherwise they follow it.
-/

namespace HeaderAtlas

/-- An enumerator as it stands in the source. -/
structure Enumerator where
  name : String
  value : String
  numeric : Option Int
  description : String := ""
  line : Nat
deriving DecidableEq, Inhabited, Repr

/-- What is known in the middle of an enumeration. -/
structure EnumProgress where
  /-- The enumerators that are settled, in order. -/
  settled : List Enumerator := []
  /-- The enumerator that may still be given a description. -/
  open? : Option Enumerator := none
  /-- The value before the next one, if it is known. -/
  previous : Option Int := some (-1)

namespace Reader

/-- Settles the open enumerator. A pending comment describes it. -/
def settle (p : EnumProgress) : Reader EnumProgress := do
  match p.open? with
  | none => return p
  | some e =>
    let e := match ← takeComment with
      | some description => { e with description }
      | none => e
    return { p with settled := p.settled ++ [e], open? := none }

/-- What stands after the `=` in an operator that starts with one. -/
def assigned? (t : Token) : Option String :=
  match t.cls, t.text.toList with
  | .operator, '=' :: rest => some (String.ofList rest)
  | _, _ => none

/-- The text of an explicit value, up to a comma or the closing brace. -/
def readValue (value : String) : Reader String :=
  loop (fun value => do
    match (← look).current with
    | none => return .done value
    | some t =>
      if t.isSep "," || t.isSep "\x7d" then return .done value
      else
        advance
        return .again (value ++ ConstExpr.stripUnsigned t.text)) value

/-- The value of the enumerator `name`, from after its name: explicit, or counted
from the one before. -/
def readEnumValue (name : String) (previous : Option Int) : Reader (String × Option Int) := do
  match (← look).current.bind assigned? with
  | some value =>
    advance
    let value ← readValue value
    return (value, ConstExpr.evaluate value)
  | none =>
    match previous.bind fun n => ConstExpr.fit? (n + 1) with
    | some n => return (toString n, some n)
    | none =>
      edit (.warn .enumValue ["Failed to compute value of enum " ++ name])
      return ("", none)

/-- One round: an enumerator, the closing brace, or something to pass over. -/
def enumRound (commentsLead : Bool) (p : EnumProgress) : Reader (Round EnumProgress) := do
  match (← look).current with
  | none => return .done p
  | some t =>
    if t.isSep "\x7b" then
      advance
      skipBraces
      return .again p
    else if t.isSep "\x7d" then
      let p ← settle p
      advance
      return .done p
    else if !t.isName then
      advance
      return .again p
    else
      -- The comment that settles the one before has been read with this name.
      let p ← settle p
      let line ← line
      advance
      let (value, numeric) ← readEnumValue t.text p.previous
      let p := { p with previous := numeric }
      let e : Enumerator := { name := t.text, value, numeric, line }
      if ← atSep "," then
        let p ←
          if commentsLead then do
            let description := (← takeComment).getD ""
            pure { p with settled := p.settled ++ [{ e with description }] }
          else pure { p with open? := some e }
        advance
        return .again p
      else return .again { p with open? := some e }

/-- The enumerators from after the opening brace to after the closing one. -/
def readEnumerators : Reader (List Enumerator) := do
  let commentsLead := (← look).comment.isSome
  return (← loop (enumRound commentsLead) {}).settled

/-- Records the enumerators of a block whose type is called `enumType`. -/
def recordEnumerators (es : List Enumerator) (enumType : Option String) : Reader Unit := do
  let env ← env
  let guards := (← look).guards
  edit (.find (es.map fun e =>
    let value : EnumValue :=
      { value := e.value
        numeric := e.numeric
        bitShift := ConstExpr.bitShift? e.value
        description := e.description
        enumType }
    let o := env.observe guards e.line (some (.enumerator value)) none env.isLocal
    .declaration e.name .enumerator o))

end Reader

end HeaderAtlas

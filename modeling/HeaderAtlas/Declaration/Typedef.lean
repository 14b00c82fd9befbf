import HeaderAtlas.Declaration.TypeSpec
import HeaderAtlas.WidthPolicy

/-!
# Typedefs

A typedef may name a function pointer, an aggregate defined in place, or any
other type, and may give several names at once. Only the first name takes the
signature or the body; the names after it refer to what the first one is called.
-/

namespace HeaderAtlas

/-- What is known in the middle of a typedef. -/
structure TypedefProgress where
  /-- The type that further names build on. -/
  base : String
  /-- The type of the next name. -/
  type : String
  /-- A signature not taken yet. -/
  signature : Option (List Param)
  /-- A body not taken yet. -/
  body : Option (Aggregate × List Field)
  /-- Was the closing `;` reached? -/
  closed : Bool := false

namespace Reader

/-- Refuses a violation of the width policy. -/
def enforce (violation : Option WidthPolicy.Violation) : Reader Unit := do
  if let some v := violation then raise (.width v.message (← place))

/-- A violation that does not end the scan is noted only. -/
theorem enforce_eq {σ : Type} [Feed σ] [LawfulFeed σ]
    {inner : (r : Routine) → Scanner σ → Ending σ r.Result} {e : ScanEnv} {s s' : Scanner σ}
    {violation : Option WidthPolicy.Violation}
    (h : (enforce violation).run inner e s = .ok () s') :
    s' = s ∨ ∃ failure, s' = s.swallow failure := by
  unfold enforce raise place at h
  split at h
  · simp only [run_bind, run_env, run_line, run_pure, run_look, Ending.andThen_ok] at h
    split at h
    · cases h; exact .inr ⟨_, rfl⟩
    · cases h
  · cases h; exact .inl rfl

/-- Records a struct or union. -/
def recordAggregate (a : Aggregate) (name : String) (fields : List Field) : Reader Unit := do
  if a = .struct then
    enforce (WidthPolicy.inStruct? (← env).settings.width name fields)
  record name a.category (some (.fields fields)) none (← isLocal)

/-- What stands before the first parenthesis of a function pointer's type. -/
def resultType (type : String) : String :=
  String.ofList (Text.trim (type.toList.takeWhile (· != '(')))

/-- Records one name of a typedef whose aggregate, if any, has the given tag. -/
def recordTypedef (tag : Option String) (name : String) (p : TypedefProgress) :
    Reader TypedefProgress := do
  let comment := (← look).comment
  let isLocal ← isLocal
  match p.signature, p.body with
  | some params, _ =>
    -- Flaws of the comment are not noted: only definitions have to be documented.
    let doc := DocBlock.readFunction comment name (resultType p.type) params
    record name .functionType (some (.function doc.value)) none isLocal
    return { p with signature := none }
  | none, some (a, fields) =>
    recordAggregate a name fields
    let p := { p with body := none }
    if tag = some name then return { p with base := a.keyword ++ " " ++ name }
    else
      record name .typedef (some (.type (a.keyword ++ " <anon>")))
        (DocBlock.readTypedef comment name) isLocal
      return { p with base := name }
  | none, none =>
    record name .typedef (some (.type p.type)) (DocBlock.readTypedef comment name) isLocal
    return p

/-- The operators before the next name of a list, added to its type. -/
def readPointers (type : String) : Reader String :=
  takeWhile (·.cls == .operator) (fun type t => type ++ " " ++ t.text) type

/-- One name of a typedef, and what separates it from the next. -/
def typedefRound (tag : Option String) (p : TypedefProgress) :
    Reader (Round TypedefProgress) := do
  let some name ← currentName
    | unexpected "parsing typedef: expecting a name"
      return .done p
  let p ← recordTypedef tag name p
  advance
  if ← atSep "," then
    advance
    return .again { p with type := ← readPointers p.base }
  else if ← atSep ";" then return .done { p with closed := true }
  else if ← atName then return .again { p with type := p.base }
  else
    unexpected "parsing typedef: expecting ';'"
    return .done p

/-- A typedef from after its keyword up to its `;`: whether it was reached. -/
def readTypedef : Reader Bool := do
  if ← atEnd then
    malformed "parsing typedef: unexpected end of input"
    return false
  else
    let ty ← readType
    let p ← loop (typedefRound ty.tag)
      { base := ty.text, type := ty.text, signature := ty.signature, body := ty.body }
    return p.closed

end Reader

end HeaderAtlas

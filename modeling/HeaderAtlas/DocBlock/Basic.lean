import HeaderAtlas.Symbol.Detail
import HeaderAtlas.Text.Blank
import HeaderAtlas.Text.Search

/-!
# Doc comments

A documented declaration has a comment of this shape before it, which the lexer
hands over line by line, each line trimmed:

    *
    * virDomainFoo:
    * @domain: a domain object
    * @flags: extra flags;
    *         not used yet
    *
    * The summary, line breaks kept.
    *
    * Returns 0 on success,
    * -1 on failure.

A comment that does not have the shape is not refused. What can be read is read,
and each shortcoming becomes a `Flaw`.
-/

namespace HeaderAtlas

namespace DocBlock

open Text

/-- A line of a comment. -/
abbrev Line := List Char

/-- What a doc comment documents. -/
inductive Subject where
  | function
  | macroDef
deriving DecidableEq, Inhabited, Repr

/-- The subject in the middle of a sentence. -/
def Subject.noun : Subject → String
  | function => "function"
  | macroDef => "macro"

/-- The subject at the start of a sentence. -/
def Subject.title : Subject → String
  | function => "Function"
  | macroDef => "Macro"

/-- A shortcoming of a doc comment. -/
inductive Flaw where
  /-- There is no comment. -/
  | absent
  /-- The comment does not start with an asterisk. -/
  | unmarked
  /-- The line naming the subject is not as expected. -/
  | header (got : Line)
  /-- An argument line has no colon. -/
  | argument (line : Line)
  /-- The described argument is none of the subject's. -/
  | strayArgument (arg : Line)
  /-- An argument is not described. -/
  | undescribedArgument (arg : String)
  /-- The return value is not described. -/
  | undescribedReturn
  /-- The subject itself is not described. -/
  | undescribed
deriving DecidableEq, Inhabited, Repr

/-- The line naming the subject. -/
def headerLine (name : String) : Line := ['*', ' '] ++ name.toList ++ [':']

/-- The flaw in words. -/
def Flaw.message (subject : Subject) (name : String) : Flaw → String
  | absent => "Missing comment for " ++ subject.noun ++ " " ++ name
  | unmarked => "Missing * in " ++ subject.noun ++ " comment for " ++ name
  | header got =>
    "Misformatted " ++ subject.noun ++ " comment for " ++ name ++ ": expecting '" ++
      String.ofList (headerLine name) ++ "' got '" ++ String.ofList got ++ "'"
  | argument line =>
    "Misformatted " ++ subject.noun ++ " comment for " ++ name ++ ": problem with '" ++
      String.ofList line ++ "'"
  | strayArgument arg =>
    "Unable to find arg " ++ String.ofList arg ++ " from " ++ subject.noun ++ " comment for " ++
      name
  | undescribedArgument arg =>
    subject.title ++ " comment for " ++ name ++ " lacks description of arg " ++ arg
  | undescribedReturn =>
    subject.title ++ " comment for " ++ name ++ " lacks description of return value"
  | undescribed =>
    subject.title ++ " comment for " ++ name ++ " lacks description of the " ++ subject.noun

/-! ## Lines -/

/-- A line without its leading asterisks. -/
def unstarred (line : Line) : Line := line.dropWhile (· == '*')

/-- The words on a line: asterisks and blanks around them removed. -/
def content (line : Line) : Line := trim (unstarred line)

/-- The text of a summary line: the asterisks and one blank after them removed,
deeper indentation kept. -/
def indented (line : Line) : Line :=
  match line with
  | '*' :: rest =>
    match unstarred rest with
    | ' ' :: text => text
    | text => text
  | _ => line

/-- A line that only separates. -/
def isSeparator (line : Line) : Bool := line == ['*']

/-- The lines after leading separators. -/
def skipSeparators (ls : List Line) : List Line := ls.dropWhile isSeparator

/-- Lines joined by `sep`. -/
def joined (sep : Char) (ls : List Line) : Line := [sep].intercalate ls

/-- The size of a text in UTF-8. -/
def byteSize (cs : List Char) : Nat := cs.foldr (fun c n => c.utf8Size + n) 0

/-! ## Sections -/

/-- The lines after the one naming the subject. -/
def afterHeader (comment : Option String) (name : String) : Except Flaw (List Line) :=
  match comment.map String.toList with
  | none => .error .absent
  | some cs =>
    if cs.head? != some '*' then .error .unmarked
    else
      let ls := (lines cs).map trimEnd
      -- The line of the opening is empty when the text starts on the next one.
      let ls := if ls.head? == some ['*'] then ls.tail else ls
      match ls with
      | [] => .error (.header [])
      | l :: rest =>
        if l = headerLine name then .ok (skipSeparators rest) else .error (.header l)

/-- A line of the argument section. -/
inductive Argument where
  /-- A name and its description. -/
  | described (name description : Line)
  /-- A line without a colon. -/
  | broken (line : Line)
deriving DecidableEq, Inhabited, Repr

/-- Does the line belong to the description above it? A line of at most two bytes
ends the description, and so does the next argument; where a return section may
follow, `Returns` ends it too. -/
def continues (untilReturns : Bool) (line : Line) : Bool :=
  let trimmed := trim line
  !(byteSize trimmed ≤ 2 || startsWith ['*', ' ', '@'] trimmed ||
    (untilReturns && startsWith "Returns".toList (content trimmed)))

/-- The argument section at the head of the lines, and the lines after it. -/
def arguments (untilReturns : Bool) (ls : List Line) : List Argument × List Line :=
  match ls with
  | [] => ([], [])
  | l :: rest =>
    match dropStem? ['*', ' ', '@'] l with
    | none => ([], l :: rest)
    | some text =>
      match cut? [':'] text with
      | none =>
        let (args, after) := arguments untilReturns rest
        (.broken l :: args, after)
      | some (name, first) =>
        let more := rest.takeWhile (continues untilReturns)
        let description := joined ' ' (trim first :: more.map fun m => content (trim m))
        have : (rest.dropWhile (continues untilReturns)).length ≤ rest.length :=
          (List.dropWhile_sublist _).length_le
        let (args, after) := arguments untilReturns (rest.dropWhile (continues untilReturns))
        (.described (trim name) (trim description) :: args, after)
termination_by ls.length

/-- The flaws of the argument lines themselves. -/
def brokenArguments (args : List Argument) : List Flaw :=
  args.filterMap fun
    | .broken line => some (.argument line)
    | .described .. => none

/-- The described arguments. -/
def describedArguments (args : List Argument) : List (Line × Line) :=
  args.filterMap fun
    | .broken _ => none
    | .described name description => some (name, description)

/-- Does the line start the return section? -/
def startsReturns (line : Line) : Bool := startsWith "Returns".toList (indented line)

/-- The description of the return value: the rest of its first line after a
blank, and all lines after it. -/
def returnsText (ls : List Line) : Line :=
  match ls with
  | [] => []
  | l :: rest =>
    let first := match cut? [' '] (indented l) with
      | some (_, text) => trim text
      | none => []
    trim (joined ' ' (first :: rest.map content))

/-! ## Reading -/

/-- What a comment says, and its flaws. -/
structure Reading (α : Type) where
  value : α
  flaws : List Flaw
deriving DecidableEq, Inhabited

/-- The parameters with the description of `arg` filled in, or nothing if none
has that name. -/
def describeParam? (arg description : Line) : List Param → Option (List Param)
  | [] => none
  | p :: ps =>
    if p.name = some (String.ofList arg) then
      some ({ p with description := some (String.ofList description) } :: ps)
    else (describeParam? arg description ps).map (p :: ·)

/-- Fills in the descriptions, in order; an argument that is none of the
parameters is a flaw. -/
def describeParams (args : List (Line × Line)) (params : List Param) : List Param × List Flaw :=
  args.foldl (fun (params, flaws) (arg, description) =>
    match describeParam? arg description params with
    | some params => (params, flaws)
    | none => (params, flaws ++ [.strayArgument arg])) (params, [])

/-- The named parameters without a description, `void` ones aside. -/
def undescribedParams (params : List Param) : List Flaw :=
  params.filterMap fun p =>
    match p.name with
    | some name =>
      if p.description.isNone && p.type != "void" then some (.undescribedArgument name) else none
    | none => none

/-- The comment of a function with the given signature. -/
def readFunction (comment : Option String) (name returnType : String) (params : List Param) :
    Reading FunctionDetail :=
  match afterHeader comment name with
  | .error flaw => ⟨{ returnType, params }, [flaw]⟩
  | .ok ls =>
    let (args, ls) := arguments true ls
    let (params, stray) := describeParams (describedArguments args) params
    let ls := skipSeparators ls
    let summary := ls.takeWhile (!startsReturns ·)
    let returns := returnsText (ls.dropWhile (!startsReturns ·))
    let detail : FunctionDetail :=
      { returnType
        params
        returnDescription := String.ofList returns
        description := String.ofList (trim (joined '\n' (summary.map indented))) }
    let unreturned := detail.returnDescription.isEmpty && returnType != "void"
    ⟨detail, brokenArguments args ++ stray ++ undescribedParams params ++
      (if unreturned then [.undescribedReturn] else []) ++
      (if detail.description.isEmpty then [.undescribed] else [])⟩

/-- What a macro's comment says. -/
structure MacroDoc where
  args : List MacroArg := []
  description : String := ""
deriving DecidableEq, Inhabited, Repr

/-- The comment of a macro. -/
def readMacro (comment : Option String) (name : String) : Reading MacroDoc :=
  match afterHeader comment name with
  | .error flaw => ⟨{}, [flaw]⟩
  | .ok ls =>
    let (args, ls) := arguments false ls
    let ls := skipSeparators ls
    let description := String.ofList (trim (joined ' ' (ls.map content)))
    let doc : MacroDoc :=
      { args := (describedArguments args).map fun (name, description) =>
          ⟨String.ofList name, String.ofList description⟩
        description }
    ⟨doc, brokenArguments args ++ (if description.isEmpty then [.undescribed] else [])⟩

/-- The comment of a typedef: its text, if it is laid out well and says
something. -/
def readTypedef (comment : Option String) (name : String) : Option String := do
  let cs := (← comment).toList
  if cs.head? != some '*' then none
  else
    match ((lines cs).map trimEnd).filter (trim · != ['*']) with
    | [] => none
    | l :: rest =>
      let description := trim (joined ' ' (rest.map content))
      if l = headerLine name && !description.isEmpty then some (String.ofList description)
      else none

/-! ## Free comments -/

/-- A line without its first asterisk, if that is the first thing on it. -/
def unmarkedLine (line : Line) : Line :=
  match trimStart line with
  | '*' :: rest => line.takeWhile isBlank ++ rest
  | _ => line

/-- A comment that documents what stands beside it: the asterisk at the start of
each line removed, and the whole trimmed. -/
def cleaned (comment : String) : String :=
  String.ofList (trim (joined '\n' ((lines comment.toList).map unmarkedLine)))

end DocBlock

end HeaderAtlas

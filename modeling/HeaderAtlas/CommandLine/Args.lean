/-!
# The command line

    parse FILE [-f|--format text|json]
    build [-n|--name NAME] [--header FILE]... [--source FILE]... [-d|--dir DIR]
          [-o|--output FILE] [--keep-going]

`-c|--config FILE` and `-v|--verbose` may stand before or after the name of the
command; the settings file named after it wins. An option that takes a value has
it attached or as the next argument, and short options may be run together.
Every option but `--header` and `--source` may be given once on either side of
the command's name. After `--` everything is an operand.
-/

namespace HeaderAtlas

namespace CommandLine

/-- How a catalogue is shown. -/
inductive Format where
  | text
  | json
deriving DecidableEq, Inhabited, Repr

/-- The arguments of `build`. -/
structure BuildArgs where
  name : String := "api"
  headers : List String := []
  sources : List String := []
  dir : Option String := none
  output : Option String := none
  keepGoing : Bool := false
deriving DecidableEq, Inhabited, Repr

/-- What is to be done. -/
inductive Command where
  /-- Catalogue one file and show the catalogue. -/
  | parse (file : String) (format : Format)
  /-- Survey a project and store its catalogue. -/
  | build (args : BuildArgs)
deriving DecidableEq, Inhabited, Repr

/-- A whole command line. -/
structure Invocation where
  config : Option String
  verbose : Bool
  command : Command
deriving DecidableEq, Inhabited, Repr

/-- Why a command line is not carried out. -/
inductive Refusal where
  /-- It asks for help or for the version. -/
  | help
  /-- It cannot be understood. -/
  | usage
deriving DecidableEq, Inhabited, Repr

/-! ## Options -/

/-- The options. -/
inductive Opt where
  | config | verbose | format | name | header | source | dir | output | keepGoing | help | version
deriving DecidableEq, Inhabited, Repr

/-- Does the option take a value? -/
def Opt.takesValue : Opt → Bool
  | verbose | keepGoing | help | version => false
  | _ => true

/-- May the option be repeated? -/
def Opt.repeats : Opt → Bool
  | header | source => true
  | _ => false

/-- Is the value of the option acceptable? Paths are not empty, and a format is
one of two. -/
def Opt.accepts (o : Opt) (value : String) : Bool :=
  match o with
  | name => true
  | format => value = "text" || value = "json"
  | _ => !value.isEmpty

/-- Where an option may stand. -/
inductive Level where
  /-- Before the name of the command. -/
  | top
  | parse
  | build
deriving DecidableEq, Inhabited, Repr

/-- The options allowed on a level: their long names, their letters if they have
one, and what they are. -/
def Level.options (l : Level) : List (String × Option Char × Opt) :=
  let shared := [("config", some 'c', Opt.config), ("verbose", some 'v', .verbose),
    ("help", some 'h', .help)]
  shared ++ match l with
    | top => [("version", some 'V', .version)]
    | parse => [("format", some 'f', .format)]
    | build => [("name", some 'n', .name), ("header", none, .header), ("source", none, .source),
        ("dir", some 'd', .dir), ("output", some 'o', .output),
        ("keep-going", none, .keepGoing)]

/-- How many operands a level takes. -/
def Level.operandLimit : Level → Nat
  | parse => 1
  | _ => 0

/-- The option with a long name. -/
def Level.long? (l : Level) (name : String) : Option Opt :=
  (l.options.find? (·.1 = name)).map (·.2.2)

/-- The option with a letter. -/
def Level.short? (l : Level) (letter : Char) : Option Opt :=
  (l.options.find? (·.2.1 = some letter)).map (·.2.2)

/-! ## Splitting arguments -/

/-- An option as given, with its value if it takes one. -/
structure Given where
  option : Opt
  value : String := ""
deriving DecidableEq, Inhabited, Repr

/-- The next argument as the value of an option. A dash leads the next option,
unless it stands alone. -/
def nextValue? : List String → Option (String × List String)
  | [] => none
  | a :: rest =>
    match a.toList with
    | '-' :: _ :: _ => none
    | _ => some (a, rest)

/-- A long option, from after its dashes, and the arguments after it. -/
def longOption (l : Level) (body : List Char) (rest : List String) :
    Except Refusal (Given × List String) := do
  let name := String.ofList (body.takeWhile (· != '='))
  let some o := l.long? name | throw .usage
  match body.dropWhile (· != '=') with
  | _ :: value =>
    if o.takesValue then return (⟨o, String.ofList value⟩, rest) else throw .usage
  | [] =>
    if o.takesValue then
      let some (value, rest) := nextValue? rest | throw .usage
      return (⟨o, value⟩, rest)
    else return (⟨o, ""⟩, rest)

/-- Short options run together, from after their dash, and the arguments after
them. -/
def shortOptions (l : Level) : (letters : List Char) → (rest : List String) →
    Except Refusal (List Given × List String)
  | [], rest => return ([], rest)
  | c :: cs, rest => do
    let some o := l.short? c | throw .usage
    if o = .help || o = .version then throw .help
    if o.takesValue then
      match cs with
      | '=' :: value => return ([⟨o, String.ofList value⟩], rest)
      | _ :: _ => return ([⟨o, String.ofList cs⟩], rest)
      | [] =>
        let some (value, rest) := nextValue? rest | throw .usage
        return ([⟨o, value⟩], rest)
    else
      let (more, rest) ← shortOptions l cs rest
      return (⟨o, ""⟩ :: more, rest)

/-- One argument, or an option with its value. -/
inductive Item where
  | options (given : List Given)
  | operand (text : String)
  /-- The `--` after which everything is an operand. -/
  | stop

/-- The first item of the arguments, and the arguments after it. -/
def nextItem (l : Level) (a : String) (rest : List String) :
    Except Refusal (Item × List String) := do
  match a.toList with
  | ['-', '-'] => return (.stop, rest)
  | '-' :: '-' :: body =>
    let (g, rest) ← longOption l body rest
    if g.option = .help || g.option = .version then throw .help
    return (.options [g], rest)
  | '-' :: c :: cs =>
    let (gs, rest) ← shortOptions l (c :: cs) rest
    return (.options gs, rest)
  | _ => return (.operand a, rest)

/-- Adds options to those given before. Values must be acceptable, and most
options may not be repeated. -/
def addGiven (before : List Given) (new : List Given) : Except Refusal (List Given) :=
  new.foldlM (fun before g => do
    if g.option.takesValue && !g.option.accepts g.value then throw .usage
    if !g.option.repeats && before.any (·.option = g.option) then throw .usage
    return before ++ [g]) before

/-- Adds operands to those given before. Operands are paths, which are not empty,
and there may not be too many. -/
def addOperands (l : Level) (before new : List String) : Except Refusal (List String) :=
  new.foldlM (fun before text => do
    if text.isEmpty || l.operandLimit ≤ before.length then throw .usage
    return before ++ [text]) before

/-- All items of a command's arguments: the options and the operands. Each step
uses up an argument, so their number bounds the steps. -/
def collect (l : Level) : Nat → List Given → List String → List String →
    Except Refusal (List Given × List String)
  | 0, given, operands, _ => return (given, operands)
  | _, given, operands, [] => return (given, operands)
  | fuel + 1, given, operands, a :: rest => do
    match ← nextItem l a rest with
    | (.stop, rest) => return (given, ← addOperands l operands rest)
    | (.operand text, rest) => collect l fuel given (← addOperands l operands [text]) rest
    | (.options new, rest) => collect l fuel (← addGiven given new) operands rest

/-- The options before the name of the command, the name, and the arguments after
it. -/
def beforeCommand : Nat → List Given → List String →
    Except Refusal (List Given × String × List String)
  | 0, _, _ => throw .usage
  | _, _, [] => throw .usage
  | fuel + 1, given, a :: rest => do
    match ← nextItem .top a rest with
    | (.stop, _) => throw .usage
    | (.operand name, rest) => return (given, name, rest)
    | (.options new, rest) => beforeCommand fuel (← addGiven given new) rest

/-! ## Reading a command line -/

/-- The value of an option that may be given once. -/
def valueOf? (given : List Given) (o : Opt) : Option String :=
  (given.find? (·.option = o)).map (·.value)

/-- The values of an option that may be repeated. -/
def valuesOf (given : List Given) (o : Opt) : List String :=
  (given.filter (·.option = o)).map (·.value)

/-- Was the option given? -/
def isGiven (given : List Given) (o : Opt) : Bool := given.any (·.option = o)

/-- What `help` may be followed by. -/
def helpTopics : List (List String) := [[], ["parse"], ["build"], ["help"]]

/-- The command called `name`, with its options and operands. -/
def command (name : String) (args : List String) : Except Refusal (List Given × Command) := do
  match name with
  | "parse" =>
    let (given, operands) ← collect .parse args.length [] [] args
    let some file := operands.head? | throw .usage
    let format := if valueOf? given .format = some "json" then Format.json else .text
    return (given, .parse file format)
  | "build" =>
    let (given, _) ← collect .build args.length [] [] args
    return (given, .build
      { name := (valueOf? given .name).getD "api"
        headers := valuesOf given .header
        sources := valuesOf given .source
        dir := valueOf? given .dir
        output := valueOf? given .output
        keepGoing := isGiven given .keepGoing })
  | "help" => throw (if helpTopics.contains args then .help else .usage)
  | _ => throw .usage

/-- Reads a command line. -/
def read (args : List String) : Except Refusal Invocation := do
  let (outer, name, rest) ← beforeCommand (args.length + 1) [] args
  let (inner, command) ← command name rest
  return {
    config := valueOf? inner .config <|> valueOf? outer .config
    verbose := isGiven inner .verbose || isGiven outer .verbose
    command }

end CommandLine

end HeaderAtlas

import HeaderAtlas.Catalog.Form
import HeaderAtlas.Catalog.Stats
import HeaderAtlas.CommandLine.Args
import HeaderAtlas.Project.Survey

/-!
# Carrying out a command line

What a command says and writes, as a function of what is on the disk. A run that
finds nothing to warn about exits with 0, one with warnings or left-out files
with 2, and one that fails with 1. A command line that cannot be understood exits
with 2 and says nothing here.
-/

namespace HeaderAtlas

namespace CommandLine

/-- What a run comes to. -/
structure Report where
  exit : Nat := 0
  /-- The text for standard output. -/
  output : String := ""
  /-- Why the run failed, if it did. -/
  error : Option String := none
  warnings : List String := []
  /-- A file to write: its path and its text. -/
  save : Option (String × String) := none
deriving DecidableEq, Inhabited, Repr

namespace Report

/-- A run that failed. -/
def failed (message : String) : Report := { exit := 1, error := some message }

/-- The report of a run whose file could not be written. -/
def unsaved (r : Report) : Report :=
  match r.save with
  | none => r
  | some (path, _) =>
    { r with exit := 1, error := some ("writing " ++ path), output := "", save := none }

end Report

/-- The exit code of a run that did not fail. -/
def exitCode (clean : Bool) : Nat := if clean then 0 else 2

/-- Carries out `parse`. -/
def runParse (settings : Settings) (disk : Disk) (file : String) (format : Format) : Report :=
  let o := Catalog.ofFile { settings } disk file
  match o.result with
  | .error failure => .failed ("parsing " ++ file ++ ": " ++ failure.message)
  | .ok c =>
    let text := match format with
      | .json => c.form.pretty
      | .text => c.summary
    { exit := exitCode o.journal.isClean
      output := text ++ "\n"
      warnings := o.journal.visible.map Notice.text }

/-- The files that `build` is to survey: those named, then those found. -/
def BuildArgs.files (args : BuildArgs) (disk : Disk) : FileLists :=
  let found := match args.dir with
    | some dir => FileLists.discover disk dir
    | none => {}
  FileLists.append ⟨args.headers, args.sources⟩ found

/-- The warning about a file that was left out. -/
def skippedText (s : Skipped) : String := "Skipping " ++ s.file ++ ": " ++ s.failure.message

/-- Carries out `build`. -/
def runBuild (settings : Settings) (disk : Disk) (args : BuildArgs) : Report :=
  let files := args.files disk
  if files.headers.isEmpty then .failed "no header files given (use --header or --dir)"
  else
    let onFailure := if args.keepGoing then OnFailure.skip else .abort
    match Survey.run settings disk args.name onFailure files with
    | .error failure => .failed failure.message
    | .ok s =>
      let text := s.catalog.form.pretty
      { exit := exitCode (s.journal.isClean && s.skipped.isEmpty)
        output := if args.output.isSome then "" else text ++ "\n"
        warnings := s.skipped.map skippedText ++ s.journal.visible.map Notice.text
        save := args.output.map fun path => (path, text) }

/-- Carries out an invocation. Settings are read before anything else. -/
def execute (disk : Disk) (i : Invocation) : Report :=
  let go (settings : Settings) : Report :=
    match i.command with
    | .parse file format => runParse settings disk file format
    | .build args => runBuild settings disk args
  match i.config with
  | none => go .builtin
  | some path =>
    match Settings.load disk path with
    | .ok settings => go settings
    | .error failure => .failed ("loading " ++ path ++ ": " ++ failure.message)

/-- The report on a command line that is not carried out. -/
def refused : Refusal → Report
  | .help => {}
  | .usage => { exit := 2 }

/-- Runs a command line inside a directory. Returns the report and the directory
afterwards. -/
def run (here : FileTree) (args : List String) : Report × FileTree :=
  match read args with
  | .error refusal => (refused refusal, here)
  | .ok i =>
    let r := execute here.disk i
    match r.save with
    | none => (r, here)
    | some (path, text) =>
      match here.write? path text.toUTF8.toList with
      | some there => (r, there)
      | none => (r.unsaved, here)

end CommandLine

end HeaderAtlas

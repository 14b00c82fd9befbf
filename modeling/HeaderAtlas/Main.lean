import HeaderAtlas.CommandLine.Run

/-!
# The program

Reads from the disk what the command line names, runs the command on it, and
writes out what the report says.
-/

namespace HeaderAtlas

namespace Program

/-- What stands at a path. Links inside directories are left out. -/
partial def load (path : String) : IO (Option FileTree) := do
  let here := (← IO.currentDir) / path
  if path.isEmpty || !(← here.pathExists) then return none
  if ← here.isDir then
    let mut entries := []
    for entry in ← here.readDir do
      let kind := (← entry.path.symlinkMetadata).type
      if kind == .file || kind == .dir then
        if let some t ← load entry.path.toString then
          entries := NameMap.insertIn entry.fileName t entries
    return some (.dir entries)
  else return some (.file (← IO.FS.readBinFile here).toList)

/-- The paths that an invocation reads from. -/
def inputs (i : CommandLine.Invocation) : List String :=
  i.config.toList ++ match i.command with
    | .parse file _ => [file]
    | .build args => args.headers ++ args.sources ++ args.dir.toList

/-- The disk as far as the given paths go, and the files below them. -/
def snapshot (paths : List String) : IO Disk := do
  let trees ← paths.mapM fun path => do return (path, ← load path)
  let files := trees.flatMap fun (path, t) => (t.map (FileTree.filesAt path)).getD []
  return fun path => (trees.lookup path).join <|> (files.lookup path).map .file

/-- Prints what a run came to. -/
def publish (r : CommandLine.Report) : IO UInt32 := do
  for w in r.warnings do IO.eprintln ("WARN " ++ w)
  IO.print r.output
  if let some message := r.error then IO.eprintln ("error: " ++ message)
  return UInt32.ofNat r.exit

/-- Runs a command line. -/
def run (args : List String) : IO UInt32 := do
  match CommandLine.read args with
  | .error refusal => publish (CommandLine.refused refusal)
  | .ok i =>
    let r := CommandLine.execute (← snapshot (inputs i)) i
    match r.save with
    | none => publish r
    | some (path, text) =>
      try
        IO.FS.writeFile path text
        publish r
      catch _ => publish r.unsaved

end Program

end HeaderAtlas

/-- Runs the program. -/
def main (args : List String) : IO UInt32 := HeaderAtlas.Program.run args

import HeaderAtlas.NameMap
import HeaderAtlas.Path
import HeaderAtlas.Text.Search

/-!
# Files and directories

A `FileTree` is a file or a directory with everything below it. A `Disk` answers
which tree, if any, stands at a path; a directory is a disk, seen from inside
it.
-/

namespace HeaderAtlas

/-- A file or a directory. -/
inductive FileTree where
  | file (bytes : List UInt8)
  /-- The entries are in the order of their names. -/
  | dir (entries : List (String × FileTree))
deriving Inhabited

/-- What stands at a path. -/
abbrev Disk := String → Option FileTree

namespace FileTree

/-- An empty directory. -/
def emptyDir : FileTree := .dir []

/-- Is it a directory? -/
def isDir : FileTree → Bool
  | dir _ => true
  | file _ => false

/-- What stands below a tree at the end of a chain of names. -/
def get? : FileTree → List String → Option FileTree
  | t, [] => some t
  | file _, _ :: _ => none
  | dir entries, name :: rest =>
    match NameMap.find? name entries with
    | some t => t.get? rest
    | none => none

/-- Puts a tree at the end of a chain of names. Directories on the way are made
where there are none. -/
def put (t : FileTree) (names : List String) (new : FileTree) : FileTree :=
  match names with
  | [] => new
  | name :: rest =>
    let entries := match t with
      | dir entries => entries
      | file _ => []
    let child := (NameMap.find? name entries).getD emptyDir
    dir (NameMap.insertIn name (child.put rest new) entries)

/-! ## Paths -/

/-- Follows one component of a path from the directory at the end of `names`. -/
def follow (t : FileTree) (names : List String) (component : String) : Option (List String) :=
  match t.get? names with
  | some (dir _) =>
    if component = "" || component = "." then some names
    else if component = ".." then
      if names.isEmpty then none else some names.dropLast
    else if (t.get? (names ++ [component])).isSome then some (names ++ [component])
    else none
  | _ => none

/-- The components of a relative path, those that say nothing included. -/
def steps? (path : String) : Option (List String) :=
  match path.toList with
  | [] => none
  | '/' :: _ => none
  | cs => some ((Text.pieces (· == '/') cs).map String.ofList)

/-- The chain of names that a relative path leads to. Every directory it passes
has to exist. -/
def locate? (t : FileTree) (path : String) : Option (List String) := do
  (← steps? path).foldlM t.follow []

/-- The disk seen from inside a directory. -/
def disk (t : FileTree) : Disk := fun path => do t.get? (← t.locate? path)

/-- The tree with a file written at a path. The directory it is to stand in must
exist, and a directory is not overwritten. -/
def write? (t : FileTree) (path : String) (bytes : List UInt8) : Option FileTree := do
  let steps ← steps? path
  let name ← steps.getLast?
  let names ← steps.dropLast.foldlM t.follow []
  if name = "" || name = "." || name = ".." then none
  else if !(t.get? names).any isDir then none
  else if (t.get? (names ++ [name])).any isDir then none
  else some (t.put (names ++ [name]) (.file bytes))

/-! ## Walking -/

/-- The path of an entry of a directory. -/
def entryPath (dir name : String) : String :=
  if Text.endsWithText "/" dir then dir ++ name else dir ++ "/" ++ name

mutual

/-- The files of a tree that stands at `path`, with their paths and in the order
of their directories' entries. -/
def filesAt (path : String) : FileTree → List (String × List UInt8)
  | .file bytes => [(path, bytes)]
  | .dir entries => filesIn path entries

/-- The files in the entries of the directory at `path`. -/
def filesIn (path : String) : List (String × FileTree) → List (String × List UInt8)
  | [] => []
  | (name, t) :: rest => t.filesAt (entryPath path name) ++ filesIn path rest

end

end FileTree

end HeaderAtlas

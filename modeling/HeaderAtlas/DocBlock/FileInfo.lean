import HeaderAtlas.NameMap
import HeaderAtlas.Text.Blank

/-!
# File metadata

The first comment of a file may describe the file in lines of the form
`Key: value`. Lines that follow without a key of their own continue the value;
lines before the first key are a preamble and say nothing.
-/

namespace HeaderAtlas

namespace FileInfo

open Text

/-- Characters of a key. -/
def isKeyChar (c : Char) : Bool := c == '_' || c == '.' || c.isAlphanum

/-- The key and the value of a line that has a key. -/
def keyed? (line : List Char) : Option (List Char × List Char) :=
  match line.takeWhile isKeyChar, line.dropWhile isKeyChar with
  | [], _ => none
  | key, ':' :: value => some (key, trimStart value)
  | _, _ => none

/-- The text of a comment line, without the asterisks before it. -/
def lineText (line : List Char) : List Char :=
  trimStart ((trimStart line).dropWhile (· == '*'))

/-- The metadata read so far, and the key that the next line may continue. -/
structure Progress where
  key : Option String := none
  info : NameMap String := ∅

/-- Adds a line to the value of a key. -/
def append (info : NameMap String) (key : String) (text : List Char) : NameMap String :=
  info.insert key <| match info.get? key with
    | some value => value ++ " " ++ String.ofList text
    | none => String.ofList text

/-- Reads one line. -/
def step (p : Progress) (line : List Char) : Progress :=
  let text := lineText line
  match keyed? text with
  | some (key, value) =>
    let key := String.ofList key
    ⟨some key, append p.info key value⟩
  | none =>
    match p.key with
    | some key => ⟨some key, append p.info key text⟩
    | none => p

/-- The metadata in a comment. -/
def ofComment (comment : String) : NameMap String :=
  ((lines comment.toList).foldl step {}).info.map fun value => String.ofList (trim value.toList)

end FileInfo

end HeaderAtlas

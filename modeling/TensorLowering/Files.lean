import TensorLowering.Text.Characters

/-! # Files

A directory with files, as the program finds it when it reads configurations and overlays. Reading a
path gives a text, tells that there is no such file, or tells that what is there cannot be read as a
text. -/

namespace TensorLowering

/-- What stands at a place in a directory. -/
inductive FileContent where
  | bytes (content : ByteArray)
  | directory

/-- What reading a path gives. -/
inductive FileReading where
  | text (content : String)
  | missing
  | unreadable
  deriving DecidableEq, Repr

/-- The entries of a working directory, each at its path of names. -/
structure Files where
  entries : List (List String × FileContent)

namespace Files

/-- The directory without entries. -/
def empty : Files := ⟨[]⟩

/-- The names of a path; empty ones and single dots stand for nothing. -/
def names (path : String) : List String :=
  ((path.toList.splitOn '/').map String.ofList).filter fun name => name ≠ "" && name ≠ "."

/-- The directory with the given paths. -/
def ofList (entries : List (String × FileContent)) : Files :=
  ⟨entries.map fun (path, content) => (names path, content)⟩

/-- What stands at a place; a place with entries below it is a directory. -/
def at? (files : Files) (place : List String) : Option FileContent :=
  if place = [] then some .directory
  else
    match files.entries.lookup place with
    | some content => some content
    | none => if files.entries.any (fun e => place.isPrefixOf e.1) then some .directory else none

/-- The longest name of a directory entry, in bytes. -/
def maxNameSize : Nat := 255

/-- The longest path that can be opened, in bytes. -/
def maxPathSize : Nat := 4095

/-- What is read above the directory, where nothing is known but that every place further up is a
directory. -/
def readAbove (names : List String) : FileReading :=
  if names.all (· == "..") then .unreadable else .missing

/-- Follows the names of a path from a place on. Two dots lead one directory up, and only a
directory can be entered. -/
def follow (files : Files) : List String → List String → FileReading
  | place, [] =>
    match files.at? place with
    | some (.bytes content) =>
      match String.fromUTF8? content with
      | some text => .text text
      | none => .unreadable
    | some .directory => .unreadable
    | none => .missing
  | place, name :: rest =>
    match files.at? place with
    | some .directory =>
      if maxNameSize < name.utf8ByteSize then .unreadable
      else if name = ".." then
        if place = [] then readAbove rest else follow files place.dropLast rest
      else follow files (place ++ [name]) rest
    | some (.bytes _) => .unreadable
    | none => .missing

/-- Reads the file at a path relative to the directory. A path that is too long cannot be opened,
whatever it names. The empty path names nothing, and a path that ends in a slash, or in a slash and
a dot, names a directory. -/
def read (files : Files) (path : String) : FileReading :=
  if path.toList.contains '\x00' ∨ maxPathSize < path.utf8ByteSize then .unreadable
  else if path = "" then .missing
  else if path.startsWith "/" then readAbove (names path)
  else if path.endsWith "/" ∨ path.endsWith "/." then
    match files.follow [] (names path) with
    | .missing => .missing
    | _ => .unreadable
  else files.follow [] (names path)

end Files

end TensorLowering

import FoldingProtocol.Text.Split
import FoldingProtocol.Text.Utf8

/-!
# Trees of files

The part of a file system that a command sees: files with their contents, and
directories. A directory exists if it is said to or if something is in it. Paths
are followed name by name, as they are written; every name but the last has to
lead to a directory, and so does the last one before a closing slash.
-/

namespace FoldingProtocol

/-- A tree of files; places are lists of names from the root down. -/
structure FileTree where
  files : List (List (List Char) × Utf8.Bytes)
  directories : List (List (List Char))

/-- What is at a place. -/
inductive FileTree.Found where
  | file (contents : Utf8.Bytes)
  | directory
  | missing
  | throughFile

namespace FileTree

/-- The contents of the file at a place. -/
def get? (t : FileTree) (place : List (List Char)) : Option Utf8.Bytes :=
  t.files.lookup place

/-- Whether a directory is at a place. -/
def isDirectory (t : FileTree) (place : List (List Char)) : Bool :=
  place.isEmpty || t.directories.any (place.isPrefixOf ·) ||
    t.files.any fun (p, _) => place.isPrefixOf p && place ≠ p

/-- What is at a place. -/
def found (t : FileTree) (place : List (List Char)) : Found :=
  match t.get? place with
  | some contents => .file contents
  | none => if t.isDirectory place then .directory else .missing

/-- Follows the pieces of a path from a place on. -/
def follow (t : FileTree) (place : List (List Char)) : List (List Char) → Found
  | [] => t.found place
  | piece :: rest =>
    match t.found place with
    | .directory =>
      if piece = [] ∨ piece = ['.'] then follow t place rest
      else if piece = ['.', '.'] then follow t place.dropLast rest
      else follow t (place ++ [piece]) rest
    | .file _ => .throughFile
    | found => found

/-- What a path leads to, from a directory if it is relative. -/
def look (t : FileTree) (directory : List (List Char)) (path : List Char) : Found :=
  match path with
  | [] => .missing
  | '/' :: rest => t.follow [] (Text.splitAt '/' rest)
  | _ => t.follow directory (Text.splitAt '/' path)

/-- Puts contents at a place, whatever was there. -/
def put (t : FileTree) (place : List (List Char)) (contents : Utf8.Bytes) : FileTree :=
  { t with files := (place, contents) :: t.files.filter fun (p, _) => p ≠ place }

end FileTree

end FoldingProtocol

import FoldingProtocol.Text.Split

/-!
# File paths

A path is a root and a list of names. Empty names and single dots between
slashes mean nothing and are dropped when a path is read. Two dots are kept,
since what they mean depends on the file system; `resolve` takes them at their
face value, for paths without links. A path that starts with exactly two
slashes has a root of its own.
-/

namespace FoldingProtocol

/-- Where a path starts. -/
inductive FilePath.Root where
  | relative
  | single
  | double
deriving DecidableEq, Repr

/-- A path: its root and its names. -/
structure FilePath where
  root : FilePath.Root
  names : List (List Char)
deriving DecidableEq, Repr

namespace FilePath

/-- A piece that is a name. -/
def isName (piece : List Char) : Bool := piece ≠ [] && piece ≠ ['.']

/-- The names in a text. -/
def namesOf (cs : List Char) : List (List Char) := (Text.splitAt '/' cs).filter isName

/-- The root of a text. -/
def rootOf : List Char → Root
  | '/' :: '/' :: '/' :: _ => .single
  | '/' :: '/' :: _ => .double
  | '/' :: _ => .single
  | _ => .relative

/-- The path that a text spells. -/
def ofText (cs : List Char) : FilePath := ⟨rootOf cs, namesOf cs⟩

/-- The text of a root. -/
def Root.text : Root → List Char
  | .relative => []
  | .single => ['/']
  | .double => ['/', '/']

/-- The text of a path; a path without root and names is a dot. -/
def text (p : FilePath) : List Char :=
  match p.root.text ++ ['/'].intercalate p.names with
  | [] => ['.']
  | cs => cs

/-- A path with a name after it. -/
def child (p : FilePath) (name : List Char) : FilePath := { p with names := p.names ++ [name] }

/-- Goes on from a directory by one name; two dots go up, and nothing is above
the root. -/
def enter (names : List (List Char)) (name : List Char) : List (List Char) :=
  if name = ['.', '.'] then names.dropLast else names ++ [name]

/-- The names from the root down, starting at a directory if the path is
relative. -/
def resolve (directory : List (List Char)) (p : FilePath) : List (List Char) :=
  p.names.foldl enter (if p.root = .relative then directory else [])

end FilePath

end FoldingProtocol

import FoldingProtocol.Model.Document
import FoldingProtocol.Uri.FilePath
import FoldingProtocol.Uri.Percent
import FoldingProtocol.Uri.Reference

/-!
# File URIs

The URI of a file is its resolved path behind the scheme, with percent escapes.
Going back, the authority is not looked at, and the path is taken as it stands
behind the escapes.
-/

namespace FoldingProtocol.Uri

/-- Why a URI gives no path. -/
inductive NoPath where
  | reference (fault : Fault)
  | notFile (uri : List Char)
deriving DecidableEq, Repr

/-- What is said about it. -/
def NoPath.message : NoPath → String
  | .reference fault => fault.message
  | .notFile uri => "Not a file URI: " ++ .ofList uri

/-- The URI of resolved names. -/
def ofNames (names : List (List Char)) : List Char :=
  "file://".toList ++ Percent.escape ((⟨.single, names⟩ : FilePath).text)

/-- The URI of a path, which is relative to a directory; no file has a name
with the null character in it. -/
def ofPath? (directory : List (List Char)) (path : List Char) : Option (List Char) :=
  if path.contains '\x00' then none
  else some (ofNames ((FilePath.ofText path).resolve directory))

/-- What is said about a path with the null character. -/
def nullMessage : String := "embedded null byte"

/-- The path in a file URI. -/
def toPath (uri : List Char) : Except NoPath FilePath :=
  match Reference.ofText uri with
  | .error fault => .error (.reference fault)
  | .ok r =>
    if r.scheme = ['f', 'i', 'l', 'e'] then .ok (.ofText (Percent.unescape r.plainPath))
    else .error (.notFile uri)

/-- The identifier of the document at a path. -/
def document? (directory : List (List Char)) (path : List Char) : Option DocumentIdentifier :=
  (ofPath? directory path).map fun uri => ⟨.ofList uri⟩

end FoldingProtocol.Uri

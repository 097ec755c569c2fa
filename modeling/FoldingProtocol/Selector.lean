import FoldingProtocol.Glob
import FoldingProtocol.Model.Server
import FoldingProtocol.Uri.Percent
import FoldingProtocol.Uri.Reference

/-!
# Selecting documents

A filter looks at the language of a document, the scheme of its URI and the
path in it; the path is compared with a pattern behind its percent escapes, and
leading slashes of either do not count. A selector takes a document that one of
its filters takes, and no selector takes every document.

Only the path needs the URI to be split, so a URI that cannot be split fails
only where a pattern is reached.
-/

namespace FoldingProtocol

/-- A text without the slashes in front. -/
def withoutLeadingSlashes (cs : List Char) : List Char := cs.dropWhile (· == '/')

/-- The patterns that a pattern stands for: two stars and a slash in front match
no directory, too. -/
def patternCandidates (pattern : List Char) : List (List Char) :=
  match withoutLeadingSlashes pattern with
  | '*' :: '*' :: '/' :: rest => ['*' :: '*' :: '/' :: rest, rest]
  | cs => [cs]

/-- Whether a pattern takes a path. -/
def patternTakes (pattern path : List Char) : Bool :=
  (patternCandidates pattern).any (Glob.fits · path)

namespace DocumentFilter

/-- Whether the language is left open or the one asked for. -/
def takesLanguage (f : DocumentFilter) (language : Option String) : Bool :=
  match f.language with
  | none => true
  | some l => language == some l

/-- Whether the scheme is left open or the one in front of the URI. -/
def takesScheme (f : DocumentFilter) (uri : List Char) : Bool :=
  match f.scheme with
  | none => true
  | some s => (s.toList ++ [':']).isPrefixOf uri

/-- Whether the pattern is left open or takes the path of the URI. -/
def takesPath (f : DocumentFilter) (uri : List Char) : Except Uri.Fault Bool :=
  match f.pattern with
  | none => .ok true
  | some p => do
    let r ← Uri.Reference.ofText uri
    .ok (patternTakes p.toList (withoutLeadingSlashes (Percent.unescape r.plainPath)))

/-- Whether a filter takes a document. -/
def takes (f : DocumentFilter) (uri : String) (language : Option String) :
    Except Uri.Fault Bool :=
  if f.takesLanguage language && f.takesScheme uri.toList then f.takesPath uri.toList
  else .ok false

/-- Whether one of the filters takes a document; they are asked in order. -/
def anyTakes (uri : String) (language : Option String) :
    List DocumentFilter → Except Uri.Fault Bool
  | [] => .ok false
  | f :: rest => do
    if ← f.takes uri language then .ok true else anyTakes uri language rest

end DocumentFilter

/-- Whether the options select a document. -/
def FoldingRegistrationOptions.takes (o : FoldingRegistrationOptions) (uri : String)
    (language : Option String) : Except Uri.Fault Bool :=
  match o.documentSelector with
  | none => .ok true
  | some filters => DocumentFilter.anyTakes uri language filters

end FoldingProtocol

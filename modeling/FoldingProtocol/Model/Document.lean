import FoldingProtocol.Decoding.Scalar
import FoldingProtocol.Model.Style

/-!
# Documents in messages

A request names its document by a URI. A selector names documents by filters;
what a filter leaves open any document satisfies.
-/

namespace FoldingProtocol

/-- A document. -/
structure DocumentIdentifier where
  uri : String
deriving DecidableEq, Repr

/-- A condition on documents: language, scheme of the URI, pattern of the
path. -/
structure DocumentFilter where
  language : Option String
  scheme : Option String
  pattern : Option String
deriving DecidableEq, Repr

/-- What a request for folding ranges asks about. -/
structure FoldingRangeParams where
  textDocument : DocumentIdentifier
deriving DecidableEq, Repr

namespace DocumentIdentifier

def uriField : Field := .plain "uri"

/-- A document, which has to have its URI. -/
def decode : Decoder DocumentIdentifier :=
  Decoder.object "TextDocumentIdentifier" fun ms =>
    DocumentIdentifier.mk <$> uriField.required Decoder.text ms

/-- A document as an object. -/
def encode (style : Style) (d : DocumentIdentifier) : Value :=
  style.object [uriField.entry style (.str d.uri)] []

end DocumentIdentifier

namespace DocumentFilter

def languageField : Field := .plain "language"
def schemeField : Field := .plain "scheme"
def patternField : Field := .plain "pattern"

/-- A filter; any of its conditions may be left open. -/
def decode : Decoder DocumentFilter :=
  Decoder.object "DocumentFilter" fun ms =>
    DocumentFilter.mk <$> Decoder.optional languageField Decoder.text ms
      <*> Decoder.optional schemeField Decoder.text ms
      <*> Decoder.optional patternField Decoder.text ms

/-- A filter as an object. -/
def encode (style : Style) (f : DocumentFilter) : Value :=
  style.object [
    languageField.entry style (.ofText? f.language),
    schemeField.entry style (.ofText? f.scheme),
    patternField.entry style (.ofText? f.pattern)] []

end DocumentFilter

namespace FoldingRangeParams

def textDocumentField : Field := ⟨"textDocument", "text_document"⟩

/-- The parameters of a request, which have to name a document. -/
def decode : Decoder FoldingRangeParams :=
  Decoder.object "FoldingRangeRequestParams" fun ms =>
    FoldingRangeParams.mk <$> textDocumentField.required DocumentIdentifier.decode ms

/-- The parameters of a request as an object. -/
def encode (style : Style) (p : FoldingRangeParams) : Value :=
  style.object [textDocumentField.entry style (p.textDocument.encode style)] []

end FoldingRangeParams

end FoldingProtocol

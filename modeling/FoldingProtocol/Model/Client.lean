import FoldingProtocol.Decoding.Scalar
import FoldingProtocol.Model.Style

/-!
# What a client can do

The folding capabilities stand inside those for text documents, which stand
inside all capabilities. The two outer objects hold much that this library does
not know; it is kept as it came.
-/

namespace FoldingProtocol

/-- What a client says about folding. The greatest number of ranges is a hint
and never a cap. -/
structure FoldingClientCapabilities where
  dynamicRegistration : Option Bool
  maximumNumberOfRanges : Option Nat
  completeLineFoldingOnly : Option Bool
deriving DecidableEq, Repr

/-- What a client says about text documents. -/
structure TextDocumentClientCapabilities where
  foldingProvider : Option FoldingClientCapabilities
  extras : Members

/-- All that a client says. -/
structure ClientCapabilities where
  textDocument : Option TextDocumentClientCapabilities
  extras : Members

namespace FoldingClientCapabilities

def dynamicRegistrationField : Field := ⟨"dynamicRegistration", "dynamic_registration"⟩
def maximumNumberOfRangesField : Field :=
  ⟨"maximumNumberOfRanges", "maximum_number_of_ranges"⟩
def completeLineFoldingOnlyField : Field :=
  ⟨"completeLineFoldingOnly", "complete_line_folding_only"⟩

/-- A client that says nothing about folding. -/
def unspecified : FoldingClientCapabilities := ⟨none, none, none⟩

/-- The capabilities that members spell. -/
def ofMembers (ms : Members) : Decoded FoldingClientCapabilities :=
  FoldingClientCapabilities.mk
    <$> Decoder.optional dynamicRegistrationField Decoder.flag ms
    <*> Decoder.optional maximumNumberOfRangesField Decoder.count ms
    <*> Decoder.optional completeLineFoldingOnlyField Decoder.flag ms

/-- The name of this shape. -/
def title : String := "FoldingProviderClientCapabilities"

/-- Folding capabilities, each of which may be left out. -/
def decode : Decoder FoldingClientCapabilities := Decoder.object title ofMembers

/-- Folding capabilities as an object. -/
def encode (style : Style) (c : FoldingClientCapabilities) : Value :=
  style.object [
    dynamicRegistrationField.entry style (.ofBool? c.dynamicRegistration),
    maximumNumberOfRangesField.entry style (.ofNat? c.maximumNumberOfRanges),
    completeLineFoldingOnlyField.entry style (.ofBool? c.completeLineFoldingOnly)] []

end FoldingClientCapabilities

namespace TextDocumentClientCapabilities

def foldingProviderField : Field := ⟨"foldingProvider", "folding_provider"⟩

/-- Capabilities for text documents; members other than that for folding are kept. -/
def decode : Decoder TextDocumentClientCapabilities :=
  Decoder.object "TextDocumentClientCapabilities" fun ms =>
    (TextDocumentClientCapabilities.mk · (Field.others [foldingProviderField] ms))
      <$> Decoder.optional foldingProviderField FoldingClientCapabilities.decode ms

/-- Capabilities for text documents as an object. -/
def encode (style : Style) (c : TextDocumentClientCapabilities) : Value :=
  (style.object [
    foldingProviderField.entry style
      (.ofOption (c.foldingProvider.map (FoldingClientCapabilities.encode style)))]
    c.extras).dumped

/-- Equality up to sameness of what is not known. -/
def same (a b : TextDocumentClientCapabilities) : Bool :=
  a.foldingProvider == b.foldingProvider && Value.same (.obj a.extras) (.obj b.extras)

end TextDocumentClientCapabilities

namespace ClientCapabilities

def textDocumentField : Field := ⟨"textDocument", "text_document"⟩

/-- All capabilities; members other than that for text documents are kept. -/
def decode : Decoder ClientCapabilities :=
  Decoder.object "ClientCapabilities" fun ms =>
    (ClientCapabilities.mk · (Field.others [textDocumentField] ms))
      <$> Decoder.optional textDocumentField TextDocumentClientCapabilities.decode ms

/-- All capabilities as an object. -/
def encode (style : Style) (c : ClientCapabilities) : Value :=
  (style.object [
    textDocumentField.entry style
      (.ofOption (c.textDocument.map (TextDocumentClientCapabilities.encode style)))]
    c.extras).dumped

/-- Equality up to sameness of what is not known. -/
def same (a b : ClientCapabilities) : Bool :=
  (match a.textDocument, b.textDocument with
    | none, none => true
    | some s, some t => s.same t
    | _, _ => false) && Value.same (.obj a.extras) (.obj b.extras)

end ClientCapabilities

end FoldingProtocol

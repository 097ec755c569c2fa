import FoldingProtocol.Model.Client
import FoldingProtocol.Model.Range
import FoldingProtocol.Model.Registration
import FoldingProtocol.Model.Server

/-!
# The shapes of the protocol

All shapes side by side, where one is chosen by name: decoding to a shape,
writing what was decoded, and comparing two such values.
-/

namespace FoldingProtocol

/-- A shape of the protocol. -/
inductive Shape where
  | documentIdentifier
  | documentFilter
  | foldingRange
  | foldingRangeList
  | foldingRangeParams
  | foldingClientCapabilities
  | textDocumentClientCapabilities
  | clientCapabilities
  | foldingOptions
  | foldingRegistrationOptions
  | serverCapabilities
  | registration
  | registrationParams
deriving DecidableEq, Repr

/-- A value of one of the shapes. -/
inductive Model where
  | documentIdentifier (m : DocumentIdentifier)
  | documentFilter (m : DocumentFilter)
  | foldingRange (m : FoldingRange)
  | foldingRangeList (m : FoldingRangeList)
  | foldingRangeParams (m : FoldingRangeParams)
  | foldingClientCapabilities (m : FoldingClientCapabilities)
  | textDocumentClientCapabilities (m : TextDocumentClientCapabilities)
  | clientCapabilities (m : ClientCapabilities)
  | foldingOptions (m : FoldingOptions)
  | foldingRegistrationOptions (m : FoldingRegistrationOptions)
  | serverCapabilities (m : ServerCapabilities)
  | registration (m : Registration)
  | registrationParams (m : RegistrationParams)

namespace Shape

/-- The name of a shape. -/
def title : Shape → String
  | .documentIdentifier => "TextDocumentIdentifier"
  | .documentFilter => "DocumentFilter"
  | .foldingRange => "FoldingRange"
  | .foldingRangeList => "FoldingRangeList"
  | .foldingRangeParams => "FoldingRangeRequestParams"
  | .foldingClientCapabilities => FoldingClientCapabilities.title
  | .textDocumentClientCapabilities => "TextDocumentClientCapabilities"
  | .clientCapabilities => "ClientCapabilities"
  | .foldingOptions => FoldingOptions.title
  | .foldingRegistrationOptions => FoldingRegistrationOptions.title
  | .serverCapabilities => "ServerCapabilities"
  | .registration => "Registration"
  | .registrationParams => "RegistrationParams"

/-- All shapes. -/
def all : List Shape := [
  .documentIdentifier, .documentFilter, .foldingRange, .foldingRangeList,
  .foldingRangeParams, .foldingClientCapabilities, .textDocumentClientCapabilities,
  .clientCapabilities, .foldingOptions, .foldingRegistrationOptions,
  .serverCapabilities, .registration, .registrationParams]

/-- The shape of a name. -/
def ofTitle? (title : String) : Option Shape := all.find? (·.title == title)

/-- Decodes to a shape. -/
def decoder : Shape → Decoder Model
  | .documentIdentifier => fun v => (DocumentIdentifier.decode v).map .documentIdentifier
  | .documentFilter => fun v => (DocumentFilter.decode v).map .documentFilter
  | .foldingRange => fun v => (FoldingRange.decode v).map .foldingRange
  | .foldingRangeList => fun v => (FoldingRangeList.decode v).map .foldingRangeList
  | .foldingRangeParams => fun v => (FoldingRangeParams.decode v).map .foldingRangeParams
  | .foldingClientCapabilities => fun v =>
    (FoldingClientCapabilities.decode v).map .foldingClientCapabilities
  | .textDocumentClientCapabilities => fun v =>
    (TextDocumentClientCapabilities.decode v).map .textDocumentClientCapabilities
  | .clientCapabilities => fun v => (ClientCapabilities.decode v).map .clientCapabilities
  | .foldingOptions => fun v => (FoldingOptions.decode v).map .foldingOptions
  | .foldingRegistrationOptions => fun v =>
    (FoldingRegistrationOptions.decode v).map .foldingRegistrationOptions
  | .serverCapabilities => fun v => (ServerCapabilities.decode v).map .serverCapabilities
  | .registration => fun v => (Registration.decode v).map .registration
  | .registrationParams => fun v => (RegistrationParams.decode v).map .registrationParams

/-- Decodes a whole value to a shape, under the shape's name. -/
def decode (shape : Shape) (v : Value) : Except Refusal Model :=
  (shape.decoder v).titled shape.title

end Shape

namespace Model

/-- A value of a shape, written out. -/
def encode (style : Style) : Model → Value
  | .documentIdentifier m => m.encode style
  | .documentFilter m => m.encode style
  | .foldingRange m => m.encode style
  | .foldingRangeList m => m.encode style
  | .foldingRangeParams m => m.encode style
  | .foldingClientCapabilities m => m.encode style
  | .textDocumentClientCapabilities m => m.encode style
  | .clientCapabilities m => m.encode style
  | .foldingOptions m => m.encode style
  | .foldingRegistrationOptions m => m.encode style
  | .serverCapabilities m => m.encode style
  | .registration m => m.encode style
  | .registrationParams m => m.encode style

/-- A value of a shape as it is sent. -/
def toWire (m : Model) : Value := m.encode .wire

/-- Equality: one shape, equal fields, and the same values where any are
carried. -/
def same : Model → Model → Bool
  | .documentIdentifier a, .documentIdentifier b => a == b
  | .documentFilter a, .documentFilter b => a == b
  | .foldingRange a, .foldingRange b => a == b
  | .foldingRangeList a, .foldingRangeList b => a == b
  | .foldingRangeParams a, .foldingRangeParams b => a == b
  | .foldingClientCapabilities a, .foldingClientCapabilities b => a == b
  | .textDocumentClientCapabilities a, .textDocumentClientCapabilities b => a.same b
  | .clientCapabilities a, .clientCapabilities b => a.same b
  | .foldingOptions a, .foldingOptions b => a == b
  | .foldingRegistrationOptions a, .foldingRegistrationOptions b => a == b
  | .serverCapabilities a, .serverCapabilities b => a.same b
  | .registration a, .registration b => a.same b
  | .registrationParams a, .registrationParams b => a.same b
  | _, _ => false

end Model

end FoldingProtocol
